import ClassLang.Proofs.Target.Operations
import ClassLang.Proofs.Token.Rescanning

set_option autoImplicit false

/-!
# The tokens of generated operations

The text of an operation is scanned back into the signs and operands that it was put together from.
There is one exception: a minus directly in front of a number is drawn into the number if a blank,
or nothing, stands in front of it.

## Main definitions

* `ClassLang.Scan.Scans` — a text is scanned into given spellings, whatever stands behind it.
* `ClassLang.Expr.written` — the spellings of the text of an expression on scalars.

## Main results

* `ClassLang.Expr.scans_code` — the text is scanned into these spellings.
-/

namespace ClassLang

open Spelling (sign)

/-- A spelling on a line. -/
def Spelling.piece (line : Nat) (s : Spelling) : Scan.Piece :=
  { kind := s.1, text := s.2.toList, line }

namespace Scan

/-! ## Breaks -/

/-- What may stand behind a lexeme without going on with it: nothing, a blank or a closing
parenthesis. -/
def Breaks (rest : List Char) : Prop :=
  ∀ c ∈ rest.head?, c = ' ' ∨ c = ')'

/-- The text `cs`, behind the character `before`, is scanned into `ss`, whatever stands behind a
break. -/
def Scans (before : Option Char) (cs : List Char) (ss : List Spelling) : Prop :=
  ∀ line rest, Breaks rest →
    pieces before line (cs ++ rest) = ss.map (Spelling.piece line) ++ pieces none line rest

lemma breaks_blank (rest : List Char) : Breaks (' ' :: rest) := by
  rintro _ ⟨⟩
  exact .inl rfl

lemma breaks_close (rest : List Char) : Breaks (')' :: rest) := by
  rintro _ ⟨⟩
  exact .inr rfl

variable {before : Option Char} {c d : Char} {cs rest : List Char} {line : Nat}

/-- A step that takes a lexeme on one line. -/
lemma pieces_of_step {kind : Kind} {text : List Char}
    (h : step before c cs = { kind := some kind, text, rest }) :
    pieces before line (c :: cs) = { kind, text, line } :: pieces text.getLast? line rest := by
  rw [pieces, h]
  rfl

/-- Only a sign depends on what stands in front of it. -/
lemma pieces_eq_pieces_none (hc : c ≠ '+' ∧ c ≠ '-') :
    pieces before line (c :: cs) = pieces none line (c :: cs) := by
  have hstep : ∀ before, step before c cs = unsignedStep c cs := by
    intro before
    refine step_of_not_signTaken ?_
    simp [signTaken, hc]
  rw [pieces, pieces, hstep, hstep]

/-- Nothing behind a break depends on what stands in front of it. -/
lemma Breaks.pieces_eq (h : Breaks rest) : pieces before line rest = pieces none line rest := by
  cases rest with
  | nil => rw [pieces, pieces]
  | cons c cs =>
    rcases h c rfl with rfl | rfl <;> exact pieces_eq_pieces_none (by decide)

/-! ## Words and numbers -/

/-- A word ends where it should. -/
lemma word_append (hcs : cs.all continuesWord = true)
    (hrest : ∀ c ∈ rest.head?, continuesWord c = false) :
    (word (cs ++ rest)).text = cs ∧ (word (cs ++ rest)).rest = rest := by
  have hnone : rest.takeWhile continuesWord = [] ∧ rest.dropWhile continuesWord = rest := by
    cases rest with
    | nil => exact ⟨rfl, rfl⟩
    | cons d rest => simp [hrest d rfl]
  have hall : ∀ d ∈ cs, continuesWord d = true := List.all_eq_true.1 hcs
  simp only [word]
  rw [List.takeWhile_append_of_pos hall, List.dropWhile_append_of_pos hall, hnone.1, hnone.2,
    List.append_nil]
  exact ⟨rfl, rfl⟩

/-- A word in front of anything that does not go on with it. -/
lemma pieces_word {text : String} (hstarts : text.toList.head?.any startsWord = true)
    (hall : text.toList.all continuesWord = true)
    (hrest : ∀ c ∈ rest.head?, continuesWord c = false) :
    pieces before line (text.toList ++ rest) =
      { kind := if Word.isKeyword text then .keyword else .identifier
        text := text.toList
        line } :: pieces text.toList.getLast? line rest := by
  obtain ⟨hword, hafter⟩ := word_append hall hrest
  cases htext : text.toList with
  | nil => simp [htext] at hstarts
  | cons c cs =>
    rw [htext] at hstarts hword hafter
    have hofList : String.ofList (c :: cs) = text := by rw [← htext, String.ofList_toList]
    have hc : startsWord c = true := by simpa using hstarts
    have hstep : step before c (cs ++ rest) =
        { kind := some (if Word.isKeyword text then .keyword else .identifier), text := c :: cs,
          rest } := by
      rw [step_of_startsWord hc]
      simp only [word, List.cons_append] at hword hafter ⊢
      rw [hword, hafter, hofList]
      split <;> rfl
    rw [List.cons_append, pieces_of_step hstep]

/-- Digits are read up to a character that is none. -/
lemma mantissa_append {ds : List Char} (hds : ds.all Char.isDigit = true) (hrest : Breaks rest) :
    mantissa false (ds ++ rest) =
      { text := ds, rest, hasPoint := false, secondPoint := false } := by
  induction ds with
  | nil =>
    cases rest with
    | nil => rfl
    | cons c cs => rcases hrest c rfl with rfl | rfl <;> rfl
  | cons d ds ih =>
    rw [List.all_cons, Bool.and_eq_true] at hds
    have hpoint : d ≠ '.' := by
      rintro rfl
      exact absurd hds.1 (by decide)
    rw [List.cons_append, mantissa, if_neg hpoint, if_pos hds.1, ih hds.2]
    rfl

/-- Digits are a number. -/
lemma number_append {ds : List Char} (hds : ds.all Char.isDigit = true) (hrest : Breaks rest) :
    number (ds ++ rest) = { kind := some .number, text := ds, rest } := by
  rw [number, mantissa_append hds hrest]
  cases rest with
  | nil => rfl
  | cons c cs => rcases hrest c rfl with rfl | rfl <;> rfl

lemma startsNumber_append {ds : List Char} (hne : ds ≠ []) (hds : ds.all Char.isDigit = true) :
    startsNumber (ds ++ rest) = true := by
  cases ds with
  | nil => exact absurd rfl hne
  | cons d ds =>
    rw [List.all_cons, Bool.and_eq_true] at hds
    simp [startsNumber, hds.1]

/-- A number in front of a break. -/
lemma pieces_number {ds : List Char} (hne : ds ≠ []) (hds : ds.all Char.isDigit = true)
    (hrest : Breaks rest) :
    pieces before line (ds ++ rest) =
      { kind := .number, text := ds, line } :: pieces none line rest := by
  have hstarts : startsNumber (ds ++ rest) = true := startsNumber_append hne hds
  have hnumber := number_append hds hrest
  cases ds with
  | nil => exact absurd rfl hne
  | cons d ds =>
    have hd : d.isDigit = true := by
      rw [List.all_cons, Bool.and_eq_true] at hds
      exact hds.1
    have hsign : signTaken before d (ds ++ rest) = false := by
      have hne : d ≠ '+' ∧ d ≠ '-' := by
        constructor <;> rintro rfl <;> exact absurd hd (by decide)
      simp [signTaken, hne]
    have hstep : step before d (ds ++ rest) = { kind := some .number, text := d :: ds, rest } := by
      rw [step_of_not_signTaken hsign]
      exact (unsignedStep_of_startsNumber hstarts).trans hnumber
    rw [List.cons_append, pieces_of_step hstep, hrest.pieces_eq]

/-- A minus that is drawn into the number behind it. -/
lemma pieces_signedNumber {ds : List Char} (hbefore : signFolds before = true) (hne : ds ≠ [])
    (hds : ds.all Char.isDigit = true) (hrest : Breaks rest) :
    pieces before line ('-' :: ds ++ rest) =
      { kind := .number, text := '-' :: ds, line } :: pieces none line rest := by
  have hsign : signTaken before '-' (ds ++ rest) = true := by
    simp [signTaken, hbefore, startsNumber_append hne hds]
  have hstep : step before '-' (ds ++ rest) =
      { kind := some .number, text := '-' :: ds, rest } := by
    rw [step_of_signTaken hsign, signedNumber, number_append hds hrest]
  rw [List.cons_append, pieces_of_step hstep, hrest.pieces_eq]

/-! ## Operators -/

/-- The characters that the operators of expressions start with. -/
def operatorStarts : List Char :=
  ['+', '-', '*', '/', '%', '=', '!', '<', '>', '&', '|', '(', ')']

/-- The characters that go on with an operator. -/
def operatorTails : List Char := ['+', '-', '=', '&', '|', '<', '>', ':']

/-- An operator is a lexeme if it is neither the start of a comment nor the sign of a number. -/
lemma step_operator (hc : c ∈ operatorStarts)
    (hcomment : c = '/' → cs.head? ≠ some '/' ∧ cs.head? ≠ some '*')
    (hsign : signTaken before c cs = false) : step before c cs = operator c cs := by
  have hplain : (operatorStarts.all fun c => !Text.isBlank c && !startsWord c && !c.isDigit &&
      c ≠ '.' && c ≠ '"' && c ≠ '\'' && Word.isOperator (String.ofList [c])) = true := by decide
  have hplain := List.all_eq_true.1 hplain c hc
  simp only [Bool.and_eq_true, Bool.not_eq_true', decide_eq_true_eq] at hplain
  obtain ⟨⟨⟨⟨⟨⟨hblank, hword⟩, hdigit⟩, hpoint⟩, hstring⟩, hchar⟩, hop⟩ := hplain
  have hnumber : startsNumber (c :: cs) = false := by simp [startsNumber, hdigit, hpoint]
  have hline : (c = '/' && cs.head? = some '/') = false := by
    simpa using fun h => (hcomment h).1
  have hblock : (c = '/' && cs.head? = some '*') = false := by
    simpa using fun h => (hcomment h).2
  rw [step_of_not_signTaken hsign]
  simp only [unsignedStep, hblank, hword, hnumber, hstring, hchar, hline, hblock, hop,
    Bool.false_eq_true, if_false, if_true]

/-- An operator ends where one more character makes it none. -/
lemma extendOperator_of_not_mem {text : List Char}
    (h : ∀ c ∈ rest.head?, String.ofList (text ++ [c]) ∉ Word.operators) :
    extendOperator text rest = (text, rest) := by
  cases rest with
  | nil => rfl
  | cons d rest =>
    have hnot : ¬ Word.isOperator (String.ofList (text ++ [d])) = true := by
      rw [Word.isOperator, List.contains_iff_mem]
      exact h d rfl
    rw [extendOperator, if_neg hnot]

/-- An operator ends in front of a character that does not go on with it. -/
lemma extendOperator_stop {text : List Char} (hne : text ≠ [])
    (hrest : ∀ c ∈ rest.head?, c ∉ operatorTails) : extendOperator text rest = (text, rest) := by
  have htails : (Word.operators.all fun op => op.toList.tail.all (· ∈ operatorTails)) = true := by
    decide
  refine extendOperator_of_not_mem fun c hc hmem => hrest c hc ?_
  have hall := List.all_eq_true.1 htails _ hmem
  rw [String.toList_ofList, List.tail_append_of_ne_nil hne, List.all_append,
    Bool.and_eq_true] at hall
  simpa using hall.2

/-- Parentheses, brackets and commas are operators of one character only. -/
lemma extendOperator_alone (hc : c ∈ ['(', ')', '[', ']', ',']) (cs : List Char) :
    extendOperator [c] cs = ([c], cs) := by
  have halone : (Word.operators.all fun op => op.toList.tail.isEmpty ||
      op.toList.head?.all (· ∉ ['(', ')', '[', ']', ','])) = true := by decide
  refine extendOperator_of_not_mem fun d _ hmem => ?_
  have hop := List.all_eq_true.1 halone _ hmem
  rw [String.toList_ofList] at hop
  exact absurd hc (of_decide_eq_true hop)

/-- A parenthesis is a lexeme of its own. -/
lemma pieces_paren (hc : c = '(' ∨ c = ')') :
    pieces before line (c :: cs) =
      { kind := .operator, text := [c], line } :: pieces (some c) line cs := by
  have hstop : extendOperator [c] cs = ([c], cs) :=
    extendOperator_alone (by rcases hc with rfl | rfl <;> decide) cs
  have hstep : step before c cs = { kind := some .operator, text := [c], rest := cs } := by
    have hmem : c ∈ operatorStarts := by rcases hc with rfl | rfl <;> decide
    have hslash : c ≠ '/' := by rcases hc with rfl | rfl <;> decide
    have hsign : c ≠ '+' ∧ c ≠ '-' := by rcases hc with rfl | rfl <;> decide
    rw [step_operator hmem (fun h => absurd h hslash) (by simp [signTaken, hsign]), operator, hstop]
  rw [pieces_of_step hstep]
  rfl

/-- The signs of operations. -/
def operationSigns : List String :=
  "=" :: BinaryOp.all.map BinaryOp.text ++ ["!", "++", "--"]

/-- Whether a text is made of one or two characters of operators. -/
def isShortSign : List Char → Bool
  | [c] => operatorStarts.contains c
  | [c, d] => operatorStarts.contains c && operatorTails.contains d &&
    Word.isOperator (String.ofList [c, d])
  | _ => false

lemma isShortSign_of_mem {text : String} (h : text ∈ operationSigns) :
    isShortSign text.toList = true := by
  have hall : (operationSigns.all fun text => isShortSign text.toList) = true := by decide
  exact List.all_eq_true.1 hall text h

/-- The sign of an operation, in front of a character that does not go on with it. -/
lemma pieces_operationSign {text : String} (htext : text ∈ operationSigns)
    (hrest : ∀ c ∈ rest.head?, c ∉ '/' :: '*' :: operatorTails)
    (hsign : text = "-" ∨ text = "+" → (signFolds before && startsNumber rest) = false) :
    pieces before line (text.toList ++ rest) =
      { kind := .operator, text := text.toList, line } ::
        pieces text.toList.getLast? line rest := by
  have hstop : ∀ c ∈ rest.head?, c ∉ operatorTails := fun c hc h =>
    hrest c hc (List.mem_cons_of_mem _ (List.mem_cons_of_mem _ h))
  have hshort := isShortSign_of_mem htext
  have hofList : String.ofList text.toList = text := String.ofList_toList
  generalize htoList : text.toList = cs at hshort hofList
  unfold isShortSign at hshort
  split at hshort
  next c =>
    have hc : c ∈ operatorStarts := by simpa using hshort
    have hcomment : rest.head? ≠ some '/' ∧ rest.head? ≠ some '*' := by
      constructor <;> intro hhead <;> exact hrest _ hhead (by simp)
    have htaken : signTaken before c rest = false := by
      by_cases hplus : c = '+' ∨ c = '-'
      · have hnot := hsign (by rcases hplus with rfl | rfl <;> simp [← hofList])
        rw [signTaken, Bool.and_assoc, hnot, Bool.and_false]
      · simp [signTaken, not_or.1 hplus]
    have hstep : step before c rest = { kind := some .operator, text := [c], rest } := by
      rw [step_operator hc (fun _ => hcomment) htaken, operator,
        extendOperator_stop (List.cons_ne_nil c []) hstop]
    exact pieces_of_step hstep
  next c d =>
    simp only [Bool.and_eq_true, List.contains_iff_mem] at hshort
    obtain ⟨⟨hc, hd⟩, hop⟩ := hshort
    have hplain : (operatorTails.all fun d =>
        d ≠ '/' && d ≠ '*' && !d.isDigit && d ≠ '.') = true := by decide
    have hplain := List.all_eq_true.1 hplain d hd
    simp only [Bool.and_eq_true, Bool.not_eq_true', decide_eq_true_eq] at hplain
    obtain ⟨⟨⟨hslash, hstar⟩, hdigit⟩, hpoint⟩ := hplain
    have hcomment : (d :: rest).head? ≠ some '/' ∧ (d :: rest).head? ≠ some '*' := by
      simp [hslash, hstar]
    have htaken : signTaken before c (d :: rest) = false := by
      simp [signTaken, startsNumber, hdigit, hpoint]
    have hstep : step before c (d :: rest) = { kind := some .operator, text := [c, d], rest } := by
      have hnext : extendOperator [c] (d :: rest) = extendOperator [c, d] rest := by
        rw [extendOperator]
        exact if_pos hop
      rw [step_operator hc (fun _ => hcomment) htaken, operator, hnext,
        extendOperator_stop (List.cons_ne_nil c [d]) hstop]
    exact pieces_of_step hstep
  next => cases hshort

/-! ## Texts put together -/

/-- A text in parentheses. -/
lemma Scans.parens {ss : List Spelling} (h : Scans (some '(') cs ss) :
    Scans before ('(' :: cs ++ [')']) (sign "(" :: ss ++ [sign ")"]) := by
  intro line rest hrest
  have hcs := h line (')' :: rest) (breaks_close rest)
  have happend : '(' :: cs ++ [')'] ++ rest = '(' :: (cs ++ ')' :: rest) := by simp
  rw [happend, pieces_paren (.inl rfl), hcs, pieces_paren (.inr rfl), hrest.pieces_eq]
  simp [Spelling.piece]

lemma Joint.text_mem (j : Joint) : j.text ∈ operationSigns := by
  cases j with
  | assignment => exact List.mem_cons_self
  | operator op =>
    refine List.mem_cons_of_mem _ (List.mem_append_left _ ?_)
    exact List.mem_map_of_mem op.mem_all

/-- Two operands with a joint between them. -/
lemma Scans.join {left right : List Char} {ss more : List Spelling} (hleft : Scans before left ss)
    (hright : Scans (some ' ') right more) (j : Joint) :
    Scans before (Expr.joinCode j left right) (ss ++ sign j.text :: more) := by
  intro line rest hrest
  have happend : Expr.joinCode j left right ++ rest =
      left ++ ' ' :: (j.text.toList ++ ' ' :: (right ++ rest)) := by
    simp [Expr.joinCode]
  have hjoint : pieces (some ' ') line (j.text.toList ++ ' ' :: (right ++ rest)) =
      { kind := .operator, text := j.text.toList, line } ::
        pieces j.text.toList.getLast? line (' ' :: (right ++ rest)) := by
    refine pieces_operationSign (Joint.text_mem j) ?_ fun _ => ?_
    · rintro _ ⟨⟩
      decide
    · simp [startsNumber]
  rw [happend, hleft line _ (breaks_blank _), pieces_blank, hjoint, pieces_blank,
    hright line rest hrest]
  simp [Spelling.piece]

lemma UnaryOp.text_mem (op : UnaryOp) : op.text ∈ operationSigns := by
  cases op <;> decide

/-- An operator in front of an operand that does not go on with it. -/
lemma Scans.front {ss : List Spelling} (op : UnaryOp)
    (h : ∀ c, signFolds (some c) = false → Scans (some c) (d :: cs) ss)
    (hd : d ∉ '/' :: '*' :: operatorTails)
    (hsign : op = .neg → signFolds before = false ∨ d.isDigit = false ∧ d ≠ '.') :
    Scans before (op.text.toList ++ d :: cs) (sign op.text :: ss) := by
  intro line rest hrest
  have hlast : ∃ c, op.text.toList.getLast? = some c ∧ signFolds (some c) = false := by
    cases op <;> exact ⟨_, rfl, by decide⟩
  obtain ⟨c, hc, hfolds⟩ := hlast
  have hop : pieces before line (op.text.toList ++ (d :: cs ++ rest)) =
      { kind := .operator, text := op.text.toList, line } ::
        pieces (some c) line (d :: cs ++ rest) := by
    rw [← hc]
    refine pieces_operationSign (UnaryOp.text_mem op) ?_ fun htext => ?_
    · rintro _ ⟨⟩
      exact hd
    · have hneg : op = .neg := by cases op <;> simp_all [UnaryOp.text]
      rcases hsign hneg with hbefore | ⟨hdigit, hpoint⟩
      · rw [hbefore, Bool.false_and]
      · simp [startsNumber, hdigit, hpoint]
  rw [List.append_assoc, hop, h c hfolds line rest hrest]
  rfl

/-- A name. -/
lemma IsName.pieces_eq {name : String} (h : IsName name)
    (hrest : ∀ c ∈ rest.head?, continuesWord c = false) :
    pieces before line (name.toList ++ rest) =
      Spelling.piece line (.identifier, name) :: pieces name.toList.getLast? line rest := by
  rw [pieces_word h.starts h.continues hrest, h.noKeyword]
  rfl

lemma Breaks.continuesWord (h : Breaks rest) : ∀ c ∈ rest.head?, continuesWord c = false := by
  intro c hc
  rcases h c hc with rfl | rfl <;> decide

/-- A step behind a variable. -/
lemma Scans.behind {op : UnaryOp} (hop : op.standsBehind = true) {name : String}
    (hname : IsName name) :
    Scans before (name.toList ++ op.text.toList) [(.identifier, name), sign op.text] := by
  intro line rest hrest
  have hfirst : ∀ c ∈ (op.text.toList ++ rest).head?, Scan.continuesWord c = false := by
    cases op with
    | postInc | postDec => rintro _ ⟨⟩; decide
    | neg | not | preInc | preDec => cases hop
  have hstop : ∀ c ∈ rest.head?, c ∉ '/' :: '*' :: operatorTails := by
    intro c hc
    rcases hrest c hc with rfl | rfl <;> decide
  have hsign : op.text ≠ "-" ∧ op.text ≠ "+" := by
    cases op with
    | postInc | postDec => decide
    | neg | not | preInc | preDec => cases hop
  have hpieces : ∀ before, pieces before line (op.text.toList ++ rest) =
      Spelling.piece line (sign op.text) :: pieces none line rest := by
    intro before
    rw [pieces_operationSign (UnaryOp.text_mem op) hstop fun h => absurd h (not_or.2 hsign),
      hrest.pieces_eq]
    rfl
  rw [List.append_assoc, IsName.pieces_eq hname hfirst, hpieces]
  rfl

end Scan

/-! ## The spellings of expressions -/

namespace Expr

open Scan

/-- The spellings of the text of an expression on scalars. A minus in front of a number is drawn
into it where a sign `folds`. -/
def written (wrapped folds : Bool) : Expr → List Spelling
  | .literal _ l => [(l.value.kind, l.text)]
  | .var _ name => [(.identifier, name)]
  | .binary _ op left right =>
    if wrapped && !op.isAssignment then
      sign "(" :: (left.written true false ++ sign op.text :: right.written true true) ++ [sign ")"]
    else left.written true folds ++ sign op.text :: right.written (!op.isAssignment) true
  | .unary _ op operand =>
    if op.standsBehind then operand.written true folds ++ [sign op.text]
    else if operand.startsWithSign then
      sign op.text :: (sign "(" :: operand.written true false ++ [sign ")"])
    else if op = .neg && folds && operand.isNumeral then
      (operand.written true false).map fun s => (s.1, "-" ++ s.2)
    else sign op.text :: operand.written true false
  | .assign _ target value => target.written true folds ++ sign "=" :: value.written false true
  | _ => []

/-- An unsigned integer is written in digits. -/
lemma digits_of_isUnsigned {text : String} {i : Int}
    (hl : Literal.Consistent ⟨.int i, text⟩) (hunsigned : Literal.IsUnsigned ⟨.int i, text⟩) :
    text.toList ≠ [] ∧ text.toList.all Char.isDigit = true := by
  simp only [Literal.Consistent, Number.readInt64?] at hl
  obtain ⟨hread, -⟩ := Option.filter_eq_some_iff.1 hl
  simp only [Literal.IsUnsigned] at hunsigned
  have hdigits : ∃ n, Number.readDigits? text.toList = some n := by
    cases htext : text.toList with
    | nil => simp [htext] at hunsigned
    | cons c cs =>
      have hc : c.isDigit = true := by simpa [htext] using hunsigned
      rw [htext, Number.readInt?] at hread
      · cases hdigits : Number.readDigits? (c :: cs) with
        | none =>
          rw [hdigits] at hread
          cases hread
        | some n => exact ⟨n, rfl⟩
      · rintro _ ⟨⟩
        exact absurd hc (by decide)
      · rintro _ ⟨⟩
        exact absurd hc (by decide)
  obtain ⟨n, hn⟩ := hdigits
  rw [Number.readDigits?, Option.ite_none_right_eq_some] at hn
  simpa using hn.1

lemma scans_literal {l : Literal} (hl : l.Consistent) (hunsigned : l.IsUnsigned)
    (before : Option Char) : Scans before l.text.toList [(l.value.kind, l.text)] := by
  obtain ⟨value, text⟩ := l
  intro line rest hrest
  cases value with
  | int i =>
    obtain ⟨hne, hdigits⟩ := digits_of_isUnsigned hl hunsigned
    exact pieces_number hne hdigits hrest
  | boolean b =>
    obtain rfl : text = if b then "true" else "false" := hl
    cases b with
    | true =>
      rw [if_pos rfl, pieces_word (by decide) (by decide) hrest.continuesWord, hrest.pieces_eq]
      rfl
    | false =>
      rw [if_neg (by decide), pieces_word (by decide) (by decide) hrest.continuesWord,
        hrest.pieces_eq]
      rfl
  | float _ | double _ | char _ | string _ | null => exact hunsigned.elim

/-- The text of a number with a minus in front. -/
lemma scans_negated {e : Expr} (he : e.IsScalar) (hnumeral : e.isNumeral = true)
    {before : Option Char} (hbefore : signFolds before = true) :
    Scans before ('-' :: e.code true)
      ((e.written true false).map fun s => (s.1, "-" ++ s.2)) := by
  unfold isNumeral at hnumeral
  split at hnumeral
  next i text =>
    obtain ⟨hne, hdigits⟩ := digits_of_isUnsigned he.1 he.2
    intro line rest hrest
    have hpieces : pieces before line ('-' :: text.toList ++ rest) =
        { kind := .number, text := '-' :: text.toList, line } :: pieces none line rest :=
      pieces_signedNumber hbefore hne hdigits hrest
    simpa [code, written, Spelling.piece, Literal.Value.kind] using hpieces
  next => cases hnumeral

/-- The text of an expression does not go on with an operator in front of it, unless it starts with
a sign. -/
lemma Leads.not_mem_tails {e : Expr} {c : Char} (h : e.Leads c) (he : e.startsWithSign = false) :
    c ∉ '/' :: '*' :: operatorTails := by
  have hall : (('/' :: '*' :: operatorTails).all fun c =>
      !c.isDigit && c ≠ '(' && c ≠ '!' && !startsWord c) = true := by decide
  intro hmem
  have hnot := List.all_eq_true.1 hall c hmem
  simp only [Bool.and_eq_true, Bool.not_eq_true', decide_eq_true_eq] at hnot
  obtain ⟨⟨⟨hdigit, hparen⟩, hmark⟩, hword⟩ := hnot
  cases h with
  | sign he' _ =>
    rw [he] at he'
    cases he'
  | digit _ hc =>
    rw [hdigit] at hc
    cases hc
  | other _ _ hc =>
    rcases hc with rfl | rfl | hc
    · exact hparen rfl
    · exact hmark rfl
    · rw [hword] at hc
      cases hc

/-- Only the text of an integer starts a number. -/
lemma Leads.not_startsNumber {e : Expr} {c : Char} (h : e.Leads c) (he : e.startsWithSign = false)
    (he' : e.isNumeral = false) : c.isDigit = false ∧ c ≠ '.' := by
  cases h with
  | sign hsign _ =>
    rw [he] at hsign
    cases hsign
  | digit hnumeral _ =>
    rw [he'] at hnumeral
    cases hnumeral
  | other _ _ hc =>
    rcases hc with rfl | rfl | hc
    · decide
    · decide
    · constructor
      · rw [← Bool.not_eq_true]
        intro hdigit
        rw [startsWord_of_isDigit hdigit] at hc
        cases hc
      · rintro rfl
        exact absurd hc (by decide)

/-- An operator in front of an operand on scalars. -/
lemma scans_prefix {e : Expr} (he : e.IsScalar)
    (h : ∀ before, Scans before (e.code true) (e.written true (signFolds before))) {op : UnaryOp}
    (hop : op.standsBehind = false) (line : Nat) (before : Option Char) :
    Scans before ((Expr.unary line op e).code true)
      ((Expr.unary line op e).written true (signFolds before)) := by
  obtain ⟨c, more, htext, hc⟩ := exists_leads he
  simp only [code, written, unaryCode, hop, Bool.false_eq_true, if_false]
  cases hguard : e.startsWithSign with
  | true =>
    rw [if_pos rfl, if_pos rfl, List.append_assoc, List.cons_append]
    refine Scans.front op (fun _ _ => (h (some '(')).parens) (by decide) fun _ => .inr ?_
    decide
  | false =>
    rw [if_neg (by decide), if_neg (by decide)]
    by_cases hfold : (op = .neg && signFolds before && e.isNumeral) = true
    · rw [if_pos hfold]
      simp only [Bool.and_eq_true, decide_eq_true_eq] at hfold
      obtain ⟨⟨rfl, hbefore⟩, hnumeral⟩ := hfold
      exact scans_negated he hnumeral hbefore
    · rw [if_neg hfold]
      rw [htext] at h ⊢
      refine Scans.front op (fun d hd => hd ▸ h (some d)) ?_ fun hneg => ?_
      · exact hc.not_mem_tails hguard
      · cases hnumeral : e.isNumeral with
        | true =>
          refine .inl ?_
          simpa [hneg, hnumeral] using hfold
        | false => exact .inr (hc.not_startsNumber hguard hnumeral)

/-- The text of an expression on scalars is scanned into its spellings. -/
theorem scans_code : (e : Expr) → e.IsScalar → ∀ (wrapped : Bool) (before : Option Char),
    Scans before (e.code wrapped) (e.written wrapped (signFolds before))
  | .literal _ l, ⟨hl, hunsigned⟩, _, before => scans_literal hl hunsigned before
  | .var _ name, hname, _, before => fun line rest hrest => by
    simp only [code, written]
    rw [IsName.pieces_eq hname hrest.continuesWord, hrest.pieces_eq]
    rfl
  | .binary line op left right, ⟨_, hleft, hright⟩, wrapped, before => by
    have hl := scans_code left hleft true
    have hr := fun wrapped => scans_code right hright wrapped (some ' ')
    simp only [code, written]
    cases hop : wrapped && !op.isAssignment with
    | true =>
      obtain ⟨-, hop⟩ := Bool.and_eq_true_iff.1 hop
      rw [if_pos rfl, if_pos rfl, hop]
      exact ((hl (some '(')).join (hr true) (.operator op)).parens
    | false =>
      rw [if_neg (by decide), if_neg (by decide)]
      exact (hl before).join (hr _) (.operator op)
  | .unary line op operand, ⟨hvar, hoperand⟩, wrapped, before => by
    cases hop : op.standsBehind with
    | true =>
      have hvar := hvar hop
      cases operand with
      | var line' name =>
        simp only [code, written, unaryCode, hop, if_true]
        exact Scans.behind hop hoperand
      | _ => cases hvar
    | false => exact scans_prefix hoperand (scans_code operand hoperand true) hop line before
  | .assign _ target value, ⟨_, htarget, hvalue⟩, _, before =>
    (scans_code target htarget true before).join (scans_code value hvalue false (some ' '))
      .assignment

/-- The tokens of the text of an expression on scalars spell it. -/
theorem spellings_tokenize {e : Expr} (he : e.IsScalar) (wrapped : Bool) :
    (tokenize (String.ofList (e.code wrapped))).map Token.spelling = e.written wrapped true := by
  have hpieces := map_piece_tokens .empty (String.ofList (e.code wrapped))
  have hscans := scans_code e he wrapped none 1 [] (fun _ h => by cases h)
  rw [List.append_nil] at hscans
  rw [String.toList_ofList, hscans, pieces, List.append_nil] at hpieces
  have hspelling : ∀ t : Token, t.spelling = (t.piece.kind, String.ofList t.piece.text) := by
    intro t
    simp [Token.spelling, Token.piece]
  have hmap := congrArg (List.map fun p : Piece => (p.kind, String.ofList p.text)) hpieces
  rw [List.map_map, List.map_map] at hmap
  refine (List.map_congr_left fun t _ => hspelling t).trans (hmap.trans ?_)
  refine (List.map_congr_left fun s _ => ?_).trans (List.map_id _)
  simp [Spelling.piece]

end Expr

end ClassLang
