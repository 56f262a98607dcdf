import ClassLang.Proofs.Token.Steps

set_option autoImplicit false

/-!
# Taking back a sign

The scanner decides at a sign whether the number behind it takes the sign in. It may as well emit
every sign as an operator, and take it back once the number is met, by looking at the lexeme emitted
last and at the characters passed so far. Both ways give the same lexemes: whenever a sign is taken
back, the operator that is dropped is this very sign, and nothing stands between it and the number.

## Main definitions

* `ClassLang.Scan.Head` — a scanner with the lexemes that it has emitted and the characters that it
  has passed.
* `ClassLang.Scan.Head.sign?` — the sign that the next number takes back.
* `ClassLang.Scan.Head.scan` — scanning with retraction.
* `ClassLang.Scan.Head.lexemes` — what a scanner will have emitted in the end.

## Main results

* `ClassLang.Scan.Head.scan_eq_pieces` — scanning with retraction gives the lexemes of the text.
-/

namespace ClassLang.Scan

/-! ## The kinds of lexemes -/

private lemma withSuffix_kind_ne (isFloat : Bool) (text cs : List Char) :
    (withSuffix isFloat text cs).kind ≠ some .operator := by
  cases cs with
  | nil => cases isFloat <;> simp [withSuffix]
  | cons c cs =>
    rw [withSuffix]
    split
    · simp
    · cases isFloat <;> simp

/-- A number is no operator. -/
lemma number_kind_ne (cs : List Char) : (number cs).kind ≠ some .operator := by
  rw [number]
  split
  · simp
  · unfold withExponent
    split
    · exact withSuffix_kind_ne _ _ _
    · split
      · dsimp only
        split
        · simp
        · exact withSuffix_kind_ne _ _ _
      · exact withSuffix_kind_ne _ _ _

/-! ## Steps that leave signs alone -/

/-- The piece at the front of the text `c :: cs` if no number takes in a sign. -/
def unsignedStep (c : Char) (cs : List Char) : Step :=
  if Text.isBlank c then
    { kind := none, text := [c], rest := cs, newlines := lineFeeds c }
  else if startsWord c then word (c :: cs)
  else if startsNumber (c :: cs) then number (c :: cs)
  else if c = '"' then stringLiteral cs
  else if c = '\'' then charLiteral cs
  else if c = '/' && cs.head? = some '/' then lineComment cs.tail
  else if c = '/' && cs.head? = some '*' then blockComment cs.tail
  else if Word.isOperator (String.ofList [c]) then operator c cs
  else { kind := some .error, text := [c], rest := cs }

/-- Whether a number takes in the sign at the front of a text. -/
def signTaken (before : Option Char) (c : Char) (cs : List Char) : Bool :=
  (c = '+' || c = '-') && signFolds before && startsNumber cs

variable {before : Option Char} {c : Char} {cs : List Char}

lemma step_of_not_signTaken (h : signTaken before c cs = false) :
    step before c cs = unsignedStep c cs := by
  rw [signTaken] at h
  simp only [step, unsignedStep, h, Bool.false_eq_true, if_false]

/-- No number takes in a sign behind a letter. -/
lemma unsignedStep_eq_step (c : Char) (cs : List Char) :
    unsignedStep c cs = step (some 'a') c cs := by
  have hletter : signFolds (some 'a') = false := by decide
  refine (step_of_not_signTaken ?_).symm
  simp only [signTaken, hletter, Bool.and_false, Bool.false_and]

/-- A sign is neither blank nor does it start another lexeme than an operator. -/
private lemma sign_starts_nothing (hc : c = '+' ∨ c = '-') (cs : List Char) :
    Text.isBlank c = false ∧ startsWord c = false ∧ startsNumber (c :: cs) = false ∧ c ≠ '"' ∧
      c ≠ '\'' ∧ c ≠ '/' ∧ Word.isOperator (String.ofList [c]) = true := by
  rcases hc with rfl | rfl <;> refine ⟨?_, ?_, ?_, ?_, ?_, ?_, ?_⟩ <;>
    first | decide | simp [startsNumber]

lemma step_of_signTaken (h : signTaken before c cs = true) :
    step before c cs = signedNumber c cs := by
  rw [signTaken] at h
  have hsign : c = '+' ∨ c = '-' := by
    simp only [Bool.and_eq_true, Bool.or_eq_true, decide_eq_true_eq] at h
    exact h.1.1
  obtain ⟨hblank, hword, hnumber, hstring, hchar, hslash, -⟩ := sign_starts_nothing hsign cs
  simp only [step, hblank, hword, hnumber, hstring, hchar, hslash, h, decide_false, Bool.false_and,
    Bool.false_eq_true, if_false, if_true]

/-- A sign in front of a number is an operator on its own. -/
lemma unsignedStep_of_signTaken (h : signTaken before c cs = true) :
    unsignedStep c cs = { kind := some .operator, text := [c], rest := cs } := by
  simp only [signTaken, Bool.and_eq_true, Bool.or_eq_true, decide_eq_true_eq] at h
  obtain ⟨⟨hsign, -⟩, hcs⟩ := h
  obtain ⟨hblank, hword, hnumber, hstring, hchar, hslash, hop⟩ := sign_starts_nothing hsign cs
  have hshort : extendOperator [c] cs = ([c], cs) := by
    cases cs with
    | nil => rfl
    | cons d cs =>
      have htwo : ∀ op ∈ Word.operators, op.toList.length = 2 →
          (op.toList.all fun x => !x.isDigit && x ≠ '.') = true := by decide
      have hnot : Word.isOperator (String.ofList ([c] ++ [d])) = false := by
        rw [← Bool.not_eq_true, Word.isOperator, List.contains_iff_mem]
        intro hmem
        have hd := List.all_eq_true.1 (htwo _ hmem (by simp)) d (by simp)
        simp only [Bool.and_eq_true, Bool.not_eq_true', decide_eq_true_eq] at hd
        simp [startsNumber, hd] at hcs
      rw [extendOperator, if_neg (by rw [hnot]; decide)]
  simp only [unsignedStep, hblank, hword, hnumber, hstring, hchar, hslash, hop, operator, hshort,
    decide_false, Bool.false_and, Bool.false_eq_true, if_false, if_true]

/-- No digit starts a word. -/
lemma startsWord_of_isDigit {d : Char} (h : d.isDigit = true) : startsWord d = false := by
  obtain ⟨hlow, hhigh⟩ := Char.isDigit_iff_toNat.1 h
  change 48 ≤ d.val.toNat at hlow
  change d.val.toNat ≤ 57 at hhigh
  have halpha : d.isAlpha = false := by
    change (decide ('A'.val ≤ d.val ∧ d.val ≤ 'Z'.val) ||
      decide ('a'.val ≤ d.val) && decide (d.val ≤ 'z'.val)) = false
    simp only [Bool.or_eq_false_iff, Bool.and_eq_false_iff, decide_eq_false_iff_not,
      UInt32.le_iff_toNat_le, Char.reduceVal, UInt32.reduceToNat]
    omega
  have hne : d ≠ '_' := by
    rintro rfl
    exact absurd h (by decide)
  simp [startsWord, halpha, hne]

/-- A number at the front of a text is taken by a step. -/
lemma unsignedStep_of_startsNumber (h : startsNumber (c :: cs) = true) :
    unsignedStep c cs = number (c :: cs) := by
  have hfirst : c.isDigit = true ∨ c = '.' := by
    simp only [startsNumber, Bool.or_eq_true, Bool.and_eq_true, decide_eq_true_eq] at h
    exact h.imp_right And.left
  have hblank : Text.isBlank c = false := by
    rw [← Bool.not_eq_true]
    intro hblank
    simp only [Text.isBlank, Bool.or_eq_true, decide_eq_true_eq] at hblank
    rcases hblank with (((rfl | rfl) | rfl) | rfl) | rfl <;> exact absurd hfirst (by decide)
  have hword : startsWord c = false := by
    rcases hfirst with hdigit | rfl
    · exact startsWord_of_isDigit hdigit
    · decide
  simp only [unsignedStep, hblank, hword, h, Bool.false_eq_true, if_false, if_true]

/-! ## Scanning with retraction -/

/-- A scanner in the middle of a text. -/
structure Head where
  /-- The lexemes emitted so far, the last one first. -/
  emitted : List Piece := []
  /-- The characters passed so far, the last one first. -/
  passed : List Char := []
  ahead : List Char
  line : Nat := 1

namespace Head

/-- The sign that a number would take back: the character passed last, if it was emitted as an
operator of its own and stands at the start of the text, after a blank or after `=`. -/
def sign? (h : Head) : Option Char :=
  match h.passed, h.emitted with
  | sign :: further, p :: _ =>
    if (sign = '+' || sign = '-') && signFolds further.head? && p.kind = .operator &&
      p.text = [sign] then some sign else none
  | _, _ => none

/-- Emits the lexeme of a step. A number takes back the sign before it. -/
def emit (h : Head) (isNumber : Bool) (s : Step) : List Piece :=
  match s.kind with
  | none => h.emitted
  | some kind =>
    match if isNumber then h.sign? else none with
    | some sign => { kind, text := sign :: s.text, line := h.line } :: h.emitted.tail
    | none => { kind, text := s.text, line := h.line } :: h.emitted

/-- Goes on behind the piece at the front of the text `c :: cs`. -/
def advance (h : Head) (c : Char) (cs : List Char) : Head :=
  let s := unsignedStep c cs
  { emitted := h.emit (startsNumber (c :: cs)) s
    passed := s.text.reverse ++ h.passed
    ahead := s.rest
    line := h.line + s.newlines }

/-- The lexemes emitted in the end. -/
def scan (h : Head) : List Piece :=
  match _hahead : h.ahead with
  | [] => h.emitted.reverse
  | c :: cs => (h.advance c cs).scan
termination_by h.ahead.length
decreasing_by
  rw [_hahead]
  exact (congrArg (fun s => s.rest.length) (unsignedStep_eq_step c cs)).trans_lt
    (step_rest_length_lt _ c cs)

/-! ## The same lexemes -/

/-- The sign that was passed last is the lexeme `p` that was emitted last, and stands where a number
takes in a sign. -/
structure TakesBack (h : Head) (sign : Char) (further : List Char) (p : Piece) : Prop where
  passed : h.passed = sign :: further
  emitted : h.emitted.head? = some p
  isSign : sign = '+' ∨ sign = '-'
  folds : signFolds further.head? = true
  kind : p.kind = .operator
  text : p.text = [sign]

private lemma sign?_eq_some_iff {h : Head} {sign : Char} :
    h.sign? = some sign ↔ ∃ further p, h.TakesBack sign further p := by
  obtain ⟨emitted, passed, ahead, line⟩ := h
  constructor
  · intro hsign
    simp only [sign?] at hsign
    split at hsign
    next d further p es =>
      simp only [Option.ite_none_right_eq_some, Option.some.injEq, Bool.and_eq_true,
        Bool.or_eq_true, decide_eq_true_eq] at hsign
      obtain ⟨⟨⟨⟨hsign, hfolds⟩, hkind⟩, htext⟩, rfl⟩ := hsign
      exact ⟨further, p, rfl, rfl, hsign, hfolds, hkind, htext⟩
    next => cases hsign
  · rintro ⟨further, p, hpassed, hemitted, hsign, hfolds, hkind, htext⟩
    obtain ⟨es, rfl⟩ := List.head?_eq_some_iff.1 hemitted
    obtain rfl : passed = sign :: further := hpassed
    simp [sign?, hsign, hfolds, hkind, htext]

/-- No number at the front of the text takes back a sign. -/
def Settled (h : Head) : Prop :=
  startsNumber h.ahead = true → h.sign? = none

variable {h : Head}

private lemma settled_of_forall_not
    (hnot : ∀ sign further p, startsNumber h.ahead = true → ¬ h.TakesBack sign further p) :
    h.Settled := by
  intro hnumber
  rw [← Option.not_isSome_iff_eq_none, Option.isSome_iff_exists]
  rintro ⟨sign, hsign⟩
  obtain ⟨further, p, hback⟩ := sign?_eq_some_iff.1 hsign
  exact hnot sign further p hnumber hback

/-- A scanner that takes nothing back emits the lexeme of a step as it is. -/
private lemma emitted_advance (hahead : h.ahead = c :: cs) (hsettled : h.Settled) :
    (h.advance c cs).emitted =
      match (unsignedStep c cs).kind with
      | none => h.emitted
      | some kind =>
        { kind, text := (unsignedStep c cs).text, line := h.line } :: h.emitted := by
  rw [Settled, hahead] at hsettled
  simp only [advance, emit]
  cases (unsignedStep c cs).kind with
  | none => rfl
  | some kind =>
    cases hnumber : startsNumber (c :: cs) with
    | false => rfl
    | true => simp only [hsettled hnumber, if_true]

private lemma passed_advance (h : Head) (c : Char) (cs : List Char) :
    (h.advance c cs).passed.head? = (unsignedStep c cs).text.getLast? := by
  have hne : (unsignedStep c cs).text ≠ [] := by
    rw [unsignedStep_eq_step]
    exact step_text_ne_nil _ c cs
  simp only [advance]
  rw [List.head?_append, List.head?_reverse, List.getLast?_eq_some_getLast hne]
  rfl

/-- A gap that ends with a sign is a comment, which a number does not follow. -/
private lemma gapItem_last {rest item : List Char} (hitem : GapItem rest item)
    (hnumber : startsNumber rest = true) {sign : Char} (hlast : item.getLast? = some sign) :
    ¬ (sign = '+' ∨ sign = '-') := by
  cases hitem with
  | blank hc =>
    obtain rfl := Option.some.inj hlast
    rintro (rfl | rfl) <;> exact absurd hc (by decide)
  | lineComment hbody hend =>
    cases rest with
    | nil => exact absurd hnumber (by decide)
    | cons d rest =>
      obtain rfl : d = '\n' := hend d rfl
      simp [startsNumber] at hnumber
  | blockComment hfirst =>
    rename_i body
    have hslash : '/' :: '*' :: (body ++ ['*', '/']) = ('/' :: '*' :: body ++ ['*']) ++ ['/'] := by
      simp
    rw [hslash, List.getLast?_concat] at hlast
    obtain rfl := Option.some.inj hlast
    decide
  | openComment hbody hend =>
    subst hend
    exact absurd hnumber (by decide)

private lemma settled_of_gap (hkind : (unsignedStep c cs).kind = none) :
    (h.advance c cs).Settled := by
  refine settled_of_forall_not fun sign further p hnumber hback => ?_
  have hlast := passed_advance h c cs
  rw [hback.passed] at hlast
  change startsNumber (unsignedStep c cs).rest = true at hnumber
  rw [unsignedStep_eq_step] at hkind hlast hnumber
  exact gapItem_last (gapItem_of_kind_eq_none hkind).1 hnumber hlast.symm hback.isSign

/-- A scanner that takes nothing back goes on to do so, unless it has just passed a sign that a
number takes in. -/
private lemma settled_advance (hahead : h.ahead = c :: cs) (hsettled : h.Settled)
    (hnot : signTaken h.passed.head? c cs = false) : (h.advance c cs).Settled := by
  cases hkind : (unsignedStep c cs).kind with
  | none => exact settled_of_gap hkind
  | some kind =>
    refine settled_of_forall_not fun sign further p hnumber hback => ?_
    obtain ⟨hpassed, hemitted, hsign, hfolds, -, htext⟩ := hback
    rw [emitted_advance hahead hsettled, hkind] at hemitted
    obtain rfl := Option.some.inj hemitted
    change (unsignedStep c cs).text = [sign] at htext
    have happend := step_text_append_rest (some 'a') c cs
    rw [← unsignedStep_eq_step, htext] at happend
    obtain ⟨rfl, hrest⟩ := List.cons.inj happend
    simp only [advance, htext, List.reverse_singleton, List.singleton_append] at hpassed
    obtain ⟨-, rfl⟩ := List.cons.inj hpassed
    change startsNumber (unsignedStep sign cs).rest = true at hnumber
    rw [show (unsignedStep sign cs).rest = cs from hrest] at hnumber
    have htaken : signTaken h.passed.head? sign cs = true := by
      simp [signTaken, hsign, hfolds, hnumber]
    rw [hnot] at htaken
    exact Bool.noConfusion htaken

/-- The lexemes emitted, followed by those of the text ahead. -/
def lexemes (h : Head) : List Piece :=
  h.emitted.reverse ++ pieces h.passed.head? h.line h.ahead

/-- A step changes nothing about the lexemes, unless it passes a sign that a number takes in. -/
private lemma lexemes_advance (hahead : h.ahead = c :: cs) (hsettled : h.Settled)
    (hnot : signTaken h.passed.head? c cs = false) : (h.advance c cs).lexemes = h.lexemes := by
  rw [lexemes, lexemes, emitted_advance hahead hsettled, passed_advance, hahead, pieces,
    step_of_not_signTaken hnot]
  simp only [advance]
  cases (unsignedStep c cs).kind with
  | none => rfl
  | some kind => simp

/-! ### Steps at a sign that a number takes in -/

/-- The sign is emitted as an operator first. -/
private lemma advance_of_signTaken (htaken : signTaken h.passed.head? c cs = true) :
    h.advance c cs =
      { emitted := { kind := .operator, text := [c], line := h.line } :: h.emitted
        passed := c :: h.passed
        ahead := cs
        line := h.line } := by
  have hsign : startsNumber (c :: cs) = false := by
    simp only [signTaken, Bool.and_eq_true, Bool.or_eq_true, decide_eq_true_eq] at htaken
    exact (sign_starts_nothing htaken.1.1 cs).2.2.1
  simp [advance, emit, unsignedStep_of_signTaken htaken, hsign]

variable {d : Char} {kind : Kind}

/-- The number then takes it back. -/
private lemma advance_advance_of_signTaken
    (htaken : signTaken h.passed.head? c (d :: cs) = true)
    (hkind : (number (d :: cs)).kind = some kind) :
    (h.advance c (d :: cs)).advance d cs =
      { emitted := { kind, text := c :: (number (d :: cs)).text, line := h.line } :: h.emitted
        passed := (number (d :: cs)).text.reverse ++ c :: h.passed
        ahead := (number (d :: cs)).rest
        line := h.line + (number (d :: cs)).newlines } := by
  have hfirst := advance_of_signTaken htaken
  simp only [signTaken, Bool.and_eq_true, Bool.or_eq_true, decide_eq_true_eq] at htaken
  obtain ⟨⟨hsign, hfolds⟩, hnumber⟩ := htaken
  have hback : (h.advance c (d :: cs)).sign? = some c := by
    rw [hfirst]
    exact sign?_eq_some_iff.2 ⟨h.passed, _, rfl, rfl, hsign, hfolds, rfl, rfl⟩
  rw [hfirst] at hback ⊢
  simp only [advance, emit, unsignedStep_of_startsNumber hnumber, hkind, hnumber, hback, if_true,
    List.tail_cons]

/-- The number emitted last is no operator, so nothing more is taken back. -/
private lemma settled_advance_advance (htaken : signTaken h.passed.head? c (d :: cs) = true)
    (hkind : (number (d :: cs)).kind = some kind) :
    ((h.advance c (d :: cs)).advance d cs).Settled := by
  refine settled_of_forall_not fun sign further p _ hback => ?_
  have hemitted := hback.emitted
  rw [advance_advance_of_signTaken htaken hkind] at hemitted
  obtain rfl := Option.some.inj hemitted
  exact number_kind_ne (d :: cs) (hkind.trans (congrArg some hback.kind))

/-- Both steps together change nothing about the lexemes. -/
private lemma lexemes_advance_advance (hahead : h.ahead = c :: d :: cs)
    (htaken : signTaken h.passed.head? c (d :: cs) = true)
    (hkind : (number (d :: cs)).kind = some kind) :
    ((h.advance c (d :: cs)).advance d cs).lexemes = h.lexemes := by
  have hlast : ((number (d :: cs)).text.reverse ++ c :: h.passed).head? =
      (c :: (number (d :: cs)).text).getLast? := by
    rw [List.head?_append, List.head?_reverse, List.getLast?_cons]
    cases (number (d :: cs)).text.getLast? <;> rfl
  rw [lexemes, lexemes, advance_advance_of_signTaken htaken hkind, hahead, pieces,
    step_of_signTaken htaken]
  simp [signedNumber, hkind, hlast]

/-! ### The whole run -/

private lemma scan_of_ahead (hahead : h.ahead = c :: cs) : h.scan = (h.advance c cs).scan := by
  obtain ⟨emitted, passed, ahead, line⟩ := h
  subst hahead
  rw [scan]

private lemma length_ahead_advance (hahead : h.ahead = c :: cs) :
    (h.advance c cs).ahead.length < h.ahead.length := by
  simp only [hahead, advance, unsignedStep_eq_step]
  exact step_rest_length_lt _ c cs

/-- Scanning with retraction adds the lexemes of the text ahead to those emitted before.

**Proof sketch.** Induction on the length of the text ahead. Where a number takes in a sign, two
steps are taken at once, since the lexemes are not the right ones between them. -/
lemma scan_eq (hsettled : h.Settled) : h.scan = h.lexemes := by
  induction hlength : h.ahead.length using Nat.strong_induction_on generalizing h with
  | _ n ih =>
    subst hlength
    cases hahead : h.ahead with
    | nil =>
      obtain ⟨emitted, passed, ahead, line⟩ := h
      subst hahead
      rw [scan, lexemes, pieces, List.append_nil]
    | cons c cs =>
      have hshort := length_ahead_advance hahead
      rw [scan_of_ahead hahead]
      cases htaken : signTaken h.passed.head? c cs with
      | false =>
        rw [← lexemes_advance hahead hsettled htaken]
        exact ih _ hshort (settled_advance hahead hsettled htaken) rfl
      | true =>
        have hnumber : startsNumber cs = true := by
          simp only [signTaken, Bool.and_eq_true] at htaken
          exact htaken.2
        cases cs with
        | nil => exact absurd hnumber (by decide)
        | cons d cs =>
          obtain ⟨kind, hkind⟩ := Option.isSome_iff_exists.1 (oneLine_number (d :: cs)).kind
          have hahead' : (h.advance c (d :: cs)).ahead = d :: cs := by
            rw [advance_of_signTaken htaken]
          have hshort' := (length_ahead_advance hahead').trans hshort
          rw [scan_of_ahead hahead', ← lexemes_advance_advance hahead htaken hkind]
          exact ih _ hshort' (settled_advance_advance htaken hkind) rfl

/-- Scanning with retraction gives the lexemes of the text. -/
theorem scan_eq_pieces (source : List Char) :
    scan { ahead := source } = pieces none 1 source :=
  scan_eq fun _ => rfl

end Head

end ClassLang.Scan
