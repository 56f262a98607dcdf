import ClassLang.Token.Scan
import Mathlib.Data.List.Infix
import Mathlib.Data.List.TakeWhile

set_option autoImplicit false

/-!
# What a step of the scanner takes

A step takes a blank, a comment or a lexeme. Comments are described by where they end. Lexemes are
of three sorts as far as lines are concerned: string literals, character literals, and all others,
which are without line feeds. This is all that the tiling of a text and the lines of its tokens
depend on.

## Main definitions

* `ClassLang.Scan.GapItem` — the blanks and comments that may stand in front of a text.
* `ClassLang.Scan.hiddenFeeds` — the line feeds of a lexeme that do not count.
* `ClassLang.Scan.Taken` — what a step takes.

## Main results

* `ClassLang.Scan.taken_step` — every step takes something of these sorts.
* `ClassLang.Scan.newlines_add_hiddenFeeds` — a step counts all line feeds but the hidden ones.
-/

namespace ClassLang.Scan

/-! ## Blanks and comments -/

/-- A blank, or a comment, in front of the text `rest`. A line comment ends before a line feed or at
the end of the text; a block comment ends with the first star and slash behind its start, or at the
end of the text. -/
inductive GapItem (rest : List Char) : List Char → Prop
  | blank {c : Char} (hc : c ∈ [' ', '\t', '\n', '\r', '\x0c']) : GapItem rest [c]
  | lineComment {body : List Char} (hbody : '\n' ∉ body) (hend : ∀ c ∈ rest.head?, c = '\n') :
      GapItem rest ('/' :: '/' :: body)
  | blockComment {body : List Char} (hfirst : ¬ ['*', '/'] <:+: body ++ ['*']) :
      GapItem rest ('/' :: '*' :: (body ++ ['*', '/']))
  | openComment {body : List Char} (hbody : ¬ ['*', '/'] <:+: body) (hend : rest = []) :
      GapItem rest ('/' :: '*' :: body)

lemma count_cons_eq_lineFeeds (c : Char) (cs : List Char) :
    (c :: cs).count '\n' = lineFeeds c + cs.count '\n' := by
  rw [List.count_cons, lineFeeds, Nat.add_comm]
  simp only [beq_iff_eq]

lemma gapItem_blank {c : Char} (hc : Text.isBlank c = true) (rest : List Char) :
    GapItem rest [c] := by
  refine .blank ?_
  simpa [Text.isBlank, or_assoc] using hc

lemma gapItem_lineComment (cs : List Char) :
    GapItem (lineComment cs).rest (lineComment cs).text := by
  refine .lineComment (fun hfeed => ?_) fun c hc => ?_
  · simpa using List.mem_takeWhile_imp hfeed
  · have hhead := List.head?_dropWhile_not (· ≠ '\n') cs
    simp only [lineComment] at hc
    rw [Option.mem_def.1 hc] at hhead
    simpa using hhead

lemma newlines_lineComment (cs : List Char) :
    (lineComment cs).newlines = (lineComment cs).text.count '\n' := by
  refine (List.count_eq_zero.2 ?_).symm
  simp only [lineComment, List.mem_cons, not_or]
  refine ⟨by decide, by decide, fun hfeed => ?_⟩
  simpa using List.mem_takeWhile_imp hfeed

/-- The rest of a block comment starts where it should. -/
private lemma commentBody_text_head? (cs : List Char) :
    (commentBody cs).text.head? = cs.head? := by
  unfold commentBody
  split
  · rfl
  · rfl
  · split <;> rfl

/-- Where the rest of a block comment ends. -/
private lemma commentBody_spec (cs : List Char) :
    (∃ body, (commentBody cs).text = body ++ ['*', '/'] ∧ ¬ ['*', '/'] <:+: body ++ ['*']) ∨
      (¬ ['*', '/'] <:+: (commentBody cs).text ∧ (commentBody cs).rest = []) := by
  fun_induction commentBody cs with
  | case1 => exact .inr ⟨by decide, rfl⟩
  | case2 c =>
    refine .inr ⟨fun hend => ?_, rfl⟩
    simpa using hend.length_le
  | case3 c d cs hend =>
    simp only [Bool.and_eq_true, decide_eq_true_eq] at hend
    exact .inl ⟨[], by simp [hend], by decide⟩
  | case4 c d cs hend ih =>
    have hhead := commentBody_text_head? (d :: cs)
    -- The star and slash that end the comment do not stand at its first character.
    have hfront : ∀ text : List Char, text.head? = some d → ¬ ['*', '/'] <+: c :: text := by
      intro text htext hpair
      obtain ⟨hc, hd⟩ := List.cons_prefix_cons.1 hpair
      cases text with
      | nil => simp at htext
      | cons x text =>
        obtain rfl : x = d := by simpa using htext
        simp [← hc, ← (List.cons_prefix_cons.1 hd).1] at hend
    rcases ih with ⟨body, htext, hfirst⟩ | ⟨hnone, hrest⟩
    · refine .inl ⟨c :: body, by simp [Quoted.append, htext], ?_⟩
      rw [List.cons_append, List.infix_cons_iff, not_or]
      refine ⟨?_, hfirst⟩
      cases body with
      | nil => simp [List.cons_prefix_cons]
      | cons x body =>
        rw [htext] at hhead
        exact hfront _ hhead
    · refine .inr ⟨?_, hrest⟩
      simp only [Quoted.append, List.singleton_append]
      rw [List.infix_cons_iff, not_or]
      exact ⟨hfront _ hhead, hnone⟩

lemma gapItem_blockComment (cs : List Char) :
    GapItem (blockComment cs).rest (blockComment cs).text := by
  rcases commentBody_spec cs with ⟨body, htext, hfirst⟩ | ⟨hnone, hrest⟩
  · simp only [blockComment, htext]
    exact .blockComment hfirst
  · exact .openComment hnone hrest

lemma newlines_blockComment (cs : List Char) :
    (blockComment cs).newlines = (blockComment cs).text.count '\n' := by
  have hbody : (commentBody cs).newlines = (commentBody cs).text.count '\n' := by
    fun_induction commentBody cs with
    | case1 => rfl
    | case2 c => exact (count_cons_eq_lineFeeds c []).symm
    | case3 c d cs hend =>
      simp only [Bool.and_eq_true, decide_eq_true_eq] at hend
      simp [hend]
    | case4 c d cs hend ih =>
      simp [Quoted.append, ih, count_cons_eq_lineFeeds]
  simp [blockComment, hbody]

/-! ## Lexemes on one line -/

/-- A lexeme without line feeds. -/
structure OneLine (s : Step) : Prop where
  kind : s.kind.isSome = true
  text : '\n' ∉ s.text
  newlines : s.newlines = 0

lemma oneLine_word (cs : List Char) : OneLine (word cs) where
  kind := by
    simp only [word]
    split <;> rfl
  text := fun hfeed => absurd (List.mem_takeWhile_imp hfeed) (by decide)
  newlines := rfl

private lemma feed_not_mem_mantissa (hasPoint : Bool) (cs : List Char) :
    '\n' ∉ (mantissa hasPoint cs).text := by
  fun_induction mantissa hasPoint cs with
  | case1 | case2 | case5 => simp
  | case3 hasPoint cs hpoint ih => simpa [Mantissa.cons] using ih
  | case4 hasPoint c cs hc hdigit ih =>
    have hne : '\n' ≠ c := by
      rintro rfl
      exact absurd hdigit (by decide)
    simpa [Mantissa.cons, hne] using ih

private lemma oneLine_withSuffix {text : List Char} (htext : '\n' ∉ text) (isFloat : Bool)
    (cs : List Char) : OneLine (withSuffix isFloat text cs) := by
  cases cs with
  | nil => exact ⟨rfl, htext, rfl⟩
  | cons c cs =>
    rw [withSuffix]
    split
    next hsuffix =>
      have hne : '\n' ≠ c := by
        rintro rfl
        exact absurd hsuffix (by decide)
      exact ⟨rfl, by simp [htext, hne], rfl⟩
    next => exact ⟨rfl, htext, rfl⟩

private lemma oneLine_withExponent {text : List Char} (htext : '\n' ∉ text) (isFloat : Bool)
    (cs : List Char) : OneLine (withExponent isFloat text cs) := by
  cases cs with
  | nil => exact oneLine_withSuffix htext isFloat []
  | cons c cs =>
    rw [withExponent]
    split
    next hletter =>
      have hne : '\n' ≠ c := by
        rintro rfl
        exact absurd hletter (by decide)
      have hsign : '\n' ∉ (exponentSign cs).1 := by
        cases cs with
        | nil => simp [exponentSign]
        | cons d cs =>
          rw [exponentSign]
          split
          next hd =>
            rw [List.mem_singleton]
            rintro rfl
            exact absurd hd (by decide)
          next => simp
      have hdigits : '\n' ∉ (exponentSign cs).2.takeWhile Char.isDigit := fun hfeed =>
        absurd (List.mem_takeWhile_imp hfeed) (by decide)
      dsimp only
      split
      · exact ⟨rfl, by simp [htext, hne, hsign], rfl⟩
      · exact oneLine_withSuffix (by simp [htext, hne, hsign, hdigits]) true _
    next => exact oneLine_withSuffix htext isFloat (c :: cs)

lemma oneLine_number (cs : List Char) : OneLine (number cs) := by
  have htext := feed_not_mem_mantissa false cs
  rw [number]
  split
  · exact ⟨rfl, htext, rfl⟩
  · exact oneLine_withExponent htext _ _

lemma oneLine_signedNumber {c : Char} (hc : c ≠ '\n') (cs : List Char) :
    OneLine (signedNumber c cs) := by
  obtain ⟨hkind, htext, hnewlines⟩ := oneLine_number cs
  exact ⟨hkind, by simp [signedNumber, hc.symm, htext], hnewlines⟩

/-- An operator that was lengthened is an operator. -/
lemma isOperator_extendOperator {text : List Char} (h : Word.isOperator (String.ofList text) = true)
    (cs : List Char) : Word.isOperator (String.ofList (extendOperator text cs).1) = true := by
  fun_induction extendOperator text cs with
  | case1 => exact h
  | case2 text c cs hlonger ih => exact ih hlonger
  | case3 => exact h

lemma oneLine_operator {c : Char} (h : Word.isOperator (String.ofList [c]) = true)
    (cs : List Char) : OneLine (operator c cs) where
  kind := rfl
  text := by
    have hfeed : ∀ op ∈ Word.operators, '\n' ∉ op.toList := by decide
    have hop := isOperator_extendOperator h cs
    rw [Word.isOperator, List.contains_iff_mem] at hop
    simpa [operator] using hfeed _ hop
  newlines := rfl

/-! ## Literals -/

/-- The line feeds that directly follow a backslash. A backslash that follows another one in this
way is a character as any other. -/
def escapedFeeds : List Char → Nat
  | '\\' :: c :: cs => (if c = '\n' then 1 else 0) + escapedFeeds cs
  | _ :: cs => escapedFeeds cs
  | [] => 0

/-- The line feeds of a lexeme that do not count: those behind a backslash in a string literal, and
all in a character literal. -/
def hiddenFeeds : List Char → Nat
  | '"' :: cs => escapedFeeds cs
  | '\'' :: cs => cs.count '\n'
  | _ => 0

private lemma escapedFeeds_cons {c : Char} (hc : c ≠ '\\') (cs : List Char) :
    escapedFeeds (c :: cs) = escapedFeeds cs := by
  rw [escapedFeeds]
  rintro _ _ rfl
  exact absurd rfl hc

/-- A string literal counts all line feeds but those behind a backslash. -/
private lemma newlines_quoted (cs : List Char) :
    (quoted cs).newlines + escapedFeeds (quoted cs).text = (quoted cs).text.count '\n' := by
  fun_induction quoted cs with
  | case1 => rfl
  | case2 => rfl
  | case3 c hc => simp [escapedFeeds, count_cons_eq_lineFeeds]
  | case4 => rfl
  | case5 d cs hc ih =>
    have hslash : lineFeeds '\\' = 0 := rfl
    simp only [Quoted.append, List.cons_append, List.nil_append, escapedFeeds,
      count_cons_eq_lineFeeds, hslash]
    rw [← ih, lineFeeds]
    omega
  | case6 c d cs hc hc' ih =>
    simp only [Quoted.append, List.singleton_append, escapedFeeds_cons hc', count_cons_eq_lineFeeds]
    omega

lemma newlines_stringLiteral (cs : List Char) :
    (stringLiteral cs).newlines + hiddenFeeds (stringLiteral cs).text =
      (stringLiteral cs).text.count '\n' := by
  simpa [stringLiteral, hiddenFeeds] using newlines_quoted cs

/-- A character literal starts with its quote and counts no line feed. -/
private lemma charLiteral_spec (cs : List Char) :
    (charLiteral cs).kind.isSome = true ∧ (charLiteral cs).newlines = 0 ∧
      ∃ more, (charLiteral cs).text = '\'' :: more := by
  have hclose : ∀ text cs, (closeChar text cs).kind.isSome = true ∧
      (closeChar text cs).newlines = 0 ∧ text <+: (closeChar text cs).text := by
    intro text cs
    unfold closeChar
    split
    · exact ⟨rfl, rfl, List.prefix_append _ _⟩
    · exact ⟨rfl, rfl, List.prefix_rfl⟩
  unfold charLiteral
  split
  all_goals
    obtain ⟨hkind, hnewlines, more, htext⟩ := hclose _ _
    exact ⟨hkind, hnewlines, _, htext.symm⟩

lemma newlines_charLiteral (cs : List Char) :
    (charLiteral cs).newlines + hiddenFeeds (charLiteral cs).text =
      (charLiteral cs).text.count '\n' := by
  obtain ⟨-, hnewlines, more, htext⟩ := charLiteral_spec cs
  simp [hnewlines, htext, hiddenFeeds]

/-! ## Steps -/

/-- What a step takes off a text that starts with the character `c`. -/
inductive Taken (c : Char) (s : Step) : Prop
  | gap (hkind : s.kind = none) (hitem : GapItem s.rest s.text)
      (hnewlines : s.newlines = s.text.count '\n')
  | oneLine (h : OneLine s) (hstring : c ≠ '"') (hchar : c ≠ '\'')
  | literal (hkind : s.kind.isSome = true) (hquote : c = '"' ∨ c = '\'')
      (hnewlines : s.newlines + hiddenFeeds s.text = s.text.count '\n')

/-- Every step takes a gap, a lexeme on one line, or a string or character literal. -/
theorem taken_step (before : Option Char) (c : Char) (cs : List Char) :
    Taken c (step before c cs) := by
  unfold step
  by_cases hblank : Text.isBlank c = true
  · rw [if_pos hblank]
    exact .gap rfl (gapItem_blank hblank cs) (count_cons_eq_lineFeeds c []).symm
  have hfeed : c ≠ '\n' := by
    rintro rfl
    exact hblank (by decide)
  rw [if_neg hblank]
  by_cases hword : startsWord c = true
  · rw [if_pos hword]
    refine .oneLine (oneLine_word _) ?_ ?_ <;> rintro rfl <;> exact absurd hword (by decide)
  rw [if_neg hword]
  by_cases hnumber : startsNumber (c :: cs) = true
  · rw [if_pos hnumber]
    refine .oneLine (oneLine_number _) ?_ ?_ <;> rintro rfl <;> simp [startsNumber] at hnumber
  rw [if_neg hnumber]
  by_cases hstring : c = '"'
  · rw [if_pos hstring]
    exact .literal rfl (.inl hstring) (newlines_stringLiteral cs)
  rw [if_neg hstring]
  by_cases hchar : c = '\''
  · rw [if_pos hchar]
    exact .literal (charLiteral_spec cs).1 (.inr hchar) (newlines_charLiteral cs)
  rw [if_neg hchar]
  split_ifs with hline hblock hsign hop
  · exact .gap rfl (gapItem_lineComment _) (newlines_lineComment _)
  · exact .gap rfl (gapItem_blockComment _) (newlines_blockComment _)
  · exact .oneLine (oneLine_signedNumber hfeed _) hstring hchar
  · exact .oneLine (oneLine_operator hop _) hstring hchar
  · refine .oneLine ⟨rfl, ?_, rfl⟩ hstring hchar
    rw [List.mem_singleton]
    exact hfeed.symm

variable {before : Option Char} {c : Char} {cs : List Char}

/-- A step takes the first character of the text. -/
lemma step_text_eq_cons (before : Option Char) (c : Char) (cs : List Char) :
    ∃ more, (step before c cs).text = c :: more := by
  have happend := step_text_append_rest before c cs
  cases htext : (step before c cs).text with
  | nil => exact absurd htext (step_text_ne_nil before c cs)
  | cons d more =>
    rw [htext] at happend
    exact ⟨more, by rw [(List.cons.inj happend).1]⟩

/-- A step that takes no lexeme takes a blank or a comment, and counts its line feeds. -/
lemma gapItem_of_kind_eq_none (h : (step before c cs).kind = none) :
    GapItem (step before c cs).rest (step before c cs).text ∧
      (step before c cs).newlines = (step before c cs).text.count '\n' := by
  cases taken_step before c cs with
  | gap hkind hitem hnewlines => exact ⟨hitem, hnewlines⟩
  | oneLine hline =>
    have hsome := hline.kind
    simp [h] at hsome
  | literal hkind => simp [h] at hkind

/-- A step that takes a lexeme counts all its line feeds but the hidden ones. -/
lemma newlines_add_hiddenFeeds {kind : Kind} (h : (step before c cs).kind = some kind) :
    (step before c cs).newlines + hiddenFeeds (step before c cs).text =
      (step before c cs).text.count '\n' := by
  cases taken_step before c cs with
  | gap hkind => simp [h] at hkind
  | oneLine hline hstring hchar =>
    obtain ⟨more, htext⟩ := step_text_eq_cons before c cs
    have hhidden : hiddenFeeds (step before c cs).text = 0 := by
      rw [htext, hiddenFeeds]
      · rintro _ ⟨⟩
        exact hstring rfl
      · rintro _ ⟨⟩
        exact hchar rfl
    rw [hline.newlines, hhidden, List.count_eq_zero.2 hline.text]
  | literal hkind hquote hnewlines => exact hnewlines

/-- Of the lexemes only string and character literals have line feeds. -/
lemma quote_of_feed_mem {kind : Kind} (h : (step before c cs).kind = some kind)
    (hfeed : '\n' ∈ (step before c cs).text) : c = '"' ∨ c = '\'' := by
  cases taken_step before c cs with
  | gap hkind => simp [h] at hkind
  | oneLine hline => exact absurd hfeed hline.text
  | literal hkind hquote => exact hquote

end ClassLang.Scan
