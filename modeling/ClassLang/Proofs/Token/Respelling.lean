import ClassLang.Proofs.Grammar.Reads
import ClassLang.Proofs.Token.Rescanning

set_option autoImplicit false

/-!
# Lexemes set apart by spaces

The lexemes of a text, written one behind the other with single spaces between them, are a text
again. If none of them is malformed, scanning it finds the same lexemes, of the same kinds, and
gives them the same numbers: a space ends words, numbers and operators where they ended before, it
separates a sign from a number that did not take it in, and behind a space a number takes in the
sign that it had.

## Main definitions

* `ClassLang.Scan.Stable` — texts that are one lexeme wherever they are set apart.
* `ClassLang.Scan.spellings` — the lexemes of a text with their kinds.

## Main results

* `ClassLang.Scan.stable_step` — a lexeme that is well formed is stable.
* `ClassLang.Scan.spellings_append` — scanning on behind a stable text.
* `ClassLang.tokenize_intercalate` — the tokens of the lexemes set apart.
-/

namespace ClassLang.Scan

/-! ## Stable texts -/

/-- A step takes a lexeme of a kind and leaves a rest, on whatever line. -/
structure Step.Takes (s : Step) (kind : Kind) (text rest : List Char) : Prop where
  kind : s.kind = some kind
  text : s.text = text
  rest : s.rest = rest

/-- Where signs belong to numbers, and with nothing or a space behind it, the text is taken as one
lexeme of this kind. -/
def Stable (kind : Kind) : List Char → Prop
  | [] => False
  | c :: cs => ∀ before rest, signFolds before = true → Apart rest →
    (step before c (cs ++ rest)).Takes kind (c :: cs) rest

/-- No character of this class is a space. -/
lemma Apart.head?_eq_false {p : Char → Bool} (hp : p ' ' = false) {rest : List Char}
    (hrest : Apart rest) : ∀ c ∈ rest.head?, p c = false := by
  intro c hc
  rw [hrest c hc, hp]

/-- Characters of a class end where no more of them follow. -/
lemma takeWhile_append_of_head? {p : Char → Bool} {cs rest : List Char}
    (hcs : ∀ c ∈ cs, p c = true) (hrest : ∀ c ∈ rest.head?, p c = false) :
    (cs ++ rest).takeWhile p = cs ∧ (cs ++ rest).dropWhile p = rest := by
  have hnone : rest.takeWhile p = [] ∧ rest.dropWhile p = rest := by
    cases rest with
    | nil => exact ⟨rfl, rfl⟩
    | cons c rest => simp [hrest c rfl]
  rw [List.takeWhile_append_of_pos hcs, List.dropWhile_append_of_pos hcs, hnone.1, hnone.2,
    List.append_nil]
  exact ⟨rfl, rfl⟩

lemma word_append_rest {cs rest : List Char} (hcs : ∀ c ∈ cs, continuesWord c = true)
    (hrest : ∀ c ∈ rest.head?, continuesWord c = false) :
    word (cs ++ rest) = { word cs with text := cs, rest } := by
  obtain ⟨htake, hdrop⟩ := takeWhile_append_of_head? hcs hrest
  have hself : cs.takeWhile continuesWord = cs := List.takeWhile_eq_self_iff.2 hcs
  simp only [word, htake, hdrop, hself]

/-! ## Numbers -/

/-- What goes on with a mantissa that has not been cut: a letter, or nothing of a number. -/
def EndsMantissa (cs : List Char) : Prop :=
  ∀ c ∈ cs.head?, c ≠ '.' ∧ c.isDigit = false

/-- A mantissa that was not cut before a second point ends in the same place in front of whatever
does not go on with it. -/
lemma mantissa_text_append {hasPoint : Bool} {cs tail : List Char}
    (hstop : (mantissa hasPoint cs).secondPoint = false) (htail : EndsMantissa tail) :
    mantissa hasPoint ((mantissa hasPoint cs).text ++ tail) =
      { text := (mantissa hasPoint cs).text, rest := tail,
        hasPoint := (mantissa hasPoint cs).hasPoint, secondPoint := false } := by
  cases tail with
  | cons c more => exact mantissa_again hstop (htail c rfl).1 (htail c rfl).2 more
  | nil =>
    rw [List.append_nil]
    fun_induction mantissa hasPoint cs with
    | case1 | case5 => rfl
    | case2 => cases hstop
    | case3 hasPoint cs hnone ih =>
      have hagain := ih hstop
      simp only [Mantissa.cons]
      rw [mantissa, if_pos rfl, if_neg hnone, hagain]
      rfl
    | case4 hasPoint c cs hc hdigit ih =>
      have hagain := ih hstop
      simp only [Mantissa.cons]
      rw [mantissa, if_neg hc, if_pos hdigit, hagain]
      rfl

/-- The suffix letter that a number has taken, or none, is taken again. -/
lemma withSuffix_again (isFloat : Bool) (text cs : List Char) :
    ∃ suffix, (withSuffix isFloat text cs).text = text ++ suffix ∧
      (∀ c ∈ suffix, isNumberSuffix c = true) ∧ ∀ rest, Apart rest →
        withSuffix isFloat text (suffix ++ rest) =
          { kind := (withSuffix isFloat text cs).kind, text := text ++ suffix, rest } := by
  have hnone : ∀ rest, Apart rest → withSuffix isFloat text rest =
      { kind := some (if isFloat then .floatNumber else .number), text, rest } := by
    intro rest hrest
    rcases hrest.eq_nil_or with rfl | ⟨more, rfl⟩ <;> rfl
  cases cs with
  | nil => exact ⟨[], by simp [withSuffix], by simp, by simpa [withSuffix] using hnone⟩
  | cons c cs =>
    by_cases hsuffix : isNumberSuffix c = true
    · refine ⟨[c], by simp [withSuffix, hsuffix], by simpa using hsuffix, fun rest _ => ?_⟩
      simp [withSuffix, hsuffix]
    · exact ⟨[], by simp [withSuffix, hsuffix], by simp, by simpa [withSuffix, hsuffix] using hnone⟩

lemma isNumberSuffix_ne {c : Char} (h : isNumberSuffix c = true) :
    c ≠ '.' ∧ c.isDigit = false ∧ c ≠ 'e' ∧ c ≠ 'E' := by
  simp only [isNumberSuffix, Bool.or_eq_true, decide_eq_true_eq] at h
  rcases h with ((rfl | rfl) | rfl) | rfl <;> decide

/-- A suffix letter, or none, in front of a space or of nothing. -/
lemma head?_suffix_append {p : Char → Prop} (hspace : p ' ')
    (hp : ∀ c, isNumberSuffix c = true → p c) {suffix rest : List Char}
    (hsuffix : ∀ c ∈ suffix, isNumberSuffix c = true) (hrest : Apart rest) :
    ∀ c ∈ (suffix ++ rest).head?, p c := by
  intro c hc
  cases suffix with
  | nil =>
    rw [hrest c hc]
    exact hspace
  | cons d suffix =>
    obtain rfl : d = c := by simpa using hc
    exact hp _ (hsuffix _ List.mem_cons_self)

/-- The sign of an exponent, with its digits behind it, is the sign again. -/
lemma exponentSign_digits (cs : List Char) {digits : List Char} (hne : digits ≠ [])
    (hdigits : ∀ c ∈ digits, c.isDigit = true) (rest : List Char) :
    exponentSign ((exponentSign cs).1 ++ (digits ++ rest)) = ((exponentSign cs).1, digits ++ rest) := by
  have hnone : exponentSign (digits ++ rest) = ([], digits ++ rest) := by
    cases digits with
    | nil => exact absurd rfl hne
    | cons d digits =>
      have hd := hdigits d List.mem_cons_self
      have hplus : d ≠ '+' := by
        rintro rfl
        exact absurd hd (by decide)
      have hminus : d ≠ '-' := by
        rintro rfl
        exact absurd hd (by decide)
      simp [exponentSign, hplus, hminus]
  cases cs with
  | nil => exact hnone
  | cons c cs =>
    by_cases hsign : (c = '+' || c = '-') = true
    · simp [exponentSign, hsign]
    · simpa [exponentSign, hsign] using hnone

/-- What a well-formed number has behind its mantissa is taken again.

**Proof sketch.** Behind the mantissa there is a suffix letter at most, or an exponent with digits
and then a suffix letter at most. The digits of the exponent end where they did, since no digit
follows, and the same goes for the rest. -/
lemma withExponent_tail_again (isFloat : Bool) (text cs : List Char)
    (hkind : (withExponent isFloat text cs).kind ≠ some .error) :
    ∃ tail, (withExponent isFloat text cs).text = text ++ tail ∧ ∀ rest, Apart rest →
      EndsMantissa (tail ++ rest) ∧ withExponent isFloat text (tail ++ rest) =
        { kind := (withExponent isFloat text cs).kind, text := text ++ tail, rest } := by
  by_cases he : ∃ e more, cs = e :: more ∧ (e = 'e' ∨ e = 'E')
  · obtain ⟨e, more, rfl, he⟩ := he
    have hletter : (e = 'e' || e = 'E') = true := by simpa using he
    have hends : e ≠ '.' ∧ e.isDigit = false := by rcases he with rfl | rfl <;> decide
    generalize hdigits : (exponentSign more).2.takeWhile Char.isDigit = digits at *
    have hall : ∀ c ∈ digits, c.isDigit = true := by
      rw [← hdigits]
      exact fun c => List.mem_takeWhile_imp
    have hne : digits ≠ [] := by
      rintro rfl
      simp [withExponent, hletter, hdigits] at hkind
    have hexponent : withExponent isFloat text (e :: more) =
        withSuffix true (text ++ e :: ((exponentSign more).1 ++ digits))
          ((exponentSign more).2.dropWhile Char.isDigit) := by
      simp [withExponent, hletter, hdigits, hne]
    obtain ⟨suffix, htext, hsuffix, hagain⟩ := withSuffix_again true
      (text ++ e :: ((exponentSign more).1 ++ digits)) ((exponentSign more).2.dropWhile Char.isDigit)
    rw [hexponent]
    refine ⟨e :: ((exponentSign more).1 ++ (digits ++ suffix)), by simp [htext], ?_⟩
    intro rest hrest
    refine ⟨?_, ?_⟩
    · rintro c hc
      obtain rfl : e = c := by simpa using hc
      exact hends
    · have hstops := head?_suffix_append (p := fun c => c.isDigit = false) (by decide)
        (fun c hc => (isNumberSuffix_ne hc).2.1) hsuffix hrest
      obtain ⟨htake, hdrop⟩ := takeWhile_append_of_head? hall hstops
      have hsign := exponentSign_digits more hne hall (suffix ++ rest)
      have hgoal := hagain rest hrest
      simp only [List.append_assoc, List.cons_append] at hgoal ⊢
      rw [withExponent, if_pos hletter, hsign]
      simp [htake, hdrop, hne, hgoal]
  · have hplain : ∀ cs : List Char, (∀ c ∈ cs.head?, c ≠ 'e' ∧ c ≠ 'E') →
        withExponent isFloat text cs = withSuffix isFloat text cs := by
      intro cs hcs
      cases cs with
      | nil => rfl
      | cons c cs =>
        obtain ⟨hlower, hupper⟩ := hcs c rfl
        simp [withExponent, hlower, hupper]
    have hcs : ∀ c ∈ cs.head?, c ≠ 'e' ∧ c ≠ 'E' := by
      intro c hc
      obtain ⟨more, rfl⟩ := List.head?_eq_some_iff.1 hc
      exact ⟨fun h => he ⟨c, more, rfl, .inl h⟩, fun h => he ⟨c, more, rfl, .inr h⟩⟩
    obtain ⟨suffix, htext, hsuffix, hagain⟩ := withSuffix_again isFloat text cs
    rw [hplain cs hcs]
    refine ⟨suffix, htext, fun rest hrest => ⟨?_, ?_⟩⟩
    · exact head?_suffix_append (by decide)
        (fun c hc => ⟨(isNumberSuffix_ne hc).1, (isNumberSuffix_ne hc).2.1⟩) hsuffix hrest
    · rw [hplain _ (head?_suffix_append (by decide) (fun c hc => (isNumberSuffix_ne hc).2.2) hsuffix
        hrest)]
      exact hagain rest hrest

/-- **A well-formed number is taken again** in front of nothing or a space. -/
lemma number_again {cs : List Char} (hstarts : startsNumber cs = true)
    (hkind : (number cs).kind ≠ some .error) {rest : List Char} (hrest : Apart rest) :
    startsNumber ((number cs).text ++ rest) = true ∧
      number ((number cs).text ++ rest) =
        { kind := (number cs).kind, text := (number cs).text, rest } := by
  have hstop : (mantissa false cs).secondPoint = false := by
    rw [← Bool.not_eq_true]
    intro hcut
    simp [number, hcut] at hkind
  have hnumber : number cs = withExponent (mantissa false cs).hasPoint (mantissa false cs).text
      (mantissa false cs).rest := by simp [number, hstop]
  rw [hnumber] at hkind ⊢
  obtain ⟨tail, htext, hagain⟩ := withExponent_tail_again _ _ _ hkind
  obtain ⟨hends, hsame⟩ := hagain rest hrest
  rw [htext, List.append_assoc]
  refine ⟨startsNumber_mantissa hstarts _, ?_⟩
  rw [number, mantissa_text_append hstop hends]
  exact hsame

/-! ## Operators -/

/-- An operator that was lengthened as far as possible ends in the same place again. -/
lemma extendOperator_again (text cs : List Char) :
    ∃ more, (extendOperator text cs).1 = text ++ more ∧ ∀ rest, Apart rest →
      extendOperator text (more ++ rest) = (text ++ more, rest) := by
  have hspace : ∀ text : List Char, Word.isOperator (String.ofList (text ++ [' '])) = false := by
    intro text
    rw [← Bool.not_eq_true, Word.isOperator, List.contains_iff_mem]
    intro hmem
    have htable : (Word.operators.all fun op => op.toList.all (· ≠ ' ')) = true := by decide
    have hop := List.all_eq_true.1 htable _ hmem
    simp at hop
  fun_induction extendOperator text cs with
  | case1 text | case3 text c cs hstop =>
    refine ⟨[], by simp, fun rest hrest => ?_⟩
    rw [List.append_nil, List.nil_append]
    rcases hrest.eq_nil_or with rfl | ⟨more, rfl⟩
    · rfl
    · rw [extendOperator, hspace]
      rfl
  | case2 text c cs hop ih =>
    obtain ⟨more, htext, hagain⟩ := ih
    refine ⟨c :: more, by simpa using htext, fun rest hrest => ?_⟩
    rw [List.cons_append, extendOperator, if_pos hop, hagain rest hrest]
    simp

/-! ## Lexemes that are well formed -/

lemma stable_word {c : Char} (hc : startsWord c = true) {cs : List Char} {kind : Kind}
    (h : (word (c :: cs)).kind = some kind) : Stable kind (word (c :: cs)).text := by
  have hall : ∀ d ∈ (word (c :: cs)).text, continuesWord d = true :=
    fun d => List.mem_takeWhile_imp
  obtain ⟨more, htext⟩ : ∃ more, (word (c :: cs)).text = c :: more := by
    simp [word, continuesWord_of_startsWord hc]
  have hsame : (word (c :: more)).kind = (word (c :: cs)).kind := by
    have htake : (c :: more).takeWhile continuesWord = (word (c :: cs)).text := by
      rw [htext]
      exact List.takeWhile_eq_self_iff.2 (htext ▸ hall)
    simp only [word] at htake ⊢
    rw [htake]
  rw [htext] at hall ⊢
  intro before rest _ hrest
  rw [step_of_startsWord hc, ← List.cons_append,
    word_append_rest hall (hrest.head?_eq_false (by decide))]
  exact ⟨hsame.trans h, rfl, rfl⟩

lemma stable_number {cs : List Char} (hstarts : startsNumber cs = true) {kind : Kind}
    (h : (number cs).kind = some kind) (hkind : kind ≠ .error) : Stable kind (number cs).text := by
  have hkind' : (number cs).kind ≠ some .error := by
    rw [h]
    simpa using hkind
  match htext : (number cs).text with
  | [] => exact number_text_ne_nil hstarts htext
  | c :: more =>
    intro before rest _ hrest
    obtain ⟨hstarts', hsame⟩ := number_again hstarts hkind' hrest
    rw [htext, List.cons_append] at hstarts' hsame
    rw [step_of_startsNumber hstarts', hsame]
    exact ⟨h, rfl, rfl⟩

lemma stable_signedNumber {c : Char} (hc : c = '+' ∨ c = '-') {cs : List Char}
    (hstarts : startsNumber cs = true) {kind : Kind} (h : (number cs).kind = some kind)
    (hkind : kind ≠ .error) : Stable kind (signedNumber c cs).text := by
  intro before rest hfolds hrest
  obtain ⟨hstarts', hsame⟩ := number_again hstarts (by rw [h]; simpa using hkind) hrest
  have htaken : signTaken before c ((number cs).text ++ rest) = true := by
    simp [signTaken, hc, hfolds, hstarts']
  rw [step_of_signTaken htaken, signedNumber, hsame]
  exact ⟨h, rfl, rfl⟩

lemma stable_stringLiteral {cs : List Char} {kind : Kind} (h : (stringLiteral cs).kind = some kind)
    (hkind : kind ≠ .error) : Stable kind (stringLiteral cs).text := by
  obtain ⟨hbody, -⟩ := body_quoted cs
  have hclosed : (quoted cs).closed = true := by
    rw [← Bool.not_eq_false]
    intro hopen
    simp only [stringLiteral, hopen, Bool.false_eq_true, if_false, Option.some.injEq] at h
    exact hkind h.symm
  rw [hclosed] at hbody
  intro before rest _ _
  obtain ⟨htext, hafter, hagain⟩ := hbody.quoted_append rest (by simp)
  rw [step_string]
  refine ⟨?_, congrArg ('"' :: ·) htext, hafter⟩
  rw [← h]
  simp only [stringLiteral, hagain, hclosed]

lemma stable_charLiteral {cs : List Char} {kind : Kind} (h : (charLiteral cs).kind = some kind)
    (hkind : kind ≠ .error) : Stable kind (charLiteral cs).text := by
  rcases charUnit_cases cs with rfl | rfl | ⟨u, tail, hu, rfl⟩
  · exact absurd (Option.some.inj h).symm hkind
  · exact absurd (Option.some.inj h).symm hkind
  · rw [hu.charLiteral_append] at h ⊢
    unfold closeChar at h ⊢
    split at h
    next rest' =>
      intro before rest _ _
      change (step before '\'' ((u ++ ['\'']) ++ rest)).Takes kind _ rest
      rw [step_char, List.append_assoc, hu.charLiteral_append]
      exact ⟨h, rfl, rfl⟩
    next => exact absurd (Option.some.inj h).symm hkind

/-- A character that starts neither a blank, a word, a number nor a literal starts an operator,
unless a comment or a number follows. -/
lemma step_eq_operator {before : Option Char} {c : Char} {cs : List Char}
    (hblank : Text.isBlank c = false) (hword : startsWord c = false) (hdigit : c.isDigit = false)
    (hstring : c ≠ '"') (hchar : c ≠ '\'') (hop : Word.isOperator (String.ofList [c]) = true)
    (hcs : ∀ d ∈ cs.head?, d ≠ '/' ∧ d ≠ '*' ∧ d ≠ '.' ∧ d.isDigit = false) :
    step before c cs = operator c cs := by
  have hnumber : startsNumber (c :: cs) = false ∧ startsNumber cs = false ∧
      cs.head? ≠ some '/' ∧ cs.head? ≠ some '*' := by
    cases cs with
    | nil => simp [startsNumber, hdigit]
    | cons d cs =>
      obtain ⟨hslash, hstar, hpoint, hdigit'⟩ := hcs d rfl
      simp [startsNumber, hdigit, hslash, hstar, hpoint, hdigit']
  obtain ⟨hstarts, hsigned, hline, hblock⟩ := hnumber
  simp only [step, hblank, hword, hstarts, hstring, hchar, hline, hblock, hsigned, hop, if_true,
    if_false, Bool.false_eq_true, decide_false, Bool.and_false]

lemma stable_operator {c : Char} {cs : List Char} (hblank : Text.isBlank c = false)
    (hword : startsWord c = false) (hdigit : c.isDigit = false) (hstring : c ≠ '"')
    (hchar : c ≠ '\'') (hop : Word.isOperator (String.ofList [c]) = true) :
    Stable .operator (operator c cs).text := by
  obtain ⟨more, htext, hagain⟩ := extendOperator_again [c] cs
  have htable : (Word.operators.all fun op =>
      op.toList.tail.all fun d => d ≠ '/' && d ≠ '*' && d ≠ '.' && !d.isDigit) = true := by decide
  have hmem := isOperator_extendOperator hop cs
  rw [htext, Word.isOperator, List.contains_iff_mem] at hmem
  have htail : ∀ d ∈ more, d ≠ '/' ∧ d ≠ '*' ∧ d ≠ '.' ∧ d.isDigit = false := by
    have hall := List.all_eq_true.1 htable _ hmem
    simpa [and_assoc] using hall
  change Stable .operator (extendOperator [c] cs).1
  rw [htext]
  intro before rest _ hrest
  change (step before c (more ++ rest)).Takes .operator (c :: more) rest
  have hnext : ∀ d ∈ (more ++ rest).head?, d ≠ '/' ∧ d ≠ '*' ∧ d ≠ '.' ∧ d.isDigit = false := by
    intro d hd
    cases more with
    | nil =>
      rw [hrest d hd]
      decide
    | cons x more =>
      obtain rfl : x = d := by simpa using hd
      exact htail _ List.mem_cons_self
  rw [step_eq_operator hblank hword hdigit hstring hchar hop hnext, operator, hagain rest hrest]
  exact ⟨rfl, rfl, rfl⟩

/-- **A lexeme that is well formed is stable.**

**Proof sketch.** By the sort of lexeme that the step takes. Words end before the space, and the
kind of a word is read off the word alone. Numbers and operators end where they did, as no digit, no
letter and no part of an operator follows. Literals end with their closing quote, whatever
follows. -/
lemma stable_step {before : Option Char} {c : Char} {cs : List Char} {kind : Kind}
    (h : (step before c cs).kind = some kind) (hkind : kind ≠ .error) :
    Stable kind (step before c cs).text := by
  unfold step at h ⊢
  by_cases hblank : Text.isBlank c = true
  · simp [hblank] at h
  rw [if_neg hblank] at h ⊢
  by_cases hword : startsWord c = true
  · rw [if_pos hword] at h ⊢
    exact stable_word hword h
  rw [if_neg hword] at h ⊢
  by_cases hnumber : startsNumber (c :: cs) = true
  · rw [if_pos hnumber] at h ⊢
    exact stable_number hnumber h hkind
  rw [if_neg hnumber] at h ⊢
  by_cases hstring : c = '"'
  · rw [if_pos hstring] at h ⊢
    exact stable_stringLiteral h hkind
  rw [if_neg hstring] at h ⊢
  by_cases hchar : c = '\''
  · rw [if_pos hchar] at h ⊢
    exact stable_charLiteral h hkind
  rw [if_neg hchar] at h ⊢
  split at h
  next => cases h
  next hline =>
    rw [if_neg hline]
    split at h
    next => cases h
    next hblock =>
      rw [if_neg hblock]
      split at h
      next hsigned =>
        rw [if_pos hsigned]
        simp only [Bool.and_eq_true, Bool.or_eq_true, decide_eq_true_eq] at hsigned
        exact stable_signedNumber hsigned.1.1 hsigned.2 h hkind
      next hsigned =>
        rw [if_neg hsigned]
        split at h
        next hop =>
          rw [if_pos hop]
          obtain rfl := Option.some.inj h
          simp only [Bool.not_eq_true] at hblank hword hnumber
          rw [startsNumber, Bool.or_eq_false_iff] at hnumber
          exact stable_operator hblank hword hnumber.1 hstring hchar hop
        next => exact absurd (Option.some.inj h).symm hkind

/-- The lexemes of a text that are well formed are stable. -/
lemma stable_of_mem_pieces {before : Option Char} {line : Nat} {cs : List Char} {p : Piece}
    (hp : p ∈ pieces before line cs) (hkind : p.kind ≠ .error) : Stable p.kind p.text := by
  fun_induction pieces before line cs with
  | case1 => cases hp
  | case2 before line c cs s more kind hs ih =>
    rcases List.mem_cons.1 hp with rfl | hp
    · exact stable_step hs hkind
    · exact ih hp
  | case3 before line c cs s more hs ih => exact ih hp

/-! ## Spellings -/

/-- What a piece spells. -/
def Piece.spelling (p : Piece) : Spelling := (p.kind, String.ofList p.text)

/-- The lexemes of a text with their kinds. -/
def spellings (before : Option Char) (cs : List Char) : List Spelling :=
  (pieces before 1 cs).map Piece.spelling

/-- On which line a text starts makes no difference to its lexemes. -/
lemma map_spelling_pieces (before : Option Char) (line : Nat) (cs : List Char) :
    (pieces before line cs).map Piece.spelling = spellings before cs := by
  have hlines : ∀ line', (pieces before line cs).map Piece.spelling =
      (pieces before line' cs).map Piece.spelling := by
    fun_induction pieces before line cs with
    | case1 => exact fun _ => by rw [pieces]
    | case2 before line c cs s more kind hkind ih =>
      intro line'
      rw [pieces_of_kind hkind, List.map_cons, List.map_cons, ih (line' + s.newlines)]
      rfl
    | case3 before line c cs s more hkind ih =>
      intro line'
      rw [pieces_of_gap hkind, ih (line' + s.newlines)]
  exact hlines 1

lemma spellings_nil (before : Option Char) : spellings before [] = [] := by
  rw [spellings, pieces, List.map_nil]

/-- A space is passed over. -/
lemma spellings_blank (before : Option Char) (cs : List Char) :
    spellings before (' ' :: cs) = spellings (some ' ') cs := by
  rw [spellings, pieces_blank]
  rfl

/-- **Scanning on behind a stable text.** -/
lemma spellings_append {kind : Kind} {text : List Char} (h : Stable kind text)
    {before : Option Char} (hbefore : signFolds before = true) {rest : List Char}
    (hrest : Apart rest) :
    spellings before (text ++ rest) = (kind, String.ofList text) :: spellings (some ' ') rest := by
  match text, h with
  | c :: cs, h =>
    obtain ⟨hkind, htext, hafter⟩ := h before rest hbefore hrest
    rw [List.cons_append, spellings, pieces_of_kind hkind, List.map_cons, map_spelling_pieces,
      htext, hafter]
    rcases hrest.eq_nil_or with rfl | ⟨more, rfl⟩
    · rw [spellings_nil, spellings_nil]
      rfl
    · rw [spellings_blank, spellings_blank]
      rfl

/-- The lexemes of stable texts with single spaces between them. -/
lemma spellings_intercalate {ss : List Spelling} (h : ∀ s ∈ ss, Stable s.1 s.2.toList)
    (before : Option Char) (hbefore : signFolds before = true) :
    spellings before (" ".intercalate (ss.map Prod.snd)).toList = ss := by
  induction ss generalizing before with
  | nil => exact spellings_nil before
  | cons s ss ih =>
    obtain ⟨hs, hss⟩ := List.forall_mem_cons.1 h
    cases ss with
    | nil =>
      rw [List.map_cons, List.map_nil, String.intercalate_singleton]
      have happend := spellings_append hs hbefore apart_nil
      rwa [List.append_nil, spellings_nil, String.ofList_toList] at happend
    | cons t ss =>
      have htext : (" ".intercalate ((s :: t :: ss).map Prod.snd)).toList =
          s.2.toList ++ ' ' :: (" ".intercalate ((t :: ss).map Prod.snd)).toList := by
        simp [String.intercalate_cons_cons]
      rw [htext, spellings_append hs hbefore (apart_cons _), String.ofList_toList, spellings_blank,
        ih hss _ (by decide)]

/-! ## Numbers of lexemes -/

/-- The numbers of lexemes do not depend on their lines. -/
lemma internAll_congr {ps qs : List Piece} (h : ps.map Piece.spelling = qs.map Piece.spelling)
    (known : Interner) :
    (internAll known ps).1.map (fun t => (t.spelling, t.id)) =
      (internAll known qs).1.map (fun t => (t.spelling, t.id)) := by
  induction ps generalizing qs known with
  | nil =>
    obtain rfl := List.map_eq_nil_iff.1 h.symm
    rfl
  | cons p ps ih =>
    obtain ⟨q, qs, rfl, hp, hps⟩ := List.map_eq_cons_iff.1 h.symm
    have htoken : (q.toToken known).2 = (p.toToken known).2 ∧
        ((q.toToken known).1.spelling, (q.toToken known).1.id) =
          ((p.toToken known).1.spelling, (p.toToken known).1.id) := by
      obtain ⟨kind, text, line⟩ := p
      obtain ⟨kind', text', line'⟩ := q
      obtain ⟨rfl, htext⟩ := Prod.mk.inj hp
      obtain rfl : text' = text := String.ofList_injective htext
      exact ⟨rfl, rfl⟩
    simp only [internAll, List.map_cons, htoken.2, htoken.1, ih hps.symm]

end ClassLang.Scan

namespace ClassLang

open Scan

/-- The tokens of a text spell the pieces that it is scanned into. -/
lemma map_spelling_tokens (known : Interner) (source : String) :
    (Scan.tokens known source).1.map Token.spelling =
      (Scan.pieces none 1 source.toList).map Scan.Piece.spelling := by
  rw [← Scan.map_piece_tokens known source, List.map_map]
  refine List.map_congr_left fun t _ => ?_
  simp [Token.spelling, Scan.Piece.spelling, Token.piece]

/-- **Lexemes set apart are scanned as they were.** If no token of a text is malformed, the tokens of
its lexemes, written with single spaces between them, have the same kinds, lexemes and numbers in
the same order. -/
theorem tokenize_intercalate (source : String) (h : ∀ t ∈ tokenize source, t.kind ≠ .error) :
    (tokenize (" ".intercalate ((tokenize source).map Token.lexeme))).map
        (fun t => (t.kind, t.lexeme, t.id)) =
      (tokenize source).map fun t => (t.kind, t.lexeme, t.id) := by
  have hpieces : (tokenize source).map Token.piece = pieces none 1 source.toList :=
    map_piece_tokens .empty source
  have hspellings : (tokenize source).map Token.spelling = spellings none source.toList :=
    map_spelling_tokens .empty source
  have hstable : ∀ s ∈ spellings none source.toList, Stable s.1 s.2.toList := by
    intro s hs
    rw [← hspellings] at hs
    obtain ⟨t, ht, rfl⟩ := List.mem_map.1 hs
    have hmem : t.piece ∈ pieces none 1 source.toList := hpieces ▸ List.mem_map_of_mem ht
    exact stable_of_mem_pieces hmem (h t ht)
  have hlexemes : (tokenize source).map Token.lexeme =
      (spellings none source.toList).map Prod.snd := by
    rw [← hspellings, List.map_map]
    rfl
  rw [hlexemes]
  have hsame := spellings_intercalate hstable none (by decide)
  have hids := internAll_congr hsame .empty
  have hassoc := congrArg (List.map fun x : Spelling × Nat => (x.1.1, x.1.2, x.2)) hids
  rwa [List.map_map, List.map_map] at hassoc

/-- A text in which signs stand in front of numbers in all the ways that matter. -/
def signsAndNumbers : String :=
  "x=-1+2 - -3.5e-4f<<=a[ i+1 ] // no more\n\"a b\"+'\\''"

/-- The signs that numbers took in are taken in again, and the others are not. -/
theorem tokenize_intercalate_signsAndNumbers :
    (∀ t ∈ tokenize signsAndNumbers, t.kind ≠ .error) ∧
      (tokenize (" ".intercalate ((tokenize signsAndNumbers).map Token.lexeme))).map
          (fun t => (t.kind, t.lexeme, t.id)) =
        (tokenize signsAndNumbers).map fun t => (t.kind, t.lexeme, t.id) := by
  have hkinds : ∀ t ∈ tokenize signsAndNumbers, t.kind ≠ .error := by decide +kernel
  exact ⟨hkinds, tokenize_intercalate signsAndNumbers hkinds⟩

end ClassLang
