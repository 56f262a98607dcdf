import ClassLang.Proofs.Token.Respelling

set_option autoImplicit false

/-!
# Texts that meet at a bracket or a space

Two texts are written one behind the other, and the second one starts with a bracket, a parenthesis
or a space. The lexemes of the first are found again, except the last one, which may run on: a word
takes brackets in, and a comment or a literal that is not closed takes anything in. Whatever else
the first text ends with ends there.

## Main definitions

* `ClassLang.Scan.Seam` — texts that start with a bracket, a parenthesis or a space.
* `ClassLang.Scan.lastPiece` — what the last step of scanning a text takes.
* `ClassLang.Scan.endsSealed` — whether the last step ends in front of every seam.

## Main results

* `ClassLang.Scan.extends_step` — a step in front of a seam.
* `ClassLang.Scan.spellings_append_seam` — all but the last step in front of a seam.
* `ClassLang.Scan.spellings_append_of_sealed` — the lexemes on both sides of a bracket.
-/

namespace ClassLang.Scan

/-! ## Seams -/

/-- Brackets and parentheses. -/
def brackets : List Char := ['(', ')', '[', ']']

/-- The characters that texts meet at. -/
def seams : List Char := ' ' :: brackets

/-- The text starts with a bracket, a parenthesis or a space. -/
def Seam (tail : List Char) : Prop :=
  ∃ b ∈ seams, ∃ more, tail = b :: more

variable {tail : List Char}

/-- A class of characters that holds no seam. -/
lemma Seam.head?_eq_false {p : Char → Bool} (h : Seam tail) (hp : (seams.any p) = false) :
    ∀ c ∈ tail.head?, p c = false := by
  obtain ⟨b, hb, more, rfl⟩ := h
  rintro _ ⟨⟩
  rw [← Bool.not_eq_true]
  intro hc
  rw [List.any_eq_true.2 ⟨b, hb, hc⟩] at hp
  cases hp

/-- Characters of a class end at the seam at the latest. -/
lemma span_append {p : Char → Bool} (htail : ∀ c ∈ tail.head?, p c = false) (cs : List Char) :
    (cs ++ tail).takeWhile p = cs.takeWhile p ∧
      (cs ++ tail).dropWhile p = cs.dropWhile p ++ tail := by
  induction cs with
  | nil =>
    cases tail with
    | nil => exact ⟨rfl, rfl⟩
    | cons c more => simp [htail c rfl]
  | cons c cs ih =>
    cases hc : p c with
    | true => simp [hc, ih]
    | false => simp [hc]

/-- Characters of a class end where they did, if they ended before the end of the text. -/
lemma span_append_of_ne_nil {p : Char → Bool} {cs : List Char} (hcs : cs.dropWhile p ≠ [])
    (tail : List Char) : (cs ++ tail).takeWhile p = cs.takeWhile p ∧
      (cs ++ tail).dropWhile p = cs.dropWhile p ++ tail := by
  induction cs with
  | nil => exact absurd rfl hcs
  | cons c cs ih =>
    cases hc : p c with
    | true =>
      rw [List.dropWhile_cons_of_pos hc] at hcs
      simp [hc, ih hcs]
    | false => simp [hc]

/-! ## Steps in front of a seam -/

/-- The step `s'` takes what `s` takes, and leaves `tail` behind what `s` leaves. -/
structure Step.Extends (s' s : Step) (tail : List Char) : Prop where
  kind : s'.kind = s.kind
  text : s'.text = s.text
  rest : s'.rest = s.rest ++ tail

lemma mantissa_append_seam (htail : Seam tail) (hasPoint : Bool) (cs : List Char) :
    mantissa hasPoint (cs ++ tail) =
      { mantissa hasPoint cs with rest := (mantissa hasPoint cs).rest ++ tail } := by
  induction cs generalizing hasPoint with
  | nil =>
    have hpoint := htail.head?_eq_false (p := fun c => c = '.') (by decide)
    have hdigit := htail.head?_eq_false (p := Char.isDigit) (by decide)
    obtain ⟨b, hb, more, rfl⟩ := htail
    have hne : b ≠ '.' := by simpa using hpoint b rfl
    simp [mantissa, hne, hdigit b rfl]
  | cons c cs ih =>
    rw [List.cons_append, mantissa, mantissa]
    split
    · split
      · rfl
      · rw [ih]
        rfl
    · split
      · rw [ih]
        rfl
      · rfl

lemma withSuffix_append (htail : Seam tail) (isFloat : Bool) (text cs : List Char) :
    withSuffix isFloat text (cs ++ tail) =
      { withSuffix isFloat text cs with rest := (withSuffix isFloat text cs).rest ++ tail } := by
  cases cs with
  | nil =>
    have hsuffix := htail.head?_eq_false (p := isNumberSuffix) (by decide)
    obtain ⟨b, hb, more, rfl⟩ := htail
    simp [withSuffix, hsuffix b rfl]
  | cons c cs =>
    rw [List.cons_append, withSuffix, withSuffix]
    split <;> rfl

lemma exponentSign_append_seam (htail : Seam tail) (cs : List Char) :
    exponentSign (cs ++ tail) = ((exponentSign cs).1, (exponentSign cs).2 ++ tail) := by
  cases cs with
  | nil =>
    have hsign := htail.head?_eq_false (p := fun c => c = '+' || c = '-') (by decide)
    obtain ⟨b, hb, more, rfl⟩ := htail
    simp only [List.nil_append, exponentSign, hsign b rfl]
    rfl
  | cons c cs =>
    rw [List.cons_append, exponentSign, exponentSign]
    split <;> rfl

lemma withExponent_append (htail : Seam tail) (isFloat : Bool) (text cs : List Char) :
    withExponent isFloat text (cs ++ tail) =
      { withExponent isFloat text cs with rest := (withExponent isFloat text cs).rest ++ tail } := by
  cases cs with
  | nil =>
    have hletter := htail.head?_eq_false (p := fun c => c = 'e' || c = 'E') (by decide)
    have hplain := withSuffix_append htail isFloat text []
    obtain ⟨b, hb, more, rfl⟩ := htail
    have hnone : withExponent isFloat text (b :: more) = withSuffix isFloat text (b :: more) := by
      rw [withExponent, if_neg (by rw [hletter b rfl]; decide)]
    exact hnone.trans hplain
  | cons c cs =>
    rw [List.cons_append, withExponent, withExponent]
    split
    · obtain ⟨htake, hdrop⟩ := span_append (p := Char.isDigit)
        (htail.head?_eq_false (by decide)) (exponentSign cs).2
      rw [exponentSign_append_seam htail]
      simp only [htake, hdrop]
      split
      · rfl
      · exact withSuffix_append htail _ _ _
    · rw [← List.cons_append]
      exact withSuffix_append htail isFloat text (c :: cs)

/-- **A number** ends at the seam at the latest, well formed or not. -/
lemma number_append_seam (htail : Seam tail) (cs : List Char) :
    number (cs ++ tail) = { number cs with rest := (number cs).rest ++ tail } := by
  rw [number, number, mantissa_append_seam htail]
  dsimp only
  split
  · rfl
  · exact withExponent_append htail _ _ _

lemma startsNumber_append_seam (htail : Seam tail) (cs : List Char) :
    startsNumber (cs ++ tail) = startsNumber cs := by
  have hdigit := htail.head?_eq_false (p := Char.isDigit) (by decide)
  have hpoint := htail.head?_eq_false (p := fun c => c = '.') (by decide)
  obtain ⟨b, hb, more, rfl⟩ := htail
  have hne : b ≠ '.' := by simpa using hpoint b rfl
  cases cs with
  | nil => simp [startsNumber, hdigit b rfl, hne]
  | cons c cs =>
    cases cs with
    | nil => simp [startsNumber, hdigit b rfl]
    | cons d cs => rfl

lemma extendOperator_append_seam (htail : Seam tail) {text : List Char} (htext : text ≠ [])
    (cs : List Char) :
    extendOperator text (cs ++ tail) = ((extendOperator text cs).1, (extendOperator text cs).2 ++ tail) := by
  have htable : (Word.operators.all fun op =>
      op.toList.tail.all fun d => !(seams.contains d)) = true := by decide
  induction cs generalizing text with
  | nil =>
    obtain ⟨b, hb, more, rfl⟩ := htail
    have hop : Word.isOperator (String.ofList (text ++ [b])) = false := by
      rw [← Bool.not_eq_true, Word.isOperator, List.contains_iff_mem]
      intro hmem
      obtain ⟨c, text, rfl⟩ := List.exists_cons_of_ne_nil htext
      have hall := List.all_eq_true.1 htable _ hmem
      simp [hb] at hall
    have hnone : extendOperator text (b :: more) = (text, b :: more) := by
      rw [extendOperator, if_neg (by rw [hop]; decide)]
    exact hnone
  | cons c cs ih =>
    rw [List.cons_append, extendOperator, extendOperator]
    split
    · exact ih (by simp)
    · rfl

lemma quoted_append {cs : List Char} (hclosed : (quoted cs).closed = true) (tail : List Char) :
    (quoted (cs ++ tail)).text = (quoted cs).text ∧
      (quoted (cs ++ tail)).rest = (quoted cs).rest ++ tail ∧
        (quoted (cs ++ tail)).closed = true := by
  fun_induction quoted cs with
  | case1 => cases hclosed
  | case2 => cases tail <;> simp [quoted]
  | case3 => cases hclosed
  | case4 d cs => simp [quoted]
  | case5 d cs hquote ih =>
    obtain ⟨htext, hrest, hagain⟩ := ih hclosed
    simp [quoted, Quoted.append, htext, hrest, hagain]
  | case6 c d cs hc hslash ih =>
    obtain ⟨htext, hrest, hagain⟩ := ih hclosed
    rw [List.cons_append, quoted_cons hc hslash]
    exact ⟨congrArg ([c] ++ ·) htext, hrest, hagain⟩

lemma commentBody_append {cs : List Char} (hclosed : (commentBody cs).closed = true)
    (tail : List Char) : (commentBody (cs ++ tail)).text = (commentBody cs).text ∧
      (commentBody (cs ++ tail)).rest = (commentBody cs).rest ++ tail := by
  fun_induction commentBody cs with
  | case1 => cases hclosed
  | case2 c => cases hclosed
  | case3 c d cs hend => simp [commentBody, hend]
  | case4 c d cs hend ih =>
    obtain ⟨htext, hrest⟩ := ih hclosed
    simp only [List.cons_append] at htext hrest ⊢
    simp [commentBody, hend, Quoted.append, htext, hrest]

lemma rest_eq_nil_of_commentBody {cs : List Char} (hopen : (commentBody cs).closed = false) :
    (commentBody cs).rest = [] := by
  fun_induction commentBody cs with
  | case1 | case2 => rfl
  | case3 => cases hopen
  | case4 c d cs hend ih => exact ih hopen

/-- A character literal in front of a tail, if it was closed or cut before the end of the text. -/
lemma extends_charLiteral {cs : List Char}
    (hs : (charLiteral cs).rest ≠ [] ∨ (charLiteral cs).kind ≠ some .error) (tail : List Char) :
    (charLiteral (cs ++ tail)).Extends (charLiteral cs) tail := by
  rcases charUnit_cases cs with rfl | rfl | ⟨u, rest, hu, rfl⟩
  · simp [charLiteral, closeChar] at hs
  · simp [charLiteral, closeChar] at hs
  · rw [List.append_assoc, hu.charLiteral_append, hu.charLiteral_append] at *
    cases rest with
    | nil => simp [closeChar] at hs
    | cons d rest =>
      by_cases hd : d = '\''
      · subst hd
        exact ⟨rfl, rfl, rfl⟩
      · have hcut : ∀ ds, closeChar ('\'' :: u) (d :: ds) =
            { kind := some .error, text := '\'' :: u, rest := d :: ds } := by
          intro ds
          unfold closeChar
          split
          next heq => exact absurd (List.cons.inj heq).1 hd
          next => rfl
        rw [List.cons_append, hcut, hcut]
        exact ⟨rfl, rfl, rfl⟩

/-- Whether the first piece of a text, if it goes up to the end of the text, ends in front of every
seam: a blank, a comment that is closed, or a lexeme that is well formed and no word. -/
def seals (before : Option Char) (c : Char) (cs : List Char) : Bool :=
  match (step before c cs).kind with
  | some kind => kind ≠ .keyword && kind ≠ .identifier && kind ≠ .error
  | none => Text.isBlank c || (cs.head? = some '*' && (commentBody cs.tail).closed)

lemma seals_eq {before : Option Char} {c : Char} {cs : List Char} {kind : Kind}
    (h : (step before c cs).kind = some kind) (hs : seals before c cs = true) :
    kind ≠ .keyword ∧ kind ≠ .identifier ∧ kind ≠ .error := by
  simpa [seals, h, and_assoc] using hs

/-- **A step in front of a seam.** If it ended before the end of the text, or is sealed, it ends in
the same place.

**Proof sketch.** By the sort of the piece. Which sort it is shows in the characters that come first,
and a seam is none of those that would make a difference. Numbers and operators do not go on with a
seam. Words, literals and comments ended before the seam, or else the step is sealed. -/
lemma extends_step {before : Option Char} {c : Char} {cs : List Char}
    (hs : (step before c cs).rest ≠ [] ∨ seals before c cs = true) (htail : Seam tail) :
    (step before c (cs ++ tail)).Extends (step before c cs) tail := by
  by_cases hblank : Text.isBlank c = true
  · have hstep : ∀ ds, step before c ds =
        { kind := none, text := [c], rest := ds, newlines := lineFeeds c } := fun ds => by
      rw [step, if_pos hblank]
    rw [hstep, hstep]
    exact ⟨rfl, rfl, rfl⟩
  by_cases hword : startsWord c = true
  · have hrest : (c :: cs).dropWhile continuesWord ≠ [] := by
      rw [step_of_startsWord hword] at hs
      rcases hs with hs | hs
      · exact hs
      · have hkind : (word (c :: cs)).kind = some .keyword ∨
            (word (c :: cs)).kind = some .identifier := by
          simp only [word]
          split
          · exact .inl rfl
          · exact .inr rfl
        rcases hkind with hkind | hkind <;> rw [← step_of_startsWord hword before cs] at hkind
        · exact absurd rfl (seals_eq hkind hs).1
        · exact absurd rfl (seals_eq hkind hs).2.1
    rw [step_of_startsWord hword, step_of_startsWord hword, ← List.cons_append]
    obtain ⟨htake, hdrop⟩ := span_append_of_ne_nil hrest tail
    simp only [word, htake, hdrop]
    exact ⟨rfl, rfl, rfl⟩
  have hnumbers : startsNumber (c :: (cs ++ tail)) = startsNumber (c :: cs) :=
    startsNumber_append_seam htail (c :: cs)
  by_cases hnumber : startsNumber (c :: cs) = true
  · rw [step_of_startsNumber hnumber, step_of_startsNumber (hnumbers.trans hnumber),
      ← List.cons_append, number_append_seam htail]
    exact ⟨rfl, rfl, rfl⟩
  by_cases hstring : c = '"'
  · subst hstring
    have hclosed : (quoted cs).closed = true := by
      rw [← Bool.not_eq_false]
      intro hopen
      rw [step_string] at hs
      rcases hs with hs | hs
      · exact hs ((body_quoted cs).2 hopen)
      · have hkind : (step before '"' cs).kind = some .error := by
          simp [step_string, stringLiteral, hopen]
        exact (seals_eq hkind hs).2.2 rfl
    obtain ⟨htext, hrest, hagain⟩ := quoted_append hclosed tail
    rw [step_string, step_string]
    refine ⟨?_, congrArg ('"' :: ·) htext, hrest⟩
    simp only [stringLiteral, hclosed, hagain]
  by_cases hchar : c = '\''
  · subst hchar
    have hkept : (charLiteral cs).rest ≠ [] ∨ (charLiteral cs).kind ≠ some .error := by
      rw [step_char] at hs
      refine hs.imp_right fun hs hkind => ?_
      rw [← step_char before] at hkind
      exact (seals_eq hkind hs).2.2 rfl
    rw [step_char, step_char]
    exact extends_charLiteral hkept tail
  -- What follows decides about comments and about signs, and a seam decides against them.
  have hheads : ∀ d, seams.contains d = false → ((cs ++ tail).head? = some d ↔ cs.head? = some d) := by
    intro d hd
    cases cs with
    | cons => rfl
    | nil =>
      obtain ⟨b, hb, more, rfl⟩ := htail
      have hne : b ≠ d := by
        rintro rfl
        simp [hb] at hd
      simp [hne]
  have hline := hheads '/' (by decide)
  have hblock := hheads '*' (by decide)
  simp only [seals] at hs
  have hunfold : ∀ ds, startsNumber (c :: ds) = false → step before c ds =
      if c = '/' && ds.head? = some '/' then lineComment ds.tail
      else if c = '/' && ds.head? = some '*' then blockComment ds.tail
      else if (c = '+' || c = '-') && signFolds before && startsNumber ds then signedNumber c ds
      else if Word.isOperator (String.ofList [c]) then operator c ds
      else { kind := some .error, text := [c], rest := ds } := by
    intro ds hds
    rw [step, if_neg hblank, if_neg hword, if_neg (by rw [hds]; decide), if_neg hstring, if_neg hchar]
  rw [Bool.not_eq_true] at hnumber
  rw [hunfold cs hnumber] at hs ⊢
  rw [hunfold (cs ++ tail) (hnumbers.trans hnumber)]
  simp only [hline, hblock, startsNumber_append_seam htail cs]
  split
  next hcomment =>
    obtain ⟨-, hhead⟩ : c = '/' ∧ cs.head? = some '/' := by simpa using hcomment
    obtain ⟨ds, rfl⟩ := List.head?_eq_some_iff.1 hhead
    rw [if_pos hcomment] at hs
    have hrest : ds.dropWhile (· ≠ '\n') ≠ [] :=
      hs.resolve_right (by simp [lineComment, hblank])
    obtain ⟨htake, hdrop⟩ := span_append_of_ne_nil hrest tail
    exact ⟨rfl, congrArg ('/' :: '/' :: ·) htake, hdrop⟩
  next hcomment =>
    rw [if_neg hcomment] at hs
    split
    next hcomment =>
      obtain ⟨-, hhead⟩ : c = '/' ∧ cs.head? = some '*' := by simpa using hcomment
      obtain ⟨ds, rfl⟩ := List.head?_eq_some_iff.1 hhead
      rw [if_pos hcomment] at hs
      have hclosed : (commentBody ds).closed = true := by
        rcases hs with hs | hs
        · rw [← Bool.not_eq_false]
          exact fun hopen => hs (rest_eq_nil_of_commentBody hopen)
        · simpa [blockComment, hblank] using hs
      obtain ⟨htext, hrest⟩ := commentBody_append hclosed tail
      exact ⟨rfl, congrArg ('/' :: '*' :: ·) htext, hrest⟩
    next hcomment =>
      rw [if_neg hcomment] at hs
      split
      next hsign =>
        rw [signedNumber, signedNumber, number_append_seam htail]
        exact ⟨rfl, rfl, rfl⟩
      next hsign =>
        split
        next hop =>
          rw [operator, operator, extendOperator_append_seam htail (List.cons_ne_nil c [])]
          exact ⟨rfl, rfl, rfl⟩
        next => exact ⟨rfl, rfl, rfl⟩

/-! ## Texts in front of a seam -/

/-- Where the last step of scanning a text starts: the character in front, and the text. -/
def lastPiece (before : Option Char) (cs : List Char) : Option Char × List Char :=
  match cs with
  | [] => (before, [])
  | c :: cs =>
    if (step before c cs).rest = [] then (before, c :: cs)
    else lastPiece (step before c cs).text.getLast? (step before c cs).rest
termination_by cs.length
decreasing_by exact step_rest_length_lt before c cs

/-- Whether nothing at the end of the text goes on behind a seam. -/
def endsSealed (before : Option Char) (cs : List Char) : Bool :=
  match lastPiece before cs with
  | (before, c :: cs) => seals before c cs
  | (_, []) => true

/-- What a step adds to the lexemes of a text. -/
def Step.spelled (s : Step) : List Spelling :=
  (s.kind.map fun kind => (kind, String.ofList s.text)).toList

/-- The lexemes of a text, from the first step on. -/
lemma spellings_cons (before : Option Char) (c : Char) (cs : List Char) :
    spellings before (c :: cs) = (step before c cs).spelled ++
      spellings (step before c cs).text.getLast? (step before c cs).rest := by
  cases hkind : (step before c cs).kind with
  | none =>
    rw [spellings, pieces_of_gap hkind, map_spelling_pieces, Step.spelled, hkind]
    rfl
  | some kind =>
    rw [spellings, pieces_of_kind hkind, List.map_cons, map_spelling_pieces, Step.spelled, hkind]
    rfl

/-- A step that takes the same leads to the same lexemes. -/
lemma Step.Extends.spellings_cons {before : Option Char} {c : Char} {cs ds : List Char}
    (h : (step before c ds).Extends (step before c cs) tail) :
    spellings before (c :: ds) = (step before c cs).spelled ++
      spellings (step before c cs).text.getLast? ((step before c cs).rest ++ tail) := by
  rw [Scan.spellings_cons, Step.spelled, h.kind, h.text, h.rest]
  rfl

/-- **All but the last step in front of a seam.** The lexemes in front of the last piece of a text
are the same whatever stands behind the seam. -/
lemma spellings_append_seam (before : Option Char) (cs : List Char) :
    ∃ front, spellings before cs = front ++ spellings (lastPiece before cs).1 (lastPiece before cs).2 ∧
      ∀ tail, Seam tail → spellings before (cs ++ tail) =
        front ++ spellings (lastPiece before cs).1 ((lastPiece before cs).2 ++ tail) := by
  fun_induction lastPiece before cs with
  | case1 before => exact ⟨[], rfl, fun tail _ => rfl⟩
  | case2 before c cs hlast => exact ⟨[], rfl, fun tail _ => rfl⟩
  | case3 before c cs hlast ih =>
    obtain ⟨front, hfront, htails⟩ := ih
    refine ⟨(step before c cs).spelled ++ front, ?_, fun tail htail => ?_⟩
    · rw [spellings_cons, hfront, List.append_assoc]
    · rw [List.cons_append, (extends_step (.inl hlast) htail).spellings_cons, htails tail htail,
        List.append_assoc]

lemma rest_eq_nil_of_lastPiece {before : Option Char} {cs : List Char} {c : Char} {ds : List Char}
    (h : (lastPiece before cs).2 = c :: ds) : (step (lastPiece before cs).1 c ds).rest = [] := by
  fun_induction lastPiece before cs with
  | case1 before => cases h
  | case2 before c' cs hlast =>
    obtain ⟨rfl, rfl⟩ := List.cons.inj h
    exact hlast
  | case3 before c' cs hlast ih => exact ih h

/-- A bracket is a lexeme of its own. -/
lemma spellings_bracket {b : Char} (hb : b ∈ brackets) (before : Option Char) (more : List Char) :
    spellings before (b :: more) = (.operator, String.ofList [b]) :: spellings (some b) more := by
  have htable : (brackets.all fun b => !Text.isBlank b && !startsWord b && !b.isDigit && b ≠ '.' &&
      b ≠ '"' && b ≠ '\'' && b ≠ '/' && b ≠ '+' && b ≠ '-' &&
        Word.isOperator (String.ofList [b])) = true := by decide
  have hlong : (Word.operators.all fun op =>
      !(op.toList.head?.any brackets.contains) || op.toList.length = 1) = true := by decide
  obtain ⟨⟨⟨⟨⟨⟨⟨⟨⟨hblank, hword⟩, hdigit⟩, hpoint⟩, hstring⟩, hchar⟩, hslash⟩, hplus⟩, hminus⟩, hop⟩ := by
    simpa only [Bool.and_eq_true, Bool.not_eq_true', decide_eq_true_eq] using
      List.all_eq_true.1 htable b hb
  have hnumber : startsNumber (b :: more) = false := by simp [startsNumber, hdigit, hpoint]
  have hextend : extendOperator [b] more = ([b], more) := by
    cases more with
    | nil => rfl
    | cons d more =>
      have hnone : Word.isOperator (String.ofList ([b] ++ [d])) = false := by
        rw [← Bool.not_eq_true, Word.isOperator, List.contains_iff_mem]
        intro hmem
        have hall := List.all_eq_true.1 hlong _ hmem
        simp [hb] at hall
      rw [extendOperator, if_neg (by rw [hnone]; decide)]
  have hstep : step before b more = { kind := some .operator, text := [b], rest := more } := by
    rw [step, if_neg (by rw [hblank]; decide), if_neg (by rw [hword]; decide),
      if_neg (by rw [hnumber]; decide), if_neg hstring, if_neg hchar, if_neg (by simp [hslash]),
      if_neg (by simp [hslash]), if_neg (by simp [hplus, hminus]), if_pos hop, operator, hextend]
  rw [spellings_cons, hstep]
  rfl

/-- **The lexemes on both sides of a bracket.** If nothing at the end of the first text goes on, they
are those of the two texts, with the bracket between them. -/
theorem spellings_append_of_sealed {before : Option Char} {cs : List Char}
    (h : endsSealed before cs = true) {b : Char} (hb : b ∈ brackets) (more : List Char) :
    spellings before (cs ++ b :: more) =
      spellings before cs ++ (.operator, String.ofList [b]) :: spellings (some b) more := by
  obtain ⟨front, hfront, htails⟩ := spellings_append_seam before cs
  have htail : Seam (b :: more) := ⟨b, List.mem_cons_of_mem ' ' hb, more, rfl⟩
  rw [htails _ htail, hfront, List.append_assoc]
  refine congrArg (front ++ ·) ?_
  unfold endsSealed at h
  rcases hlast : lastPiece before cs with ⟨before', ds⟩
  cases ds with
  | nil => rw [spellings_nil, List.nil_append, List.nil_append, spellings_bracket hb]
  | cons c ds =>
    rw [hlast] at h
    have hrest : (step before' c ds).rest = [] := by
      have hsnd : (lastPiece before cs).2 = c :: ds := congrArg Prod.snd hlast
      have hnil := rest_eq_nil_of_lastPiece hsnd
      rwa [hlast] at hnil
    rw [List.cons_append, (extends_step (.inr h) htail).spellings_cons, spellings_cons, hrest,
      List.nil_append, spellings_nil, List.append_nil, spellings_bracket hb]

/-- In front of a text, it only matters whether signs belong to numbers. -/
lemma spellings_congr {before before' : Option Char} (h : signFolds before = signFolds before')
    (cs : List Char) : spellings before cs = spellings before' cs := by
  cases cs with
  | nil => rw [spellings_nil, spellings_nil]
  | cons c cs =>
    have hstep : step before c cs = step before' c cs := by rw [step, step, h]
    rw [spellings_cons, spellings_cons, hstep]

end ClassLang.Scan
