import ClassLang.Proofs.Token.Retraction
import ClassLang.Proofs.Token.Tiling

set_option autoImplicit false

/-!
# The shapes of lexemes

Scanning lexemes again, out of their place, gives the same lexemes only if they end by themselves.
Words, numbers, operators, closed literals and most malformed lexemes do. The exceptions are
literals that reach to the end of a text because their closing quote is missing: they can only be
the last lexeme of the text.

## Main definitions

* `ClassLang.Scan.tame` — texts without quotes and comments.
* `ClassLang.Scan.Body`, `ClassLang.Scan.CharUnit` — what stands between quotes.
* `ClassLang.Scan.Whole` — lexemes that end by themselves.
* `ClassLang.Scan.Torn` — lexemes that end with the text.

## Main results

* `ClassLang.Scan.whole_or_torn` — what a step takes is of one of these two sorts.
* `ClassLang.Scan.settled_pieces` — the lexemes of a text are whole, but the last one may be torn.
-/

namespace ClassLang.Scan

/-! ## Strings -/

/-- What follows the first quotation mark of a string literal, up to the closing one or, if there is
none, to the end of the text. -/
inductive Body : Bool → List Char → Prop
  | empty : Body false []
  | backslash : Body false ['\\']
  | close : Body true ['"']
  | escape {closed : Bool} (c : Char) {cs : List Char} (h : Body closed cs) :
      Body closed ('\\' :: c :: cs)
  | plain {closed : Bool} {c : Char} {cs : List Char} (hquote : c ≠ '"') (hslash : c ≠ '\\')
      (h : Body closed cs) : Body closed (c :: cs)

lemma quoted_cons {c : Char} (hquote : c ≠ '"') (hslash : c ≠ '\\') (cs : List Char) :
    quoted (c :: cs) = (quoted cs).append [c] (lineFeeds c) := by
  cases cs with
  | nil => simp [quoted, hquote, Quoted.append]
  | cons d cs => rw [quoted, if_neg hquote, if_neg hslash]

lemma body_quoted (cs : List Char) :
    Body (quoted cs).closed (quoted cs).text ∧
      ((quoted cs).closed = false → (quoted cs).rest = []) := by
  fun_induction quoted cs with
  | case1 => exact ⟨.empty, fun _ => rfl⟩
  | case2 => exact ⟨.close, fun _ => rfl⟩
  | case3 c hquote =>
    refine ⟨?_, fun _ => rfl⟩
    by_cases hslash : c = '\\'
    · exact hslash ▸ .backslash
    · exact .plain hquote hslash .empty
  | case4 => exact ⟨.close, fun h => absurd h (by simp)⟩
  | case5 d cs _ ih => exact ⟨.escape d ih.1, ih.2⟩
  | case6 c d cs hquote hslash ih => exact ⟨.plain hquote hslash ih.1, ih.2⟩

/-- A string ends where it should: behind its closing quotation mark, or else with the text. -/
lemma Body.quoted_append {closed : Bool} {body : List Char} (h : Body closed body)
    (rest : List Char) (hend : closed = false → rest = []) :
    (quoted (body ++ rest)).text = body ∧ (quoted (body ++ rest)).rest = rest ∧
      (quoted (body ++ rest)).closed = closed := by
  induction h with
  | empty | backslash =>
    obtain rfl := hend rfl
    exact ⟨rfl, rfl, rfl⟩
  | close => cases rest <;> exact ⟨rfl, rfl, rfl⟩
  | escape c h ih =>
    obtain ⟨htext, hrest, hclose⟩ := ih hend
    exact ⟨congrArg (['\\', c] ++ ·) htext, hrest, hclose⟩
  | plain hquote hslash h ih =>
    obtain ⟨htext, hrest, hclose⟩ := ih hend
    rw [List.cons_append, quoted_cons hquote hslash]
    exact ⟨congrArg (_ :: ·) htext, hrest, hclose⟩

/-- A string that is not closed takes the whole text. -/
lemma Body.quoted_eq {body : List Char} (h : Body false body) :
    (quoted body).text = body ∧ (quoted body).rest = [] ∧ (quoted body).closed = false := by
  simpa using h.quoted_append [] fun _ => rfl

/-! ## Character literals -/

/-- What stands between the quotes of a character literal. -/
inductive CharUnit : List Char → Prop
  | plain {c : Char} (h : c ≠ '\\') : CharUnit [c]
  | escape (c : Char) : CharUnit ['\\', c]

lemma CharUnit.charLiteral_append {u : List Char} (h : CharUnit u) (rest : List Char) :
    charLiteral (u ++ rest) = closeChar ('\'' :: u) rest := by
  cases h with
  | plain hc =>
    cases rest with
    | nil => simp [charLiteral, hc]
    | cons d rest => simp [charLiteral, hc]
  | escape c => rfl

/-! ## Spaces -/

/-- Nothing, or a space with more behind it: what follows a lexeme that is set apart. -/
def Apart (rest : List Char) : Prop :=
  ∀ c ∈ rest.head?, c = ' '

lemma apart_nil : Apart [] := by
  rintro _ ⟨⟩

lemma apart_cons (rest : List Char) : Apart (' ' :: rest) := by
  rintro _ ⟨⟩
  rfl

lemma Apart.eq_nil_or {rest : List Char} (h : Apart rest) :
    rest = [] ∨ ∃ more, rest = ' ' :: more := by
  cases rest with
  | nil => exact .inl rfl
  | cons c more => exact .inr ⟨more, by rw [h c rfl]⟩

lemma closeChar_of_apart {rest : List Char} (h : Apart rest) (text : List Char) :
    closeChar text rest = { kind := some .error, text, rest } := by
  rcases h.eq_nil_or with rfl | ⟨more, rfl⟩ <;> rfl

/-! ## Texts without quotes and comments -/

/-- Whether a text is without quotes and without the start of a comment. -/
def tame : List Char → Bool
  | [] => true
  | c :: cs =>
    c ≠ '"' && c ≠ '\'' && !(c = '/' && cs.head?.any fun d => d = '/' || d = '*') && tame cs

lemma tame_of_forall {cs : List Char} (h : ∀ c ∈ cs, c ≠ '"' ∧ c ≠ '\'' ∧ c ≠ '/') :
    tame cs = true := by
  induction cs with
  | nil => rfl
  | cons c cs ih =>
    obtain ⟨hstring, hchar, hslash⟩ := h c List.mem_cons_self
    simp [tame, hstring, hchar, hslash, ih fun d hd => h d (List.mem_cons_of_mem c hd)]

/-- Texts over a class of characters without quotes and the slash are tame. -/
lemma tame_of_class {p : Char → Bool} {cs : List Char} (h : ∀ c ∈ cs, p c = true)
    (hp : p '"' = false ∧ p '\'' = false ∧ p '/' = false) : tame cs = true := by
  have hne : ∀ c ∈ cs, ∀ d, p d = false → c ≠ d := by
    rintro c hc d hd rfl
    exact absurd (h c hc) (by simp [hd])
  exact tame_of_forall fun c hc => ⟨hne c hc _ hp.1, hne c hc _ hp.2.1, hne c hc _ hp.2.2⟩

lemma tame_append {cs ds : List Char} (h : tame (cs ++ ds) = true) :
    tame cs = true ∧ tame ds = true := by
  induction cs with
  | nil => exact ⟨rfl, h⟩
  | cons c cs ih =>
    simp only [List.cons_append, tame, Bool.and_eq_true] at h ⊢
    obtain ⟨⟨hquotes, hcomment⟩, hmore⟩ := h
    refine ⟨⟨⟨hquotes, ?_⟩, (ih hmore).1⟩, (ih hmore).2⟩
    cases cs with
    | nil => simp
    | cons d cs => exact hcomment

/-! ## Numbers -/

/-- Digits, points and signs: what numbers without an exponent and a suffix consist of. -/
def isDecimal (c : Char) : Bool :=
  c.isDigit || c = '.' || c = '+' || c = '-'

/-- The characters of numbers. -/
def isNumeric (c : Char) : Bool :=
  isDecimal c || c = 'e' || c = 'E' || isNumberSuffix c

lemma isNumeric_of_isDecimal {c : Char} (h : isDecimal c = true) : isNumeric c = true := by
  simp [isNumeric, h]

lemma isDecimal_of_isDigit {c : Char} (h : c.isDigit = true) : isDecimal c = true := by
  simp [isDecimal, h]

lemma isDecimal_mantissa (hasPoint : Bool) (cs : List Char) :
    ∀ c ∈ (mantissa hasPoint cs).text, isDecimal c = true := by
  fun_induction mantissa hasPoint cs with
  | case1 | case2 | case5 => simp
  | case3 hasPoint cs _ ih => simpa [Mantissa.cons] using ⟨by decide, ih⟩
  | case4 hasPoint c cs _ hdigit ih =>
    simpa [Mantissa.cons] using ⟨isDecimal_of_isDigit hdigit, ih⟩

/-- A mantissa that was not cut before a second point ends in the same place in front of any
character that does not go on with it. -/
lemma mantissa_again {hasPoint : Bool} {cs : List Char}
    (hstop : (mantissa hasPoint cs).secondPoint = false) {c : Char} (hpoint : c ≠ '.')
    (hdigit : c.isDigit = false) (more : List Char) :
    mantissa hasPoint ((mantissa hasPoint cs).text ++ c :: more) =
      { text := (mantissa hasPoint cs).text, rest := c :: more,
        hasPoint := (mantissa hasPoint cs).hasPoint, secondPoint := false } := by
  have hnext : ∀ hasPoint, mantissa hasPoint (c :: more) =
      { text := [], rest := c :: more, hasPoint, secondPoint := false } := by
    intro hasPoint
    rw [mantissa, if_neg hpoint, if_neg (by simp [hdigit])]
  fun_induction mantissa hasPoint cs with
  | case1 | case5 => exact hnext _
  | case2 => cases hstop
  | case3 hasPoint cs hnone ih =>
    have hagain := ih hstop
    simp only [Mantissa.cons, List.cons_append]
    rw [mantissa, if_pos rfl, if_neg hnone, hagain]
    rfl
  | case4 hasPoint d cs hd hdigit' ih =>
    have hagain := ih hstop
    simp only [Mantissa.cons, List.cons_append]
    rw [mantissa, if_neg hd, if_pos hdigit', hagain]
    rfl

lemma withSuffix_spec (isFloat : Bool) {text : List Char} (htext : ∀ c ∈ text, isNumeric c = true)
    (cs : List Char) :
    ((withSuffix isFloat text cs).kind = some .number ∨
      (withSuffix isFloat text cs).kind = some .floatNumber) ∧
      ∀ c ∈ (withSuffix isFloat text cs).text, isNumeric c = true := by
  have hkind : ∀ isFloat,
      some (if isFloat = true then Kind.floatNumber else .number) = some .number ∨
      some (if isFloat = true then Kind.floatNumber else .number) = some .floatNumber := by
    intro isFloat
    cases isFloat <;> simp
  cases cs with
  | nil => exact ⟨hkind isFloat, htext⟩
  | cons c cs =>
    rw [withSuffix]
    split
    next hsuffix =>
      refine ⟨.inr rfl, fun d hd => ?_⟩
      rcases List.mem_append.1 hd with hd | hd
      · exact htext d hd
      · obtain rfl := List.mem_singleton.1 hd
        simp [isNumeric, hsuffix]
    next => exact ⟨hkind isFloat, htext⟩

/-- The sign of an exponent, set apart, is the sign again, and no digits follow it. -/
lemma exponentSign_again (cs : List Char) {rest : List Char} (hrest : Apart rest) :
    exponentSign ((exponentSign cs).1 ++ rest) = ((exponentSign cs).1, rest) := by
  have hnone : exponentSign rest = ([], rest) := by
    rcases hrest.eq_nil_or with rfl | ⟨more, rfl⟩ <;> rfl
  cases cs with
  | nil => exact hnone
  | cons c cs =>
    rw [exponentSign]
    split
    next hsign => simp [exponentSign, hsign]
    next => exact hnone

lemma isNumeric_exponentSign (cs : List Char) :
    ∀ c ∈ (exponentSign cs).1, isNumeric c = true := by
  cases cs with
  | nil => simp [exponentSign]
  | cons c cs =>
    rw [exponentSign]
    split
    next hsign =>
      simp only [Bool.or_eq_true, decide_eq_true_eq] at hsign
      simp only [List.mem_singleton, forall_eq]
      rcases hsign with rfl | rfl <;> decide
    next => simp

/-- A number, or an exponent without digits. The latter, set apart, is without digits again. -/
lemma withExponent_spec (isFloat : Bool) {text : List Char}
    (htext : ∀ c ∈ text, isNumeric c = true) (cs : List Char) :
    (∀ c ∈ (withExponent isFloat text cs).text, isNumeric c = true) ∧
      ((withExponent isFloat text cs).kind = some .number ∨
        (withExponent isFloat text cs).kind = some .floatNumber ∨
        (withExponent isFloat text cs).kind = some .error ∧ ∃ e sign, (e = 'e' ∨ e = 'E') ∧
          (withExponent isFloat text cs).text = text ++ e :: sign ∧
          ∀ rest, Apart rest → withExponent isFloat text (e :: (sign ++ rest)) =
            { kind := some .error, text := text ++ e :: sign, rest }) := by
  cases cs with
  | nil =>
    obtain ⟨hkind, hall⟩ := withSuffix_spec isFloat htext []
    exact ⟨hall, hkind.imp_right .inl⟩
  | cons e cs =>
    by_cases he : e = 'e' ∨ e = 'E'
    · have hletter : (e = 'e' || e = 'E') = true := by simpa using he
      have hsign := isNumeric_exponentSign cs
      have hnumeric : isNumeric e = true := by rcases he with rfl | rfl <;> decide
      rw [withExponent, if_pos hletter]
      dsimp only
      split
      next =>
        refine ⟨fun c hc => ?_, .inr (.inr ⟨rfl, e, _, he, rfl, fun rest hrest => ?_⟩)⟩
        · simp only [List.mem_append, List.mem_cons] at hc
          rcases hc with hc | rfl | hc
          · exact htext c hc
          · exact hnumeric
          · exact hsign c hc
        · have hdigits : rest.takeWhile Char.isDigit = [] := by
            rcases hrest.eq_nil_or with rfl | ⟨more, rfl⟩ <;> rfl
          rw [withExponent, if_pos hletter, exponentSign_again cs hrest]
          simp [hdigits]
      next =>
        have hall : ∀ c ∈ text ++ e :: ((exponentSign cs).1 ++
            (exponentSign cs).2.takeWhile Char.isDigit), isNumeric c = true := by
          intro c hc
          simp only [List.mem_append, List.mem_cons] at hc
          rcases hc with hc | rfl | hc | hc
          · exact htext c hc
          · exact hnumeric
          · exact hsign c hc
          · exact isNumeric_of_isDecimal (isDecimal_of_isDigit (List.mem_takeWhile_imp hc))
        obtain ⟨hkind, hall⟩ :=
          withSuffix_spec true hall ((exponentSign cs).2.dropWhile Char.isDigit)
        exact ⟨hall, hkind.imp_right .inl⟩
    · obtain ⟨hkind, hall⟩ := withSuffix_spec isFloat htext (e :: cs)
      rw [withExponent, if_neg (by simpa using he)]
      exact ⟨hall, hkind.imp_right .inl⟩

lemma startsNumber_mantissa {cs : List Char} (h : startsNumber cs = true) (more : List Char) :
    startsNumber ((mantissa false cs).text ++ more) = true := by
  match cs, h with
  | c :: cs, h =>
    by_cases hpoint : c = '.'
    · match cs, h with
      | [], h => simp [startsNumber, hpoint] at h
      | d :: cs, h =>
        have hd : d.isDigit = true := by simpa [startsNumber, hpoint] using h
        have hne : d ≠ '.' := by
          rintro rfl
          exact absurd hd (by decide)
        simp [mantissa, hpoint, hne, hd, Mantissa.cons, startsNumber]
    · have hc : c.isDigit = true := by simpa [startsNumber, hpoint] using h
      simp [mantissa, hpoint, hc, Mantissa.cons, startsNumber]

/-- What is taken as a number off the text `cs`: a number, a number cut before its second point, or
one without the digits of its exponent, which is the same error again if it is set apart. -/
inductive NumberTaken (cs : List Char) (s : Step) : Prop
  | number (hkind : s.kind = some .number ∨ s.kind = some .floatNumber)
      (htext : ∀ c ∈ s.text, isNumeric c = true)
  | cut (hkind : s.kind = some .error) (htext : ∀ c ∈ s.text, isDecimal c = true)
  | exponent (hkind : s.kind = some .error) (htext : ∀ c ∈ s.text, isNumeric c = true)
      (hstarts : ∀ rest, startsNumber cs = true → startsNumber (s.text ++ rest) = true)
      (hagain : ∀ rest, Apart rest →
        Scan.number (s.text ++ rest) = { kind := some .error, text := s.text, rest })

lemma numberTaken_number (cs : List Char) : NumberTaken cs (number cs) := by
  have hdecimal := isDecimal_mantissa false cs
  rw [number]
  split
  next => exact .cut rfl hdecimal
  next hpoint =>
    obtain ⟨htext, hkind⟩ := withExponent_spec (mantissa false cs).hasPoint
      (fun c hc => isNumeric_of_isDecimal (hdecimal c hc)) (mantissa false cs).rest
    rcases hkind with hkind | hkind | ⟨hkind, e, sign, he, heq, hagain⟩
    · exact .number (.inl hkind) htext
    · exact .number (.inr hkind) htext
    · refine .exponent hkind htext (fun rest hcs => ?_) fun rest hrest => ?_
      · rw [heq, List.append_assoc]
        exact startsNumber_mantissa hcs _
      · have hpoint' : e ≠ '.' := by rcases he with rfl | rfl <;> decide
        have hdigit : e.isDigit = false := by rcases he with rfl | rfl <;> decide
        rw [heq, List.append_assoc, List.cons_append, number,
          mantissa_again (by simpa using hpoint) hpoint' hdigit]
        exact hagain rest hrest

/-! ## Whole and torn lexemes -/

/-- Behind a space and with nothing or a space behind it, the text is taken as an error. -/
def Stubborn : List Char → Prop
  | [] => False
  | c :: cs => ∀ rest, Apart rest →
    step (some ' ') c (cs ++ rest) = { kind := some .error, text := c :: cs, rest }

/-- Lexemes that end by themselves. Set apart by spaces, they end where they did. -/
inductive Whole : Kind → List Char → Prop
  | word {kind : Kind} {text : List Char} (hkind : kind = .keyword ∨ kind = .identifier)
      (hstarts : ∀ c ∈ text.head?, startsWord c = true)
      (htext : ∀ c ∈ text, continuesWord c = true) : Whole kind text
  | plain {kind : Kind} {text : List Char}
      (hkind : kind = .number ∨ kind = .floatNumber ∨ kind = .operator)
      (htame : tame text = true) : Whole kind text
  | cut {text : List Char} (htext : ∀ c ∈ text, isDecimal c = true) : Whole .error text
  | stray {text : List Char} (htame : tame text = true) (hbrackets : ∀ c ∈ text, c ≠ '[' ∧ c ≠ ']')
      (hagain : Stubborn text) : Whole .error text
  | string {body : List Char} (h : Body true body) : Whole .stringLiteral ('"' :: body)
  | char {u : List Char} (h : CharUnit u) : Whole .charLiteral ('\'' :: (u ++ ['\'']))
  | misquoted {u : List Char} (h : CharUnit u) : Whole .error ('\'' :: u)

/-- Lexemes that end with the text, for want of a quote. -/
inductive Torn : List Char → Prop
  | string {body : List Char} (h : Body false body) : Torn ('"' :: body)
  | char : Torn ['\'']
  | escape : Torn ['\'', '\\']

/-- A whole lexeme that is a word has the characters of one. -/
lemma Whole.of_word {kind : Kind} {text : List Char} (h : Whole kind text)
    (hkind : kind = .keyword ∨ kind = .identifier) :
    (∀ c ∈ text.head?, startsWord c = true) ∧ ∀ c ∈ text, continuesWord c = true := by
  cases h with
  | word _ hstarts htext => exact ⟨hstarts, htext⟩
  | plain hplain => rcases hkind with rfl | rfl <;> simp at hplain
  | cut | stray | string | char | misquoted => simp at hkind

/-- A whole lexeme that is a number or an operator is tame. -/
lemma Whole.tame_of_plain {kind : Kind} {text : List Char} (h : Whole kind text)
    (hkind : kind = .number ∨ kind = .floatNumber ∨ kind = .operator) : tame text = true := by
  cases h with
  | word hword => rcases hword with rfl | rfl <;> simp at hkind
  | plain _ htame => exact htame
  | cut | stray | string | char | misquoted => simp at hkind

/-- What is taken neither as blank nor between quotes: a text without spaces. -/
structure PlainTaken (s : Step) : Prop where
  kind : ∃ kind, s.kind = some kind ∧ Whole kind s.text
  tame : tame s.text = true
  space : ' ' ∉ s.text

lemma plainTaken_word {c : Char} (hc : startsWord c = true) (cs : List Char) :
    PlainTaken (word (c :: cs)) := by
  have htext : ∀ d ∈ (word (c :: cs)).text, continuesWord d = true :=
    fun d => List.mem_takeWhile_imp
  have hstarts : ∀ d ∈ (word (c :: cs)).text.head?, startsWord d = true := by
    simp [word, continuesWord_of_startsWord hc, hc]
  refine ⟨?_, tame_of_class htext (by decide), fun hspace => absurd (htext _ hspace) (by decide)⟩
  by_cases hkeyword : Word.isKeyword (String.ofList (word (c :: cs)).text) = true
  · exact ⟨.keyword, if_pos hkeyword, .word (.inl rfl) hstarts htext⟩
  · exact ⟨.identifier, if_neg hkeyword, .word (.inr rfl) hstarts htext⟩

/-- What is true of no blank is true of characters that are not blank only. -/
lemma isBlank_eq_false {p : Char → Bool} {c : Char}
    (hp : ([' ', '\t', '\n', '\r', '\x0c'].all fun d => !p d) = true) (hc : p c = true) :
    Text.isBlank c = false := by
  rw [← Bool.not_eq_true]
  intro hblank
  have hmem : c ∈ [' ', '\t', '\n', '\r', '\x0c'] := by
    simpa [Text.isBlank, or_assoc] using hblank
  have hnot := List.all_eq_true.1 hp c hmem
  rw [hc] at hnot
  cases hnot

lemma step_of_startsWord {c : Char} (h : startsWord c = true) (before : Option Char)
    (cs : List Char) : step before c cs = word (c :: cs) := by
  have hblank : Text.isBlank c = false := isBlank_eq_false (by decide) h
  rw [step, if_neg (by rw [hblank]; decide), if_pos h]

lemma step_of_startsNumber {c : Char} {cs : List Char} (h : startsNumber (c :: cs) = true)
    (before : Option Char) : step before c cs = number (c :: cs) := by
  have hsign : signTaken before c cs = false := by
    have hne : c ≠ '+' ∧ c ≠ '-' := by
      constructor <;> rintro rfl <;> simp [startsNumber] at h
    simp [signTaken, hne]
  rw [step_of_not_signTaken hsign, unsignedStep_of_startsNumber h]

/-- Whatever of a number, with a sign in front or without one, a step takes. -/
lemma plainTaken_of_numberTaken {cs : List Char} {s t : Step} (h : NumberTaken cs s)
    (sign : List Char) (hsign : ∀ c ∈ sign, isDecimal c = true) (hkind : t.kind = s.kind)
    (htext : t.text = sign ++ s.text)
    (hagain : (∀ rest, Apart rest →
        number (s.text ++ rest) = { kind := some .error, text := s.text, rest }) →
      (∀ rest, startsNumber cs = true → startsNumber (s.text ++ rest) = true) →
      Stubborn (sign ++ s.text)) : PlainTaken t := by
  have hnumeric : ∀ c ∈ t.text, isNumeric c = true := by
    rw [htext]
    intro c hc
    rcases List.mem_append.1 hc with hc | hc
    · exact isNumeric_of_isDecimal (hsign c hc)
    · cases h with
      | number _ hall => exact hall c hc
      | cut _ hall => exact isNumeric_of_isDecimal (hall c hc)
      | exponent _ hall => exact hall c hc
  have htame := tame_of_class hnumeric (by decide)
  refine ⟨?_, htame, fun hspace => absurd (hnumeric _ hspace) (by decide)⟩
  rw [hkind]
  cases h with
  | number hs _ =>
    rcases hs with hs | hs
    · exact ⟨_, hs, .plain (.inl rfl) htame⟩
    · exact ⟨_, hs, .plain (.inr (.inl rfl)) htame⟩
  | cut hs hall =>
    refine ⟨_, hs, .cut fun c hc => ?_⟩
    rw [htext] at hc
    exact (List.mem_append.1 hc).elim (hsign c) (hall c)
  | exponent hs _ hstarts herror =>
    refine ⟨_, hs, .stray htame (fun c hc => ?_) (htext ▸ hagain herror hstarts)⟩
    constructor <;> rintro rfl <;> exact absurd (hnumeric _ hc) (by decide)

lemma plainTaken_number {cs : List Char} (h : startsNumber cs = true) : PlainTaken (number cs) := by
  refine plainTaken_of_numberTaken (numberTaken_number cs) [] (by simp) rfl rfl ?_
  intro hagain hstarts
  have hne := number_text_ne_nil h
  rw [List.nil_append]
  match htext : (number cs).text with
  | [] => exact hne htext
  | c :: more =>
    rw [htext] at hagain hstarts
    intro rest hrest
    exact (step_of_startsNumber (hstarts rest h) _).trans (hagain rest hrest)

lemma plainTaken_signedNumber {c : Char} (hc : c = '+' ∨ c = '-') {cs : List Char}
    (h : startsNumber cs = true) : PlainTaken (signedNumber c cs) := by
  have hdecimal : isDecimal c = true := by rcases hc with rfl | rfl <;> decide
  refine plainTaken_of_numberTaken (numberTaken_number cs) [c] (by simpa using hdecimal) rfl rfl ?_
  intro hagain hstarts rest hrest
  have htaken : signTaken (some ' ') c ((number cs).text ++ rest) = true := by
    have hfolds : signFolds (some ' ') = true := by decide
    simp [signTaken, hc, hfolds, hstarts rest h]
  change step (some ' ') c ((number cs).text ++ rest) = _
  rw [step_of_signTaken htaken, signedNumber, hagain rest hrest]
  rfl

lemma plainTaken_operator {c : Char} (h : Word.isOperator (String.ofList [c]) = true)
    (cs : List Char) : PlainTaken (operator c cs) := by
  have htable : ∀ op ∈ Word.operators, tame op.toList = true ∧ ' ' ∉ op.toList := by decide
  have hop := isOperator_extendOperator h cs
  rw [Word.isOperator, List.contains_iff_mem] at hop
  obtain ⟨htame, hspace⟩ := htable _ hop
  rw [String.toList_ofList] at htame hspace
  exact ⟨⟨.operator, rfl, .plain (.inr (.inr rfl)) htame⟩, htame, hspace⟩

/-- A character that starts nothing is stray wherever it stands. -/
lemma plainTaken_stray {c : Char} {cs : List Char}
    (hblank : Text.isBlank c = false) (hword : startsWord c = false)
    (hnumber : startsNumber (c :: cs) = false) (hstring : c ≠ '"') (hchar : c ≠ '\'')
    (hop : Word.isOperator (String.ofList [c]) = false) :
    PlainTaken { kind := some .error, text := [c], rest := cs } := by
  have havoid : ∀ d, Word.isOperator (String.ofList [d]) = true → c ≠ d := by
    rintro d hd rfl
    exact absurd hd (by rw [hop]; decide)
  have hpoint : c ≠ '.' := havoid '.' (by decide)
  have hslash : c ≠ '/' := havoid '/' (by decide)
  have hplus : c ≠ '+' := havoid '+' (by decide)
  have hminus : c ≠ '-' := havoid '-' (by decide)
  have hdigit : c.isDigit = false := by
    simpa [startsNumber, hpoint] using hnumber
  have hspace : ' ' ≠ c := by
    rintro rfl
    exact absurd hblank (by decide)
  have htame : tame [c] = true := by simp [tame, hstring, hchar]
  refine ⟨⟨.error, rfl, .stray htame ?_ fun rest _ => ?_⟩, htame, by simpa using hspace⟩
  · simpa using ⟨havoid '[' (by decide), havoid ']' (by decide)⟩
  · have hstarts : startsNumber (c :: rest) = false := by simp [startsNumber, hdigit, hpoint]
    simp only [step, hblank, hword, List.nil_append, hstarts, hstring, hchar, hslash, hplus, hminus,
      hop, decide_false, Bool.or_self, Bool.false_and, Bool.false_eq_true, if_false]

/-- What a step takes, as far as scanning again goes. -/
inductive Takes (c : Char) (cs : List Char) (s : Step) : Prop
  | plain (h : PlainTaken s)
  | blank (hc : Text.isBlank c = true) (hkind : s.kind = none) (htext : s.text = [c])
  | comment (hc : c = '/') (hcs : cs.head? = some '/' ∨ cs.head? = some '*') (hkind : s.kind = none)
  | string (hc : c = '"') (hs : s = stringLiteral cs)
  | char (hc : c = '\'') (hs : s = charLiteral cs)

lemma takes_step (before : Option Char) (c : Char) (cs : List Char) :
    Takes c cs (step before c cs) := by
  unfold step
  by_cases hblank : Text.isBlank c = true
  · rw [if_pos hblank]
    exact .blank hblank rfl rfl
  rw [if_neg hblank]
  by_cases hword : startsWord c = true
  · rw [if_pos hword]
    exact .plain (plainTaken_word hword cs)
  rw [if_neg hword]
  by_cases hnumber : startsNumber (c :: cs) = true
  · rw [if_pos hnumber]
    exact .plain (plainTaken_number hnumber)
  rw [if_neg hnumber]
  by_cases hstring : c = '"'
  · rw [if_pos hstring]
    exact .string hstring rfl
  rw [if_neg hstring]
  by_cases hchar : c = '\''
  · rw [if_pos hchar]
    exact .char hchar rfl
  rw [if_neg hchar]
  split
  next hcomment =>
    simp only [Bool.and_eq_true, decide_eq_true_eq] at hcomment
    exact .comment hcomment.1 (.inl hcomment.2) rfl
  next =>
    split
    next hcomment =>
      simp only [Bool.and_eq_true, decide_eq_true_eq] at hcomment
      exact .comment hcomment.1 (.inr hcomment.2) rfl
    next =>
      split
      next hsigned =>
        simp only [Bool.and_eq_true, Bool.or_eq_true, decide_eq_true_eq] at hsigned
        exact .plain (plainTaken_signedNumber hsigned.1.1 hsigned.2)
      next =>
        split
        next hop => exact .plain (plainTaken_operator hop cs)
        next hop =>
          simp only [Bool.not_eq_true] at hblank hword hnumber hop
          exact .plain (plainTaken_stray hblank hword hnumber hstring hchar hop)

/-- The start of a character literal, up to where its closing quote should be. -/
lemma charUnit_cases (cs : List Char) :
    cs = [] ∨ cs = ['\\'] ∨ ∃ u rest, CharUnit u ∧ cs = u ++ rest := by
  match cs with
  | [] => exact .inl rfl
  | ['\\'] => exact .inr (.inl rfl)
  | '\\' :: c :: rest => exact .inr (.inr ⟨['\\', c], rest, .escape c, rfl⟩)
  | c :: rest =>
    by_cases hc : c = '\\'
    · cases rest with
      | nil => exact .inr (.inl (by rw [hc]))
      | cons d rest => exact .inr (.inr ⟨['\\', d], rest, .escape d, by rw [hc]; rfl⟩)
    · exact .inr (.inr ⟨[c], rest, .plain hc, rfl⟩)

/-- **Every lexeme is whole, unless it ends with the text for want of a quote.** -/
lemma whole_or_torn {before : Option Char} {c : Char} {cs : List Char} {kind : Kind}
    (h : (step before c cs).kind = some kind) :
    Whole kind (step before c cs).text ∨
      kind = .error ∧ Torn (step before c cs).text ∧ (step before c cs).rest = [] := by
  cases takes_step before c cs with
  | plain hplain =>
    obtain ⟨kind', hkind, hwhole⟩ := hplain.kind
    obtain rfl : kind' = kind := Option.some.inj (hkind.symm.trans h)
    exact .inl hwhole
  | blank _ hkind | comment _ _ hkind => cases hkind.symm.trans h
  | string _ hs =>
    rw [hs] at h ⊢
    obtain ⟨hbody, hrest⟩ := body_quoted cs
    simp only [stringLiteral] at h ⊢
    cases hclosed : (quoted cs).closed with
    | true =>
      rw [hclosed] at h hbody
      obtain rfl := Option.some.inj h
      exact .inl (.string hbody)
    | false =>
      rw [hclosed] at h hbody
      obtain rfl := Option.some.inj h
      exact .inr ⟨rfl, .string hbody, hrest hclosed⟩
  | char _ hs =>
    rw [hs] at h ⊢
    rcases charUnit_cases cs with rfl | rfl | ⟨u, rest, hu, rfl⟩
    · obtain rfl := Option.some.inj h
      exact .inr ⟨rfl, .char, rfl⟩
    · obtain rfl := Option.some.inj h
      exact .inr ⟨rfl, .escape, rfl⟩
    · rw [hu.charLiteral_append] at h ⊢
      unfold closeChar at h ⊢
      split at h
      · obtain rfl := Option.some.inj h
        exact .inl (.char hu)
      · obtain rfl := Option.some.inj h
        exact .inl (.misquoted hu)

/-! ## The lexemes of a text -/

/-- All lexemes are whole, but the last one may be torn. -/
def Settled (ps : List Piece) : Prop :=
  ∀ pre p post, ps = pre ++ p :: post →
    Whole p.kind p.text ∨ p.kind = .error ∧ Torn p.text ∧ post = []

variable {ps qs : List Piece} {p : Piece}

lemma settled_nil : Settled [] := by
  intro pre p post h
  simp at h

lemma settled_torn (hkind : p.kind = .error) (hp : Torn p.text) : Settled [p] := by
  intro pre q post h
  rcases List.append_eq_singleton_iff.1 h.symm with ⟨-, hq⟩ | ⟨-, hq⟩
  · obtain ⟨rfl, rfl⟩ := List.cons.inj hq
    exact .inr ⟨hkind, hp, rfl⟩
  · cases hq

lemma Settled.cons (hp : Whole p.kind p.text) (hps : Settled ps) : Settled (p :: ps) := by
  intro pre q post h
  cases pre with
  | nil =>
    obtain ⟨rfl, -⟩ := List.cons.inj h
    exact .inl hp
  | cons r pre => exact hps pre q post (List.cons.inj h).2

lemma Settled.append (hqs : ∀ q ∈ qs, Whole q.kind q.text) (hps : Settled ps) :
    Settled (qs ++ ps) := by
  induction qs with
  | nil => exact hps
  | cons q qs ih =>
    obtain ⟨hq, hmore⟩ := List.forall_mem_cons.1 hqs
    exact (ih hmore).cons hq

lemma Settled.right (h : Settled (qs ++ ps)) : Settled ps := by
  rintro pre p post rfl
  exact h (qs ++ pre) p post (by simp)

/-- A lexeme with another one behind it is whole. -/
lemma Settled.whole (h : Settled (qs ++ ps)) (hps : ps ≠ []) :
    ∀ q ∈ qs, Whole q.kind q.text := by
  intro q hq
  obtain ⟨pre, post, rfl⟩ := List.append_of_mem hq
  rcases h pre q (post ++ ps) (by simp) with hwhole | ⟨-, -, hnil⟩
  · exact hwhole
  · exact absurd (List.append_eq_nil_iff.1 hnil).2 hps

/-- **The lexemes of a text are whole, but the last one may be torn.** -/
lemma settled_pieces (before : Option Char) (line : Nat) (cs : List Char) :
    Settled (pieces before line cs) := by
  fun_induction pieces before line cs with
  | case1 => exact settled_nil
  | case2 before line c cs s more kind hkind ih =>
    rcases whole_or_torn hkind with hwhole | ⟨rfl, htorn, hrest⟩
    · exact ih.cons hwhole
    · have hmore : more = [] := by
        simp only [more, s, hrest]
        rw [pieces]
      rw [hmore]
      exact settled_torn rfl htorn
  | case3 before line c cs s more hkind ih => exact ih

/-- On which line a lexeme stands makes no difference. -/
lemma Settled.reline (h : Settled ps) (line : Nat) : Settled (ps.map fun p => { p with line }) := by
  intro pre p post hmap
  obtain ⟨pre', rest, rfl, -, hrest⟩ := List.map_eq_append_iff.1 hmap
  obtain ⟨q, post', rfl, rfl, rfl⟩ := List.map_eq_cons_iff.1 hrest
  rcases h pre' q post' rfl with hwhole | ⟨hkind, htorn, rfl⟩
  · exact .inl hwhole
  · exact .inr ⟨hkind, htorn, rfl⟩

lemma text_infix_of_mem_pieces {before : Option Char} {line : Nat} {cs : List Char} {p : Piece}
    (hp : p ∈ pieces before line cs) : p.text <:+: cs := by
  fun_induction pieces before line cs with
  | case1 => cases hp
  | case2 before line c cs s more kind hkind ih =>
    have happend : s.text ++ s.rest = c :: cs := step_text_append_rest before c cs
    rcases List.mem_cons.1 hp with rfl | hp
    · exact List.IsPrefix.isInfix ⟨s.rest, happend⟩
    · exact (ih hp).trans (List.IsSuffix.isInfix ⟨s.text, happend⟩)
  | case3 before line c cs s more hkind ih =>
    exact (ih hp).trans (List.IsSuffix.isInfix ⟨s.text, step_text_append_rest before c cs⟩)

/-- A word in a text of characters that go on with a word reaches to the end of the text. -/
lemma suffix_of_mem_pieces {before : Option Char} {line : Nat} {cs : List Char}
    (hcs : ∀ c ∈ cs, continuesWord c = true) {p : Piece} (hp : p ∈ pieces before line cs)
    (hword : p.kind = .keyword ∨ p.kind = .identifier) : p.text <:+ cs := by
  fun_induction pieces before line cs with
  | case1 => cases hp
  | case2 before line c cs s more kind hkind ih =>
    have happend : s.text ++ s.rest = c :: cs := step_text_append_rest before c cs
    have hsuffix : s.rest <:+ c :: cs := ⟨s.text, happend⟩
    rcases List.mem_cons.1 hp with rfl | hp
    · have hwhole : Whole kind s.text := by
        rcases whole_or_torn hkind with hwhole | ⟨herror, -⟩
        · exact hwhole
        · simp [herror] at hword
      have hc : startsWord c = true := by
        refine (hwhole.of_word hword).1 c ?_
        obtain ⟨d, text, htext⟩ := List.exists_cons_of_ne_nil (step_text_ne_nil before c cs)
        rw [htext] at happend
        simp only [s, htext, List.head?_cons, (List.cons.inj happend).1, Option.mem_def]
      have hall : s.text = c :: cs := by
        simp only [s, step_of_startsWord hc, word]
        exact List.takeWhile_eq_self_iff.2 hcs
      exact hall ▸ List.suffix_rfl
    · exact (ih (fun d hd => hcs d (hsuffix.subset hd)) hp).trans hsuffix
  | case3 before line c cs s more hkind ih =>
    have hsuffix : s.rest <:+ c :: cs := ⟨s.text, step_text_append_rest before c cs⟩
    exact (ih (fun d hd => hcs d (hsuffix.subset hd)) hp).trans hsuffix

end ClassLang.Scan
