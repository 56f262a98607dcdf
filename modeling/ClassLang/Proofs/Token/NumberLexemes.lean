import ClassLang.Proofs.Grammar.Leaves
import ClassLang.Proofs.Token.LexemeShapes
import Mathlib.Data.List.DropRight

set_option autoImplicit false

/-!
# The lexemes of numbers

The scanner and the readers of numbers have their rules apart from each other, and this module holds
them side by side. The lexeme of an integer is a run of digits. The lexeme of a floating-point number
is a decimal, which may have its point anywhere, an exponent behind it, and a letter at its end. Both
may have a sign in front. The readers accept every such text, so of all that the scanner takes for a
number, the only texts without a value are integers that are out of range.

## Main definitions

* `ClassLang.Number.Writes` — a text is an integer with a given value.
* `ClassLang.Number.Fixed`, `ClassLang.Number.Exponent` — the parts of a decimal.
* `ClassLang.Scan.NumberText` — the lexemes of numbers.

## Main results

* `ClassLang.Number.readInt?_of_writes`, `ClassLang.Number.isSome_readDecimal?` — what the readers
  accept.
* `ClassLang.Scan.numberText_step` — what a step takes for a number is one.
* `ClassLang.Scan.NumberText.exists_writes`, `ClassLang.Scan.NumberText.isSome_read?` — the lexemes
  of numbers are accepted.
-/

namespace ClassLang

namespace Number

/-! ## Integers -/

/-- All characters are digits. -/
def AreDigits (cs : List Char) : Prop :=
  ∀ c ∈ cs, c.isDigit = true

/-- A sign or nothing. -/
def IsSign (cs : List Char) : Prop :=
  cs = [] ∨ cs = ['+'] ∨ cs = ['-']

/-- The text is an integer with the value `i`: one or more digits, which may have a sign in front. -/
inductive Writes : List Char → Int → Prop
  | unsigned {digits : List Char} (hne : digits ≠ []) (hdigits : AreDigits digits) :
      Writes digits (digitsValue 0 digits)
  | plus {digits : List Char} (hne : digits ≠ []) (hdigits : AreDigits digits) :
      Writes ('+' :: digits) (digitsValue 0 digits)
  | minus {digits : List Char} (hne : digits ≠ []) (hdigits : AreDigits digits) :
      Writes ('-' :: digits) (-digitsValue 0 digits)

lemma exists_writes {sign digits : List Char} (hsign : IsSign sign) (hne : digits ≠ [])
    (hdigits : AreDigits digits) : ∃ i, Writes (sign ++ digits) i := by
  rcases hsign with rfl | rfl | rfl
  · exact ⟨_, .unsigned hne hdigits⟩
  · exact ⟨_, .plus hne hdigits⟩
  · exact ⟨_, .minus hne hdigits⟩

lemma readDigits?_eq {digits : List Char} (hne : digits ≠ []) (hdigits : AreDigits digits) :
    readDigits? digits = some (digitsValue 0 digits) := by
  have hall : digits.all Char.isDigit = true := List.all_eq_true.2 hdigits
  simp [readDigits?, hne, hall]

/-- The reader of integers accepts every integer. -/
lemma readInt?_of_writes {cs : List Char} {i : Int} (h : Writes cs i) : readInt? cs = some i := by
  cases h with
  | unsigned hne hdigits =>
    unfold readInt?
    split
    · exact absurd (hdigits '-' List.mem_cons_self) (by decide)
    · exact absurd (hdigits '+' List.mem_cons_self) (by decide)
    · simp [readDigits?_eq hne hdigits]
  | plus hne hdigits | minus hne hdigits => simp [readInt?, readDigits?_eq hne hdigits]

/-! ## Decimals -/

/-- Digits without a point, or with a point in front of them, among them or behind them. -/
inductive Fixed : List Char → Prop
  | whole {digits : List Char} (hne : digits ≠ []) (hdigits : AreDigits digits) : Fixed digits
  | point {whole fraction : List Char} (hne : whole ≠ [] ∨ fraction ≠ []) (hwhole : AreDigits whole)
      (hfraction : AreDigits fraction) : Fixed (whole ++ '.' :: fraction)

/-- Nothing, or the letter of an exponent with an integer behind it. -/
inductive Exponent : List Char → Prop
  | none : Exponent []
  | power {e : Char} {cs : List Char} {i : Int} (he : e = 'e' ∨ e = 'E') (hcs : Writes cs i) :
      Exponent (e :: cs)

lemma Exponent.isSome_readExponent? {cs : List Char} (h : Exponent cs) :
    (Binary64.readExponent? cs).isSome = true := by
  cases h with
  | none => rfl
  | power he hcs => simp [Binary64.readExponent?, he, readInt?_of_writes hcs]

/-- Digits end in front of an exponent. -/
lemma takeWhile_append_exponent {digits cs : List Char} (hdigits : AreDigits digits)
    (h : Exponent cs) : (digits ++ cs).takeWhile Char.isDigit = digits ∧
      (digits ++ cs).dropWhile Char.isDigit = cs := by
  rw [List.takeWhile_append_of_pos hdigits, List.dropWhile_append_of_pos hdigits]
  cases h with
  | none => simp
  | power he hcs => rcases he with rfl | rfl <;> simp

/-- The reader of decimals accepts every decimal. -/
lemma isSome_readDecimal? (negative : Bool) {fixed cs : List Char} (hfixed : Fixed fixed)
    (hcs : Exponent cs) : (Binary64.readDecimal? negative (fixed ++ cs)).isSome = true := by
  have hexponent := hcs.isSome_readExponent?
  cases hfixed with
  | whole hne hdigits =>
    obtain ⟨htake, hdrop⟩ := takeWhile_append_exponent hdigits hcs
    simp only [Binary64.readDecimal?, htake, hdrop]
    cases hcs with
    | none => simp [hne, hexponent]
    | power he _ => rcases he with rfl | rfl <;> simp [hne, hexponent]
  | @point whole fraction hne hwhole hfraction =>
    obtain ⟨htake, hdrop⟩ := takeWhile_append_exponent hfraction hcs
    have hfirst : (whole ++ '.' :: (fraction ++ cs)).takeWhile Char.isDigit = whole := by
      rw [List.takeWhile_append_of_pos hwhole]
      simp
    have hrest : (whole ++ '.' :: (fraction ++ cs)).dropWhile Char.isDigit =
        '.' :: (fraction ++ cs) := by
      rw [List.dropWhile_append_of_pos hwhole]
      simp
    rw [List.append_assoc, List.cons_append]
    simp only [Binary64.readDecimal?, hfirst, hrest, htake, hdrop]
    have hsome : ¬ (whole.isEmpty && fraction.isEmpty) = true := by
      rw [Bool.and_eq_true, List.isEmpty_iff, List.isEmpty_iff, not_and_or]
      exact hne
    rw [if_neg hsome, Option.isSome_map]
    exact hexponent

end Number

namespace Scan

open Number

variable {before : Option Char} {c : Char} {cs : List Char}

/-! ## The lexemes of unsigned numbers -/

/-- The lexemes of a kind of number without a sign: digits, or a decimal with the letter that may end
it. Of other kinds nothing is said. -/
def UnsignedText : Kind → List Char → Prop
  | .number, text => text ≠ [] ∧ AreDigits text
  | .floatNumber, text => ∃ fixed exponent suffix, text = fixed ++ exponent ++ suffix ∧
    Fixed fixed ∧ Exponent exponent ∧ ∀ c ∈ suffix, isNumberSuffix c = true
  | _, _ => True

/-- A mantissa without a point is digits, one with a point has digits around it. -/
lemma mantissa_cases (hasPoint : Bool) (cs : List Char) :
    (AreDigits (mantissa hasPoint cs).text ∧ (mantissa hasPoint cs).hasPoint = hasPoint) ∨
      (hasPoint = false ∧ (mantissa hasPoint cs).hasPoint = true ∧
        ∃ whole fraction, (mantissa hasPoint cs).text = whole ++ '.' :: fraction ∧
          AreDigits whole ∧ AreDigits fraction) := by
  fun_induction mantissa hasPoint cs with
  | case1 | case2 | case5 => exact .inl ⟨by simp [AreDigits], rfl⟩
  | case3 hasPoint cs hpoint ih =>
    obtain ⟨hdigits, htrue⟩ | ⟨hfalse, -⟩ := ih
    · refine .inr ⟨by simpa using hpoint, htrue, [], _, rfl, by simp [AreDigits], hdigits⟩
    · cases hfalse
  | case4 hasPoint c cs hc hdigit ih =>
    obtain ⟨hdigits, heq⟩ | ⟨hfalse, htrue, whole, fraction, htext, hwhole, hfraction⟩ := ih
    · exact .inl ⟨List.forall_mem_cons.2 ⟨hdigit, hdigits⟩, heq⟩
    · refine .inr ⟨hfalse, htrue, c :: whole, fraction, ?_, ?_, hfraction⟩
      · simp [Mantissa.cons, htext]
      · exact List.forall_mem_cons.2 ⟨hdigit, hwhole⟩

/-- Where a number starts, the mantissa has a digit. -/
lemma fixed_mantissa (h : startsNumber cs = true) :
    Fixed (mantissa false cs).text ∧
      ((mantissa false cs).hasPoint = false → AreDigits (mantissa false cs).text) := by
  have hstarts := startsNumber_mantissa h []
  rw [List.append_nil] at hstarts
  rcases mantissa_cases false cs with ⟨hdigits, -⟩ | ⟨-, htrue, whole, fraction, htext, hw, hf⟩
  · refine ⟨.whole ?_ hdigits, fun _ => hdigits⟩
    intro hnil
    simp [hnil, startsNumber] at hstarts
  · rw [htext] at hstarts ⊢
    refine ⟨.point ?_ hw hf, by simp [htrue]⟩
    by_contra hnone
    obtain ⟨rfl, rfl⟩ := not_or.1 hnone |>.imp not_not.1 not_not.1
    simp [startsNumber] at hstarts

/-- A decimal read so far, with the letter that may follow. -/
lemma unsignedText_withSuffix {isFloat : Bool} {fixed exponent : List Char} (hfixed : Fixed fixed)
    (hexponent : Exponent exponent)
    (hwhole : isFloat = false → AreDigits (fixed ++ exponent)) (cs : List Char) :
    ∀ kind ∈ (withSuffix isFloat (fixed ++ exponent) cs).kind,
      UnsignedText kind (withSuffix isFloat (fixed ++ exponent) cs).text := by
  have hne : fixed ++ exponent ≠ [] := by
    cases hfixed <;> simp_all
  have hplain : ∀ kind ∈ some (if isFloat = true then Kind.floatNumber else .number),
      UnsignedText kind (fixed ++ exponent) := by
    rintro _ ⟨⟩
    cases isFloat with
    | true => exact ⟨fixed, exponent, [], by simp, hfixed, hexponent, by simp⟩
    | false => exact ⟨hne, hwhole rfl⟩
  unfold withSuffix
  split
  · exact hplain
  next c cs =>
    split
    next hsuffix =>
      rintro _ ⟨⟩
      exact ⟨fixed, exponent, [c], rfl, hfixed, hexponent, by simpa using hsuffix⟩
    next => exact hplain

/-- **What is taken as a number is one**, unless it is malformed. -/
lemma unsignedText_number (h : startsNumber cs = true) :
    ∀ kind ∈ (number cs).kind, UnsignedText kind (number cs).text := by
  obtain ⟨hfixed, hwhole⟩ := fixed_mantissa h
  have hplain := unsignedText_withSuffix hfixed .none (by simpa using hwhole)
  rw [number]
  generalize mantissa false cs = m at *
  split
  next =>
    rintro _ ⟨⟩
    trivial
  rw [List.append_nil] at hplain
  unfold withExponent
  split
  · exact hplain _
  next e more _ =>
    split
    next he =>
      dsimp only
      split
      next =>
        rintro _ ⟨⟩
        trivial
      next hdigits =>
        have hsign : IsSign (exponentSign more).1 := by
          unfold exponentSign
          split
          · exact .inl rfl
          · split
            next hc =>
              simp only [Bool.or_eq_true, decide_eq_true_eq] at hc
              rcases hc with rfl | rfl
              · exact .inr (.inl rfl)
              · exact .inr (.inr rfl)
            next => exact .inl rfl
        obtain ⟨i, hi⟩ := exists_writes hsign (by simpa using hdigits)
          (fun c hc => List.mem_takeWhile_imp hc)
        exact unsignedText_withSuffix hfixed (.power (by simpa using he) hi) (by simp) _
    next => exact hplain _

/-! ## Signs in front -/

/-- The lexemes of a kind of number: a sign that may be missing, and an unsigned number. -/
def NumberText (kind : Kind) (text : List Char) : Prop :=
  ∃ sign body, text = sign ++ body ∧ IsSign sign ∧ UnsignedText kind body

/-- A point or a sign in front of which no number is taken is an operator. -/
lemma kind_unsignedStep (hc : c = '.' ∨ c = '+' ∨ c = '-') (hnumber : startsNumber (c :: cs) = false) :
    (unsignedStep c cs).kind = some .operator := by
  rcases hc with rfl | rfl | rfl <;>
    simp [unsignedStep, hnumber, Text.isBlank, startsWord, operator, Word.isOperator, Word.operators]

/-- The step that takes a number takes it off the front of the text, or behind a sign. -/
lemma step_of_number {kind : Kind} (h : (step before c cs).kind = some kind)
    (hkind : kind = .number ∨ kind = .floatNumber) :
    (startsNumber (c :: cs) = true ∧ step before c cs = number (c :: cs)) ∨
      ((c = '+' ∨ c = '-') ∧ startsNumber cs = true ∧ step before c cs = signedNumber c cs) := by
  by_cases hsign : signTaken before c cs = true
  · have htaken := hsign
    simp only [signTaken, Bool.and_eq_true, Bool.or_eq_true, decide_eq_true_eq] at htaken
    exact .inr ⟨htaken.1.1, htaken.2, step_of_signTaken hsign⟩
  refine .inl ?_
  by_cases hnumber : startsNumber (c :: cs) = true
  · exact ⟨hnumber, step_of_startsNumber hnumber before⟩
  -- The shape of a number leaves a point or a sign at the front, which is an operator here.
  rw [Bool.not_eq_true] at hsign hnumber
  have hshape := shaped_step before c cs kind h
  obtain ⟨more, htext⟩ := step_text_eq_cons before c cs
  rw [shaped_iff_numeral hkind, htext] at hshape
  have hc : c = '.' ∨ c = '+' ∨ c = '-' := by
    rcases hshape.2 with ⟨d, rest, heq, hd⟩ | ⟨d, rest, heq, hd, -⟩
    · obtain ⟨rfl, -⟩ := List.cons.inj heq
      exact .inl (hd.resolve_left fun hdigit => by simp [startsNumber, hdigit] at hnumber)
    · obtain ⟨rfl, -⟩ := List.cons.inj heq
      exact .inr hd
  rw [step_of_not_signTaken hsign, kind_unsignedStep hc hnumber] at h
  rcases hkind with rfl | rfl <;> cases h

/-- **What a step takes for a number is one.** -/
lemma numberText_step (before : Option Char) (c : Char) (cs : List Char) :
    ∀ kind ∈ (step before c cs).kind, NumberText kind (step before c cs).text := by
  intro kind hkind
  by_cases hnumber : kind = .number ∨ kind = .floatNumber
  · rcases step_of_number hkind hnumber with ⟨hstarts, hstep⟩ | ⟨hc, hstarts, hstep⟩
    · rw [hstep] at hkind ⊢
      exact ⟨[], _, rfl, .inl rfl, unsignedText_number hstarts kind hkind⟩
    · rw [hstep] at hkind ⊢
      refine ⟨[c], _, rfl, ?_, unsignedText_number hstarts kind hkind⟩
      rcases hc with rfl | rfl
      · exact .inr (.inl rfl)
      · exact .inr (.inr rfl)
  · refine ⟨[], _, rfl, .inl rfl, ?_⟩
    cases kind <;> trivial

lemma numberText_of_mem_pieces {line : Nat} {p : Piece} (hp : p ∈ pieces before line cs) :
    NumberText p.kind p.text := by
  fun_induction pieces before line cs with
  | case1 => cases hp
  | case2 before line c cs s more kind hkind ih =>
    rcases List.mem_cons.1 hp with rfl | hp
    · exact numberText_step before c cs kind hkind
    · exact ih hp
  | case3 before line c cs s more hkind ih => exact ih hp

/-! ## What the readers make of them -/

variable {kind : Kind} {text : List Char}

/-- An unsigned number starts with a digit or with a point. -/
lemma UnsignedText.startsDigits (h : UnsignedText kind text)
    (hkind : kind = .number ∨ kind = .floatNumber) : StartsDigits text := by
  have hdigits : ∀ {digits : List Char}, digits ≠ [] → AreDigits digits → ∀ rest,
      StartsDigits (digits ++ rest) := by
    intro digits hne hall rest
    obtain ⟨d, more, rfl⟩ := List.exists_cons_of_ne_nil hne
    exact ⟨d, more ++ rest, rfl, .inl (hall d List.mem_cons_self)⟩
  rcases hkind with rfl | rfl
  · simpa using hdigits h.1 h.2 []
  · obtain ⟨fixed, exponent, suffix, rfl, hfixed, -, -⟩ := h
    rw [List.append_assoc]
    cases hfixed with
    | whole hne hall => exact hdigits hne hall _
    | @point whole fraction _ hwhole _ =>
      cases whole with
      | nil => exact ⟨'.', _, rfl, .inr rfl⟩
      | cons d whole => exact ⟨d, _, rfl, .inl (hwhole d List.mem_cons_self)⟩

/-- A number without its sign is a number. -/
lemma NumberText.tail (h : NumberText kind text) (hkind : kind = .number ∨ kind = .floatNumber)
    {c : Char} {rest : List Char} (htext : text = c :: rest) (hc : c = '+' ∨ c = '-') :
    NumberText kind rest := by
  obtain ⟨sign, body, rfl, hsign, hbody⟩ := h
  have hrest : rest = body := by
    rcases hsign with rfl | rfl | rfl
    · obtain ⟨d, more, rfl, hd⟩ := hbody.startsDigits hkind
      obtain ⟨rfl, -⟩ := List.cons.inj htext
      rcases hc with rfl | rfl <;> simp at hd
    · exact (List.cons.inj htext).2.symm
    · exact (List.cons.inj htext).2.symm
  exact ⟨[], rest, rfl, .inl rfl, hrest ▸ hbody⟩

/-- The lexeme of an integer has a value. -/
lemma NumberText.exists_writes (h : NumberText .number text) : ∃ i, Writes text i := by
  obtain ⟨sign, body, rfl, hsign, hne, hdigits⟩ := h
  exact Number.exists_writes hsign hne hdigits

/-- A sign is taken off an unsigned number that has one in front. -/
lemma takeSign_append {sign body : List Char} (hsign : IsSign sign) (hbody : StartsDigits body) :
    (Binary64.takeSign (sign ++ body)).2 = body := by
  rcases hsign with rfl | rfl | rfl
  · obtain ⟨c, rest, rfl, hc⟩ := hbody
    unfold Binary64.takeSign
    split
    next heq => obtain ⟨rfl, -⟩ := List.cons.inj heq; simp at hc
    next heq => obtain ⟨rfl, -⟩ := List.cons.inj heq; simp at hc
    next => rfl
  · rfl
  · rfl

/-- The letters that may stand behind a number do not stand in it. -/
lemma isNumberSuffix_eq_false {sign fixed exponent : List Char} (hsign : IsSign sign)
    (hfixed : Fixed fixed) (hexponent : Exponent exponent) :
    ∀ c ∈ sign ++ (fixed ++ exponent), isNumberSuffix c = false := by
  have hdigits : ∀ {digits : List Char}, AreDigits digits →
      ∀ c ∈ digits, isNumberSuffix c = false := by
    intro digits hall c hc
    rw [← Bool.not_eq_true]
    intro hsuffix
    have hdigit := hall c hc
    simp only [isNumberSuffix, Bool.or_eq_true, decide_eq_true_eq] at hsuffix
    rcases hsuffix with ((rfl | rfl) | rfl) | rfl <;> exact absurd hdigit (by decide)
  have hfirst : ∀ c ∈ sign, isNumberSuffix c = false := by
    rcases hsign with rfl | rfl | rfl
    · exact List.forall_mem_nil _
    · exact List.forall_mem_singleton.2 rfl
    · exact List.forall_mem_singleton.2 rfl
  have hmiddle : ∀ c ∈ fixed, isNumberSuffix c = false := by
    cases hfixed with
    | whole hne hall => exact hdigits hall
    | point hne hwhole hfraction =>
      exact List.forall_mem_append.2 ⟨hdigits hwhole,
        List.forall_mem_cons.2 ⟨by decide, hdigits hfraction⟩⟩
  have hlast : ∀ c ∈ exponent, isNumberSuffix c = false := by
    cases hexponent with
    | none => simp
    | power he hcs =>
      refine List.forall_mem_cons.2 ⟨by rcases he with rfl | rfl <;> decide, ?_⟩
      cases hcs with
      | unsigned hne hall => exact hdigits hall
      | plus hne hall | minus hne hall => exact List.forall_mem_cons.2 ⟨by decide, hdigits hall⟩
  exact List.forall_mem_append.2 ⟨hfirst, List.forall_mem_append.2 ⟨hmiddle, hlast⟩⟩

/-- The characters at the end go, and those in front of them stay. -/
lemma dropEndWhile_append {p : Char → Bool} {front back : List Char} (hfront : ∀ c ∈ front, p c = false)
    (hback : ∀ c ∈ back, p c = true) : Text.dropEndWhile p (front ++ back) = front := by
  have hself : front.rdropWhile p = front :=
    List.rdropWhile_eq_self_iff.2 fun hne => by simp [hfront _ (List.getLast_mem hne)]
  rw [Text.dropEndWhile, List.reverse_append,
    List.dropWhile_append_of_pos fun c hc => hback c (List.mem_reverse.1 hc)]
  exact hself

/-- **The lexeme of a floating-point number is accepted**, without the letter at its end. -/
lemma NumberText.isSome_read? (h : NumberText .floatNumber text) :
    (Binary64.read? (Text.dropEndWhile isNumberSuffix text)).isSome = true := by
  obtain ⟨sign, _, rfl, hsign, fixed, exponent, suffix, rfl, hfixed, hexponent, hsuffix⟩ := h
  rw [← List.append_assoc,
    dropEndWhile_append (isNumberSuffix_eq_false hsign hfixed hexponent) hsuffix]
  have hbody : StartsDigits (fixed ++ exponent) := by
    have hunsigned : UnsignedText .floatNumber (fixed ++ exponent) :=
      ⟨fixed, exponent, [], by simp, hfixed, hexponent, by simp⟩
    exact hunsigned.startsDigits (.inr rfl)
  have htail := takeSign_append hsign hbody
  simp only [Binary64.read?]
  split_ifs
  · rfl
  · rfl
  · rw [Option.isSome_map, htail]
    exact isSome_readDecimal? _ hfixed hexponent

end Scan

namespace Token

/-- If the token is a number, its lexeme is one. -/
def Numeric (t : Token) : Prop :=
  Scan.NumberText t.kind t.lexeme.toList

lemma numeric_of_mem_tokenize {source : String} {t : Token} (h : t ∈ tokenize source) :
    t.Numeric := by
  have hpiece : t.piece ∈ Scan.pieces none 1 source.toList := by
    rw [← Grammar.map_piece_tokenize]
    exact List.mem_map_of_mem h
  exact Scan.numberText_of_mem_pieces hpiece

lemma numeric_of_mem_rescan {line : Nat} {cs : List Char} {t : Token}
    (h : t ∈ Grammar.rescan line cs) : t.Numeric := by
  obtain ⟨p, hp, hkind, htext⟩ := Grammar.exists_of_mem_rescan h
  rw [Numeric, ← hkind, ← htext]
  exact Scan.numberText_of_mem_pieces hp

lemma Numeric.behead {t : Token} (ht : t.Numeric)
    (hkind : t.kind = .operator ∨ (Grammar.signOp? t).isSome = true) : t.behead.Numeric := by
  rcases hkind with hkind | hsign
  · refine ⟨[], _, rfl, .inl rfl, ?_⟩
    simp only [Token.behead, hkind, Scan.UnsignedText]
  · obtain ⟨hkind, c, rest, htext, hc⟩ := exists_of_signOp? hsign
    have hlexeme : t.behead.lexeme.toList = rest := by simp [Token.behead, htext]
    rw [Numeric, hlexeme]
    exact Scan.NumberText.tail ht hkind htext hc

/-- **The only numbers without a value are integers out of range.** -/
lemma Numeric.exists_of_unreadable {t : Token} (ht : t.Numeric) (h : t.Unreadable) :
    t.kind = .number ∧ ∃ i, Number.Writes t.lexeme.toList i ∧ Number.fitsInt64 i = false := by
  rcases h with ⟨hkind, hnone⟩ | ⟨hkind, hnone⟩
  · rw [Numeric, hkind] at ht
    obtain ⟨i, hi⟩ := ht.exists_writes
    refine ⟨hkind, i, hi, ?_⟩
    simpa [Number.readInt64?, Number.readInt?_of_writes hi] using hnone
  · rw [Numeric, hkind] at ht
    have hsome := ht.isSome_read?
    rw [Option.map_eq_none_iff.1 hnone] at hsome
    cases hsome

end Token

end ClassLang
