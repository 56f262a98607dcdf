import ClassLang.Token.Scan
import Mathlib.Data.List.Infix

set_option autoImplicit false

/-!
# The numbers of lexemes

An interner only ever grows at its end, so it keeps the numbers that it has given. A text that is
scanned once more gets the same tokens.

## Main results

* `ClassLang.Interner.intern_eq_of_isPrefix` — a lexeme keeps its number.
* `ClassLang.Scan.tokens_again` — a text that is scanned again gets the same tokens.
-/

namespace ClassLang

namespace Interner

variable {known more : Interner} {lexeme : String}

lemma isPrefix_intern (known : Interner) (lexeme : String) :
    known.lexemes <+: (known.intern lexeme).2.lexemes := by
  unfold intern
  split
  · exact List.prefix_rfl
  · exact List.prefix_append _ _

/-- The number of a lexeme stays the same as the interner grows. -/
lemma intern_eq_of_isPrefix (h : (known.intern lexeme).2.lexemes <+: more.lexemes) :
    more.intern lexeme = ((known.intern lexeme).1, more) := by
  obtain ⟨tail, htail⟩ := h
  cases hfound : known.lexemes.idxOf? lexeme with
  | some index =>
    simp only [intern, hfound] at htail ⊢
    have hmore : more.lexemes.idxOf? lexeme = some index := by
      rw [← htail, List.idxOf?, List.findIdx?_append, ← List.idxOf?, hfound, Option.some_or]
    rw [hmore]
  | none =>
    simp only [intern, hfound] at htail ⊢
    have hmore : more.lexemes.idxOf? lexeme = some known.lexemes.length := by
      rw [← htail, List.idxOf?, List.append_assoc, List.findIdx?_append, ← List.idxOf?, hfound]
      simp [List.idxOf?, List.findIdx?_cons]
    rw [hmore]

end Interner

namespace Scan

variable {known more : Interner}

lemma isPrefix_toToken (known : Interner) (p : Piece) :
    known.lexemes <+: (p.toToken known).2.lexemes := by
  simp only [Piece.toToken]
  split
  · exact (known.isPrefix_intern _).trans (Interner.isPrefix_intern _ _)
  · exact known.isPrefix_intern _

lemma toToken_eq_of_isPrefix {p : Piece} (h : (p.toToken known).2.lexemes <+: more.lexemes) :
    p.toToken more = ((p.toToken known).1, more) := by
  simp only [Piece.toToken] at h ⊢
  split
  next hsign =>
    rw [if_pos hsign] at h
    rw [Interner.intern_eq_of_isPrefix ((Interner.isPrefix_intern _ _).trans h),
      Interner.intern_eq_of_isPrefix h]
  next hsign =>
    rw [if_neg hsign] at h
    rw [Interner.intern_eq_of_isPrefix h]

lemma isPrefix_internAll (known : Interner) (ps : List Piece) :
    known.lexemes <+: (internAll known ps).2.lexemes := by
  induction ps generalizing known with
  | nil => exact List.prefix_rfl
  | cons p ps ih => exact (isPrefix_toToken known p).trans (ih _)

/-- Lexemes that have been numbered keep their numbers as the interner grows. -/
lemma internAll_eq_of_isPrefix {ps : List Piece}
    (h : (internAll known ps).2.lexemes <+: more.lexemes) :
    internAll more ps = ((internAll known ps).1, more) := by
  induction ps generalizing known with
  | nil => rfl
  | cons p ps ih =>
    have hfirst := toToken_eq_of_isPrefix ((isPrefix_internAll _ ps).trans h)
    have hrest : internAll more ps = ((internAll (p.toToken known).2 ps).1, more) := ih h
    simp only [internAll, hfirst, hrest]

/-- A text that is scanned again gets the same tokens and changes nothing. -/
theorem tokens_again (known : Interner) (source : String) :
    tokens (tokens known source).2 source = tokens known source :=
  internAll_eq_of_isPrefix List.prefix_rfl

end Scan

end ClassLang
