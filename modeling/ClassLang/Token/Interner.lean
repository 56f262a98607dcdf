/-!
# Numbering of lexemes

Lexemes are numbered from one, in the order in which they are first met.

## Main definitions

* `ClassLang.Interner`: the lexemes met so far.
* `ClassLang.Interner.intern`: the number of a lexeme, a new one if it has none.
* `ClassLang.Interner.lexeme?`: the lexeme of a number.

## Main statements

* `ClassLang.Interner.lexeme?_intern`: a number that was handed out stands for its lexeme.
* `ClassLang.Interner.lexeme?_intern_of_eq_some`: a number keeps its lexeme.
-/

set_option autoImplicit false

namespace ClassLang

/-- The distinct lexemes met so far, in the order of their first occurrence. -/
structure Interner where
  lexemes : List String := []
  deriving DecidableEq, Inhabited

namespace Interner

/-- The interner that has met no lexeme. -/
def empty : Interner := {}

/-- The number of a lexeme, and the interner that knows it. -/
def intern (known : Interner) (lexeme : String) : Nat × Interner :=
  match known.lexemes.idxOf? lexeme with
  | some index => (index + 1, known)
  | none => (known.lexemes.length + 1, ⟨known.lexemes ++ [lexeme]⟩)

/-- The lexeme that has a given number. -/
def lexeme? (known : Interner) : Nat → Option String
  | 0 => none
  | index + 1 => known.lexemes[index]?

/-- The number that `intern` gives stands for the lexeme. -/
theorem lexeme?_intern (known : Interner) (lexeme : String) :
    (known.intern lexeme).2.lexeme? (known.intern lexeme).1 = some lexeme := by
  unfold intern
  split
  · rename_i index h
    obtain ⟨hlt, heq, -⟩ := List.findIdx?_eq_some_iff_getElem.1 h
    simp only [lexeme?, List.getElem?_eq_getElem hlt, Option.some.injEq]
    simpa using heq
  · simp [lexeme?]

/-- A number that stands for a lexeme goes on doing so. -/
theorem lexeme?_intern_of_eq_some {known : Interner} {id : Nat} {old : String} (lexeme : String)
    (h : known.lexeme? id = some old) : (known.intern lexeme).2.lexeme? id = some old := by
  unfold intern
  split
  · exact h
  · cases id with
    | zero => simp [lexeme?] at h
    | succ index =>
      simp only [lexeme?] at h ⊢
      obtain ⟨hlt, -⟩ := List.getElem?_eq_some_iff.1 h
      rwa [List.getElem?_append_left hlt]

end Interner

end ClassLang
