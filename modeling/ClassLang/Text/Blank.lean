/-!
# Blank characters

Two notions of blank space are in use. Between tokens only the five ASCII blanks count. The
reader of token dumps, and the splitting of bracket groups, go by the `White_Space` property of
Unicode instead.

## Main definitions

* `ClassLang.Text.isBlank`: the blanks that separate tokens.
* `ClassLang.Text.isWhiteSpace`: the Unicode property `White_Space`.
* `ClassLang.Text.trim`: a text without the white space at its two ends.
-/

set_option autoImplicit false

namespace ClassLang.Text

/-- Blanks between tokens: space, tab, line feed, carriage return and form feed. The vertical
tab is not among them. -/
def isBlank (c : Char) : Bool :=
  c = ' ' || c = '\t' || c = '\n' || c = '\r' || c = '\x0c'

/-- The code points of `White_Space`, as closed intervals in increasing order. -/
def whiteSpaceRanges : List (Nat × Nat) :=
  [(0x0009, 0x000D), (0x0020, 0x0020), (0x0085, 0x0085), (0x00A0, 0x00A0), (0x1680, 0x1680),
    (0x2000, 0x200A), (0x2028, 0x2029), (0x202F, 0x202F), (0x205F, 0x205F), (0x3000, 0x3000)]

/-- The Unicode property `White_Space`. -/
def isWhiteSpace (c : Char) : Bool :=
  whiteSpaceRanges.any fun range => range.1 ≤ c.toNat && c.toNat ≤ range.2

/-- `cs` without white space at its start. -/
def trimStart (cs : List Char) : List Char :=
  cs.dropWhile isWhiteSpace

/-- `cs` without the characters at its end that satisfy `p`. -/
def dropEndWhile (p : Char → Bool) (cs : List Char) : List Char :=
  (cs.reverse.dropWhile p).reverse

/-- `cs` without white space at either end. -/
def trim (cs : List Char) : List Char :=
  dropEndWhile isWhiteSpace (trimStart cs)

/-- Every blank is white space. -/
theorem isWhiteSpace_of_isBlank {c : Char} (h : isBlank c = true) : isWhiteSpace c = true := by
  simp only [isBlank, Bool.or_eq_true, decide_eq_true_eq] at h
  rcases h with (((rfl | rfl) | rfl) | rfl) | rfl <;> decide

end ClassLang.Text
