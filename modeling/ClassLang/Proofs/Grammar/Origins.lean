import ClassLang.Proofs.Grammar.ProgramLeaves
import ClassLang.Proofs.Grammar.Termination
import ClassLang.Proofs.Token.NumberLexemes

set_option autoImplicit false

/-!
# Where lines and bad literals come from

The tokens that a parser sees are not only those that it is given: it cuts the first character off
some, and scans the text of indices anew. Such tokens keep the line of the token that they are made
from, and a number among them is still a number. So every line in a syntax tree or a syntax error
goes back to a token of the program, and every literal that is rejected for its value is an integer
that is out of range.

## Main definitions

* `ClassLang.Grammar.Arises` — the tokens that a parser may see.
* `ClassLang.Program.lines` — the lines in a syntax tree.

## Main results

* `ClassLang.Program.lines_come_from_tokens` — lines are lines of tokens.
* `ClassLang.Program.invalid_literal_is_out_of_range` — only integers are rejected.
-/

namespace ClassLang

namespace Grammar

/-- The tokens that a parser may see instead of some given ones: these; operators and signed numbers
without their first character; and the tokens of texts that are scanned anew, on the line of the word
that is taken apart. -/
inductive Arises (ts : List Token) : Token → Prop
  | given {t : Token} (h : t ∈ ts) : Arises ts t
  | behead {t : Token} (h : Arises ts t)
      (hkind : t.kind = .operator ∨ (signOp? t).isSome = true) : Arises ts t.behead
  | rescan {t u : Token} (h : Arises ts t) (cs : List Char) (hu : u ∈ rescan t.line cs) :
      Arises ts u

variable {ts : List Token} {t : Token}

lemma line_of_mem_rescan {line : Nat} {cs : List Char} (h : t ∈ rescan line cs) : t.line = line := by
  obtain ⟨u, -, rfl⟩ := List.mem_map.1 h
  rfl

/-- No token has a line of its own. -/
lemma Arises.exists_line_eq (h : Arises ts t) : ∃ s ∈ ts, s.line = t.line := by
  induction h with
  | given h => exact ⟨_, h, rfl⟩
  | behead _ _ ih => exact ih
  | rescan _ cs hu ih => rwa [line_of_mem_rescan hu]

/-- If the given tokens are those of a text, the lexemes of numbers are numbers. -/
lemma Arises.numeric {source : String} (h : Arises (tokenize source) t) : t.Numeric := by
  induction h with
  | given h => exact Token.numeric_of_mem_tokenize h
  | behead _ hkind ih => exact ih.behead hkind
  | rescan _ _ hu _ => exact Token.numeric_of_mem_rescan hu

end Grammar

open Grammar (Arises)

/-- Lines of tokens that arise from given ones. -/
def Leaves.arising (ts : List Token) : Leaves where
  token := Arises ts
  name _ := True
  declared _ := True
  literal _ := True
  line n := ∃ t, Arises ts t ∧ t.line = n

lemma Leaves.lawful_arising (ts : List Token) : (arising ts).Lawful where
  line ht := ⟨_, ht, rfl⟩
  name _ _ := trivial
  beforeBracket _ _ := trivial
  declared _ _ := trivial
  literal _ _ := trivial
  behead ht hkind := .behead ht hkind
  rescan ht _ hu := .rescan ht _ hu

/-- The line that stands at a leaf. -/
def Leaf.line? : Leaf → Option Nat
  | .line number => some number
  | _ => none

namespace Program

/-- All lines in the syntax tree of a program. -/
def lines (p : Program) : List Nat :=
  p.leaves.filterMap Leaf.line?

variable {ts : List Token}

/-- Errors of a parse are raised by tokens that arise from the given ones. -/
lemma arising_raises {e : SyntaxError} (h : Program.ofTokens ts = .error e) :
    (Leaves.arising ts).Raises e :=
  raises_of_ofTokens (Leaves.lawful_arising ts) (fun _ => .given) h

lemma exists_line_of_mem_lines {p : Program} (h : Program.ofTokens ts = .ok p) {n : Nat}
    (hn : n ∈ p.lines) : ∃ t ∈ ts, t.line = n := by
  obtain ⟨leaf, hleaf, hline⟩ := List.mem_filterMap.1 hn
  have hhas := has_of_ofTokens (Leaves.lawful_arising ts) (fun _ => .given) h
  have hholds := (has_iff p).1 hhas leaf hleaf
  cases leaf with
  | line number =>
    obtain rfl : number = n := Option.some.inj hline
    obtain ⟨t, ht, rfl⟩ := hholds
    exact ht.exists_line_eq
  | _ => cases hline

lemma exists_line_of_error {e : SyntaxError} (h : Program.ofTokens ts = .error e) :
    e.line = 1 ∨ ∃ t ∈ ts, t.line = e.line := by
  cases arising_raises h with
  | literal ht _ => exact .inr ht.exists_line_eq
  | exhausted => exact absurd rfl ((Grammar.settles_program ts).1 _ h)
  | other _ hline =>
    rcases hline with hfirst | ⟨t, ht, hline⟩
    · exact .inl hfirst
    · obtain ⟨s, hs, hst⟩ := ht.exists_line_eq
      exact .inr ⟨s, hs, hst.trans hline⟩

/-- **Lines come from tokens.** Every line in the tree of a program is the line of one of its tokens.
So is the line of a syntax error, or it is the first line. -/
theorem lines_come_from_tokens (ts : List Token) :
    (∀ p, Program.ofTokens ts = .ok p → ∀ n ∈ p.lines, ∃ t ∈ ts, t.line = n) ∧
      ∀ e, Program.ofTokens ts = .error e → e.line = 1 ∨ ∃ t ∈ ts, t.line = e.line :=
  ⟨fun _ h _ hn => exists_line_of_mem_lines h hn, fun _ h => exists_line_of_error h⟩

/-- Tokens on lines of their own; those of the index are scanned anew. -/
def indexTokens : List Token :=
  [⟨.keyword, "public", 2, 0⟩, ⟨.keyword, "class", 3, 1⟩, ⟨.identifier, "A", 4, 2⟩,
    ⟨.operator, "\x7b", 5, 3⟩, ⟨.keyword, "int", 6, 4⟩, ⟨.identifier, "f", 7, 5⟩,
    ⟨.operator, "=", 8, 6⟩, ⟨.identifier, "a[b", 9, 7⟩, ⟨.number, "+1", 10, 8⟩,
    ⟨.operator, "]", 11, 9⟩, ⟨.operator, ";", 12, 10⟩, ⟨.operator, "\x7d", 13, 11⟩]

/-- The lines of a tree with an index, and of the error where the index is not closed. -/
theorem lines_come_from_tokens_of_index :
    (∃ p, Program.ofTokens indexTokens = .ok p ∧ p.lines = [2, 4, 7, 9, 9, 9, 9, 9] ∧
      ∀ n ∈ p.lines, ∃ t ∈ indexTokens, t.line = n) ∧
    ∃ e, Program.ofTokens (indexTokens.take 8) = .error e ∧
      (e.line = 1 ∨ ∃ t ∈ indexTokens.take 8, t.line = e.line) := by
  have hwhole : (Program.ofTokens indexTokens).toOption.map lines =
      some [2, 4, 7, 9, 9, 9, 9, 9] := by decide +kernel
  have hcut : (Program.ofTokens (indexTokens.take 8)).isOk = false := by decide +kernel
  constructor
  · cases hparsed : Program.ofTokens indexTokens with
    | error e =>
      rw [hparsed] at hwhole
      cases hwhole
    | ok p =>
      rw [hparsed] at hwhole
      exact ⟨p, rfl, Option.some.inj hwhole, (lines_come_from_tokens indexTokens).1 p hparsed⟩
  · cases hparsed : Program.ofTokens (indexTokens.take 8) with
    | error e => exact ⟨e, rfl, (lines_come_from_tokens _).2 e hparsed⟩
    | ok p =>
      rw [hparsed] at hcut
      cases hcut

/-- **Only integers out of range are invalid literals.** If a text is not parsed because of a literal,
that literal is an integer, which may have a sign in front, and its value does not fit 64 bits. All
floating-point numbers that a parser may see are read once the letters at their ends are dropped. -/
theorem invalid_literal_is_out_of_range (source : String) :
    (∀ lexeme line, Program.ofText source = .error ⟨.invalidLiteral lexeme, line⟩ →
      ∃ i, Number.Writes lexeme.toList i ∧ (i < -9223372036854775808 ∨ 9223372036854775807 < i)) ∧
    ∀ t, Arises (tokenize source) t → t.kind = .floatNumber →
      ∃ x, Number.Binary64.read? (Text.dropEndWhile Scan.isNumberSuffix t.lexeme.toList) =
        some x := by
  constructor
  · intro lexeme line h
    generalize he : (⟨.invalidLiteral lexeme, line⟩ : SyntaxError) = e at h
    cases arising_raises h with
    | literal ht hvalue =>
      obtain ⟨-, i, hi, hfits⟩ := ht.numeric.exists_of_unreadable hvalue
      simp only [SyntaxError.mk.injEq, SyntaxError.Cause.invalidLiteral.injEq] at he
      have hout : -9223372036854775808 ≤ i → 9223372036854775808 ≤ i := by
        simpa [Number.fitsInt64] using hfits
      refine ⟨i, he.1 ▸ hi, ?_⟩
      omega
    | exhausted => simp at he
    | other hcause _ => exact absurd (congrArg SyntaxError.cause he).symm (hcause lexeme)
  · intro t ht hkind
    have hnumeric : Scan.NumberText t.kind t.lexeme.toList := ht.numeric
    rw [hkind] at hnumeric
    exact Option.isSome_iff_exists.1 hnumeric.isSome_read?

lemma eq_error_of_map_eq_error {ε α β : Type} {r : Except ε α} {f : α → β} {e : ε}
    (h : r.map f = .error e) : r = .error e := by
  cases r with
  | ok x => cases h
  | error e' => exact congrArg Except.error (Except.error.inj h)

/-- A program with an integer below the range, and a number with a sign behind it. -/
def wideSource : String :=
  "public class A \x7b int x = -9223372036854775809; \x7d -.5e3f"

/-- The integer is rejected together with its sign. The other number is read without its sign too. -/
theorem invalid_literal_is_out_of_range_of_wideSource :
    Program.ofText wideSource = .error ⟨.invalidLiteral "-9223372036854775809", 1⟩ ∧
    (∃ i, Number.Writes "-9223372036854775809".toList i ∧
      (i < -9223372036854775808 ∨ 9223372036854775807 < i)) ∧
    ∃ t, Arises (tokenize wideSource) t ∧ t.spelling = (.floatNumber, ".5e3f") ∧
      ∃ x, Number.Binary64.read? (Text.dropEndWhile Scan.isNumberSuffix t.lexeme.toList) =
        some x := by
  have hparsed : Program.ofText wideSource = .error ⟨.invalidLiteral "-9223372036854775809", 1⟩ :=
    eq_error_of_map_eq_error (f := fun _ => ()) (by decide +kernel)
  have hmem : ⟨.floatNumber, "-.5e3f", 1, 12⟩ ∈ tokenize wideSource := by decide +kernel
  have harises := (Arises.given hmem).behead (.inr (by decide))
  obtain ⟨hinteger, hfloat⟩ := invalid_literal_is_out_of_range wideSource
  exact ⟨hparsed, hinteger _ _ hparsed, _, harises, by decide, hfloat _ harises rfl⟩

end Program

end ClassLang
