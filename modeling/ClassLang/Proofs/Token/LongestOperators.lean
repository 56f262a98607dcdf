import ClassLang.Proofs.Token.Tiling
import Mathlib.Data.List.Forall2
import Mathlib.Data.List.Infix

set_option autoImplicit false

/-!
# Operators are longest matches

An operator is lengthened by one character at a time, as long as the result is an operator. Nothing
longer is missed in this way, since every operator is reached through shorter ones. Signs that
numbers take in, comments and numbers that start with a point leave no operator behind that is
shorter than it could be.

## Main definitions

* `ClassLang.Scan.starts` — the places at which the lexemes of a text start.
* `ClassLang.Scan.LongestOperator` — the longest operator at the front of a text.

## Main results

* `ClassLang.Word.mem_operators_of_front` — the front of an operator is an operator.
* `ClassLang.Scan.operator_tokens_are_longest` — the operators among the tokens of a text.
-/

namespace ClassLang

/-- **The front of an operator is an operator.** -/
lemma Word.mem_operators_of_front {op front : List Char} (hop : String.ofList op ∈ operators)
    (hfront : front <+: op) (hne : front ≠ []) : String.ofList front ∈ operators := by
  have htable : (operators.all fun op => op.toList.inits.all fun front =>
      front.isEmpty || operators.contains (String.ofList front)) = true := by decide
  have hfronts := List.all_eq_true.1 htable _ hop
  rw [String.toList_ofList] at hfronts
  simpa [hne] using List.all_eq_true.1 hfronts front ((List.mem_inits _ _).2 hfront)

namespace Scan

/-- The longest operator at the front of a text. -/
structure LongestOperator (text op : List Char) : Prop where
  isOperator : String.ofList op ∈ Word.operators
  stands : op <+: text
  longest : ∀ other, String.ofList other ∈ Word.operators → other <+: text →
    other.length ≤ op.length

variable {before : Option Char} {c : Char} {cs : List Char}

/-- Lengthening an operator by single characters misses no longer one. -/
lemma longestOperator_extendOperator {text : List Char} (hne : text ≠ [])
    (h : String.ofList text ∈ Word.operators) (cs : List Char) :
    LongestOperator (text ++ cs) (extendOperator text cs).1 := by
  induction cs generalizing text with
  | nil =>
    rw [List.append_nil]
    exact ⟨h, List.prefix_rfl, fun other _ hother => hother.length_le⟩
  | cons c cs ih =>
    rw [extendOperator]
    split
    next hlonger =>
      have hmem := List.contains_iff_mem.1 hlonger
      simpa using ih (List.append_ne_nil_of_left_ne_nil hne _) hmem
    next hstop =>
      refine ⟨h, List.prefix_append _ _, fun other hother hstands => ?_⟩
      by_contra hlong
      rw [Nat.not_le] at hlong
      -- A longer operator would start with this one and the character behind it.
      have hfront : text ++ [c] <+: text ++ c :: cs := ⟨cs, by simp⟩
      have hnext : text ++ [c] <+: other := by
        refine List.prefix_of_prefix_length_le hfront hstands ?_
        rw [List.length_append]
        exact hlong
      exact hstop (List.contains_iff_mem.2 (Word.mem_operators_of_front hother hnext (by simp)))

lemma word_kind_ne (cs : List Char) : (word cs).kind ≠ some .operator := by
  rw [word]
  dsimp only
  split <;> simp

lemma stringLiteral_kind_ne (cs : List Char) : (stringLiteral cs).kind ≠ some .operator := by
  rw [stringLiteral]
  dsimp only
  split <;> simp

lemma charLiteral_kind_ne (cs : List Char) : (charLiteral cs).kind ≠ some .operator := by
  have hclose : ∀ text cs, (closeChar text cs).kind ≠ some .operator := by
    intro text cs
    unfold closeChar
    split <;> simp
  unfold charLiteral
  split <;> exact hclose _ _

/-- If the piece is an operator, it is the one that starts with `c` in front of `cs`. -/
def OperatorAt (c : Char) (cs : List Char) (s : Step) : Prop :=
  s.kind = some .operator → String.ofList [c] ∈ Word.operators ∧ s = operator c cs

lemma OperatorAt.ite {p : Prop} [Decidable p] {s t : Step} (hs : s.kind ≠ some .operator)
    (ht : OperatorAt c cs t) : OperatorAt c cs (if p then s else t) := by
  by_cases hp : p
  · rw [if_pos hp]
    exact fun hkind => absurd hkind hs
  · rwa [if_neg hp]

/-- Only where an operator starts is a token of that kind taken. -/
lemma operatorAt_step (before : Option Char) (c : Char) (cs : List Char) :
    OperatorAt c cs (step before c cs) := by
  unfold step
  refine .ite (by simp) (.ite (word_kind_ne _) (.ite (number_kind_ne _) ?_))
  refine .ite (stringLiteral_kind_ne _) (.ite (charLiteral_kind_ne _) ?_)
  refine .ite (by simp [lineComment]) (.ite (by simp [blockComment]) ?_)
  refine .ite (number_kind_ne cs) fun hkind => ?_
  by_cases hop : Word.isOperator (String.ofList [c]) = true
  · exact ⟨List.contains_iff_mem.1 hop, if_pos hop⟩
  · rw [if_neg hop] at hkind
    cases hkind

lemma longestOperator_step (h : (step before c cs).kind = some .operator) :
    LongestOperator (c :: cs) (step before c cs).text := by
  obtain ⟨hop, hstep⟩ := operatorAt_step before c cs h
  rw [hstep]
  exact longestOperator_extendOperator (List.cons_ne_nil c []) hop cs

/-- The places at which the lexemes of a text start. `passed` characters stand in front of the text,
the last one being `before`. -/
def starts (before : Option Char) (passed : Nat) (cs : List Char) : List Nat :=
  match cs with
  | [] => []
  | c :: cs =>
    let s := step before c cs
    let more := starts s.text.getLast? (passed + s.text.length) s.rest
    if s.kind.isSome then passed :: more else more
termination_by cs.length
decreasing_by exact step_rest_length_lt before c cs

/-- The lexeme stands at the place, and is the longest operator there if it is an operator. -/
def Matches (source : List Char) (p : Piece) (place : Nat) : Prop :=
  p.text <+: source.drop place ∧
    (p.kind = .operator → LongestOperator (source.drop place) p.text)

lemma forall₂_matches (source : List Char) (before : Option Char) (line : Nat) (cs : List Char) :
    ∀ passed, source.drop passed = cs →
      List.Forall₂ (Matches source) (pieces before line cs) (starts before passed cs) := by
  -- What a step leaves stands behind what it takes.
  have hrest : ∀ {before : Option Char} {c : Char} {cs : List Char} {passed : Nat},
      source.drop passed = c :: cs →
      source.drop (passed + (step before c cs).text.length) = (step before c cs).rest := by
    intro before c cs passed h
    rw [← List.drop_drop, h, ← step_text_append_rest before c cs, List.drop_left]
  fun_induction pieces before line cs with
  | case1 =>
    intro passed _
    rw [starts]
    exact .nil
  | case2 before line c cs s more kind hkind ih =>
    intro passed h
    have htext : s.text <+: c :: cs := ⟨s.rest, step_text_append_rest before c cs⟩
    rw [starts, if_pos (by simp [s, hkind])]
    refine .cons ⟨h ▸ htext, fun hop => ?_⟩ (ih _ (hrest h))
    obtain rfl : kind = .operator := hop
    exact h ▸ longestOperator_step hkind
  | case3 before line c cs s more hkind ih =>
    intro passed h
    rw [starts, if_neg (by simp [s, hkind])]
    exact ih _ (hrest h)

/-- **Operators are longest matches.** Each token of a text stands at the place at which the scanner
starts it, and if it is an operator, no longer one stands there. -/
theorem operator_tokens_are_longest (source : String) :
    List.Forall₂ (fun (t : Token) (place : Nat) => t.lexeme.toList <+: source.toList.drop place ∧
        (t.kind = .operator → LongestOperator (source.toList.drop place) t.lexeme.toList))
      (tokenize source) (starts none 0 source.toList) := by
  have hmatches := forall₂_matches source.toList none 1 source.toList 0 List.drop_zero
  rw [← map_piece_tokens .empty source, List.forall₂_map_left_iff] at hmatches
  exact hmatches

example : starts none 0 "x>>>=-1+ +".toList = [0, 1, 4, 5, 7, 9] := by decide +kernel

end Scan

end ClassLang
