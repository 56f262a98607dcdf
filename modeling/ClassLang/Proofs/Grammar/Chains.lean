import ClassLang.Proofs.Grammar.ExprRoundTrip

set_option autoImplicit false

/-!
# Operands in a row

Operands with signs between them are read whatever the signs are, but not always as the writer
grouped them: the tightest operators group first, and an assignment takes all that stands in front
of its sign for its target.

## Main definitions

* `ClassLang.Joint` — what joins two operands: an operator, or the sign of a plain assignment.
* `ClassLang.Grammar.OperandChain` — operands joined by signs of given layers.
* `ClassLang.Grammar.Exposes` — a chain with an assignment among its joints.

## Main results

* `ClassLang.Grammar.OperandChain.parses_of_pos`, `ClassLang.Grammar.OperandChain.parsed_zero` — a
  chain is read on the layer of its loosest joint.
* `ClassLang.Grammar.Exposes.parses` — a chain with an assignment in it is read as an assignment.
-/

namespace ClassLang

open Spelling (sign)

/-- What joins two operands: the sign of a plain assignment, or an operator. -/
inductive Joint where
  | assignment
  | operator (op : BinaryOp)

namespace Joint

/-- The layer of a joint. -/
def layer : Joint → Nat
  | assignment => 0
  | operator op => op.layer

/-- The text of a joint. -/
def text : Joint → String
  | assignment => "="
  | operator op => op.text

/-- The expression that joins two others. -/
def node (line : Nat) (left right : Expr) : Joint → Expr
  | assignment => .assign line left right
  | operator op => .binary line op left right

lemma layer_le_six (j : Joint) : j.layer ≤ 6 := by
  cases j with
  | assignment => exact Nat.zero_le 6
  | operator op => exact op.layer_le_six

end Joint

/-- Whether an expression is an assignment, plain or compound. -/
def Expr.isAssignment : Expr → Bool
  | .assign _ _ _ => true
  | .binary _ op _ _ => op.isAssignment
  | _ => false

/-- The compound assignments are the operators of the loosest layer. -/
lemma BinaryOp.isAssignment_iff (op : BinaryOp) : op.isAssignment = true ↔ op.layer = 0 := by
  cases op with
  | arith op => cases op <;> simp [isAssignment, layer]
  | _ => simp [isAssignment, layer]

lemma BinaryOp.one_le_layer {op : BinaryOp} (h : op.isAssignment = false) : 1 ≤ op.layer := by
  rw [Nat.one_le_iff_ne_zero]
  intro hzero
  rw [op.isAssignment_iff.2 hzero] at h
  cases h

lemma Joint.isAssignment_node {j : Joint} (hj : j.layer = 0) (line : Nat) (left right : Expr) :
    (j.node line left right).isAssignment = true := by
  cases j with
  | assignment => rfl
  | operator op => exact op.isAssignment_iff.2 hj

namespace Grammar

open ClassLang.Parser

/-! ## Operands and chains -/

/-- Spellings that are read as one operand, with operators in front of it at most. -/
structure IsOperand (ss : List Spelling) : Prop where
  starts : StartsExpr ss
  parses : ∀ b ts, ts.map Token.spelling = ss → ts.length ≤ b → ∃ e, ParsesAt b 7 ts e

/-- Operands joined by signs of layer `k` or tighter. -/
inductive OperandChain (k : Nat) : List Spelling → Prop
  | operand {ss : List Spelling} (h : IsOperand ss) : OperandChain k ss
  | join {ss more : List Spelling} {j : Joint} (h : IsOperand ss) (hj : k ≤ j.layer)
      (hmore : OperandChain k more) : OperandChain k (ss ++ sign j.text :: more)

/-- An operator in front of an operand belongs to it. -/
lemma IsOperand.front {ss : List Spelling} (h : IsOperand ss) {op : UnaryOp}
    (hop : op.standsBehind = false) : IsOperand (sign op.text :: ss) where
  starts := ⟨_, _, rfl, by cases op <;> decide, by cases op <;> decide⟩
  parses := by
    intro b ts hts hlen
    obtain ⟨t, us, rfl, ht, hus⟩ := List.map_eq_cons_iff.1 hts
    obtain ⟨e, he⟩ := h.parses b us hus (by simp only [List.length_cons] at hlen; omega)
    exact ⟨_, he.front hop ht⟩

namespace OperandChain

variable {k : Nat} {ss more : List Spelling}

lemma mono {i : Nat} (hik : i ≤ k) (h : OperandChain k ss) : OperandChain i ss := by
  induction h with
  | operand h => exact .operand h
  | join h hj _ ih => exact .join h (hik.trans hj) ih

lemma starts (h : OperandChain k ss) : StartsExpr ss := by
  cases h with
  | operand h => exact h.starts
  | join h _ _ => exact h.starts.append _

/-- An operator in front of a chain belongs to its first operand. -/
lemma front (h : OperandChain k ss) {op : UnaryOp} (hop : op.standsBehind = false) :
    OperandChain k (sign op.text :: ss) := by
  cases h with
  | operand h => exact .operand (h.front hop)
  | join h hj hmore => exact .join (h.front hop) hj hmore

/-- Two chains with a joint between them. -/
lemma append (h : OperandChain k ss) {j : Joint} (hj : k ≤ j.layer) (hmore : OperandChain k more) :
    OperandChain k (ss ++ sign j.text :: more) := by
  induction h with
  | operand h => exact .join h hj hmore
  | join h hi _ ih =>
    rw [List.append_assoc, List.cons_append]
    exact .join h hi ih

/-- A chain has no joint of its loosest layer, or there is a first one. -/
lemma split (h : OperandChain k ss) :
    OperandChain (k + 1) ss ∨ ∃ (left : List Spelling) (j : Joint) (right : List Spelling),
      ss = left ++ sign j.text :: right ∧ j.layer = k ∧ OperandChain (k + 1) left ∧
        OperandChain k right := by
  induction h with
  | operand h => exact .inl (.operand h)
  | @join ss more j h hj hmore ih =>
    rcases Nat.eq_or_lt_of_le hj with heq | hlt
    · exact .inr ⟨ss, j, more, rfl, heq.symm, .operand h, hmore⟩
    · rcases ih with htight | ⟨left, i, right, rfl, hi, hleft, hright⟩
      · exact .inl (.join h hlt htight)
      · refine .inr ⟨ss ++ sign j.text :: left, i, right, ?_, hi, .join h hlt hleft, hright⟩
        rw [List.append_assoc, List.cons_append]

end OperandChain

/-! ## Reading a chain -/

/-- All tokens with the given spellings are read on layer `k`. -/
def Parsed (k : Nat) (ss : List Spelling) : Prop :=
  ∀ b ts, ts.map Token.spelling = ss → ts.length ≤ b → ∃ e, ParsesAt b k ts e

/-- Tokens that are read with a smaller budget are read as a whole expression. -/
lemma reads_exprWithin {b : Nat} {ts : List Token} {e : Expr} (h : ParsesAt b 0 ts e) :
    ∀ rest, Follows 0 rest → Reads (exprWithin (b + 1)) (ts ++ rest) e rest :=
  h

/-- An assignment of either sort. -/
lemma parses_joint {b : Nat} {ts us : List Token} {left right : Expr} {t : Token} {j : Joint}
    (hj : j.layer = 0) (hleft : LayerReads b 1 ts left)
    (hright : ∀ rest, Follows 0 rest → Reads (exprWithin b) (us ++ rest) right rest)
    (hstarts : StartsExpr (us.map Token.spelling)) (ht : t.spelling = sign j.text) :
    ParsesAt b 0 (ts ++ t :: us) (j.node t.line left right) := by
  cases j with
  | assignment => exact parses_assign hleft hright ht (hstarts.any_isOperator (.inr rfl))
  | operator op =>
    have hop := op.isAssignment_iff.2 hj
    cases op with
    | assign op => exact parses_compound hleft hright ht
    | _ => cases hop

/-- An operator that groups to the left. -/
lemma ParsesAt.join {b k : Nat} {ts us : List Token} {left right : Expr} {t : Token} {j : Joint}
    (hk : 1 ≤ k) (hj : j.layer = k) (hleft : ParsesAt b k ts left)
    (hright : LayerReads b (k + 1) us right) (ht : t.spelling = sign j.text)
    (hlen : (ts ++ t :: us).length ≤ b) :
    ParsesAt b k (ts ++ t :: us) (j.node t.line left right) := by
  subst hj
  cases j with
  | assignment => exact absurd hk (by decide)
  | operator op => exact hleft.binary hk hright ht hlen

/-- Behind an expression of a layer, a chain of that layer goes on with it.

**Proof sketch.** Induction on the length of the chain. Up to its next joint of the layer it is read
on the tighter layer, as the right operand of the joint in front of it. -/
lemma OperandChain.parses_behind {k : Nat} (hk : 1 ≤ k) (hk' : k ≤ 6)
    (htight : ∀ ss, OperandChain (k + 1) ss → Parsed (k + 1) ss) {more : List Spelling}
    (h : OperandChain k more) {b : Nat} {ts us : List Token} {t : Token} {j : Joint} {left : Expr}
    (hleft : ParsesAt b k ts left) (hj : j.layer = k) (ht : t.spelling = sign j.text)
    (hus : us.map Token.spelling = more) (hlen : (ts ++ t :: us).length ≤ b) :
    ∃ e, ParsesAt b k (ts ++ t :: us) e := by
  induction hn : more.length using Nat.strong_induction_on generalizing more us ts t j left with
  | _ n ih =>
    have hjoin : ∀ mid vs : List Token, us = mid ++ vs →
        OperandChain (k + 1) (mid.map Token.spelling) →
          ∃ right, ParsesAt b k (ts ++ t :: mid) (j.node t.line left right) := by
      rintro mid vs rfl hmid
      simp only [List.length_append, List.length_cons] at hlen
      obtain ⟨right, hright⟩ := htight _ hmid b mid rfl (by omega)
      have hreads := hright.layerReads (by omega) (by omega)
      refine ⟨right, hleft.join hk hj hreads ht ?_⟩
      simp only [List.length_append, List.length_cons]
      omega
    rcases h.split with hmore | ⟨mid, i, more', rfl, hi, hmid, hmore⟩
    · obtain ⟨right, hright⟩ := hjoin us [] (by simp) (hus ▸ hmore)
      exact ⟨_, hright⟩
    · obtain ⟨mid', rest, rfl, rfl, hrest⟩ := List.map_eq_append_iff.1 hus
      obtain ⟨u, vs, rfl, hu, hvs⟩ := List.map_eq_cons_iff.1 hrest
      obtain ⟨right, hright⟩ := hjoin mid' _ rfl hmid
      have happend : ts ++ t :: (mid' ++ u :: vs) = (ts ++ t :: mid') ++ u :: vs := by simp
      rw [happend] at hlen ⊢
      have hshort : more'.length < n := by
        rw [← hn, List.length_append, List.length_cons]
        omega
      exact ih _ hshort hmore hright hi hu hvs hlen rfl

/-- A chain without assignments is read on the layer of its loosest joint. -/
lemma OperandChain.parses_of_pos {k : Nat} (hk : 1 ≤ k) (hk' : k ≤ 7) :
    ∀ ss, OperandChain k ss → Parsed k ss := by
  induction hk' using Nat.decreasingInduction with
  | self =>
    intro ss h
    cases h with
    | operand h => exact h.parses
    | @join _ _ j _ hj _ =>
      have := j.layer_le_six
      omega
  | of_succ k hlt ih =>
    intro ss h b ts hts hlen
    have htight := ih (by omega)
    rcases h.split with hss | ⟨left, j, right, rfl, hj, hleft, hright⟩
    · obtain ⟨e, he⟩ := htight ss hss b ts hts hlen
      exact ⟨e, he.descend (by omega) hlen⟩
    · obtain ⟨us, rest, rfl, hus, hrest⟩ := List.map_eq_append_iff.1 hts
      obtain ⟨t, vs, rfl, ht, hvs⟩ := List.map_eq_cons_iff.1 hrest
      have hlen' : us.length ≤ b := by
        rw [List.length_append] at hlen
        omega
      obtain ⟨e, he⟩ := htight left hleft b us hus hlen'
      exact hright.parses_behind hk (by omega) htight (he.descend (by omega) hlen') hj ht hvs hlen

/-! ## Chains with assignments -/

/-- A chain with an assignment among its joints. -/
def Exposes (ss : List Spelling) : Prop :=
  ∃ (left : List Spelling) (j : Joint) (right : List Spelling),
    ss = left ++ sign j.text :: right ∧ j.layer = 0 ∧ OperandChain 1 left ∧ OperandChain 0 right

namespace Exposes

variable {ss more : List Spelling}

lemma chain (h : Exposes ss) : OperandChain 0 ss := by
  obtain ⟨left, j, right, rfl, -, hleft, hright⟩ := h
  exact (hleft.mono (Nat.zero_le 1)).append (Nat.zero_le _) hright

lemma front (h : Exposes ss) {op : UnaryOp} (hop : op.standsBehind = false) :
    Exposes (sign op.text :: ss) := by
  obtain ⟨left, j, right, rfl, hj, hleft, hright⟩ := h
  exact ⟨_, j, right, rfl, hj, hleft.front hop, hright⟩

lemma append_left (h : Exposes ss) (i : Joint) (hmore : OperandChain 0 more) :
    Exposes (ss ++ sign i.text :: more) := by
  obtain ⟨left, j, right, rfl, hj, hleft, hright⟩ := h
  refine ⟨left, j, _, ?_, hj, hleft, hright.append (Nat.zero_le i.layer) hmore⟩
  rw [List.append_assoc, List.cons_append]

lemma append_right (hss : OperandChain 1 ss) {i : Joint} (hi : 1 ≤ i.layer) (h : Exposes more) :
    Exposes (ss ++ sign i.text :: more) := by
  obtain ⟨left, j, right, rfl, hj, hleft, hright⟩ := h
  refine ⟨_, j, right, ?_, hj, hss.append hi hleft, hright⟩
  rw [List.append_assoc, List.cons_append]

end Exposes

/-- The tokens behind an assignment are read with a smaller budget. -/
lemma exists_parses_joint {b : Nat} {left right : List Spelling} {j : Joint} (hj : j.layer = 0)
    (hleft : OperandChain 1 left) (hright : StartsExpr right) (hparsed : Parsed 0 right)
    {ts : List Token} (hts : ts.map Token.spelling = left ++ sign j.text :: right)
    (hlen : ts.length ≤ b) : ∃ line l r, ParsesAt b 0 ts (j.node line l r) := by
  obtain ⟨us, rest, rfl, hus, hrest⟩ := List.map_eq_append_iff.1 hts
  obtain ⟨t, vs, rfl, ht, hvs⟩ := List.map_eq_cons_iff.1 hrest
  simp only [List.length_append, List.length_cons] at hlen
  obtain ⟨b, rfl⟩ : ∃ n, b = n + 1 := ⟨b - 1, by omega⟩
  have hparsed' := OperandChain.parses_of_pos le_rfl (by decide) left hleft
  obtain ⟨l, hl⟩ := hparsed' (b + 1) us hus (by omega)
  obtain ⟨r, hr⟩ := hparsed b vs hvs (by omega)
  exact ⟨t.line, l, r, parses_joint hj (hl.layerReads (by decide) (by omega)) (reads_exprWithin hr)
    (hvs ▸ hright) ht⟩

/-- Every chain is read as a whole expression. -/
lemma OperandChain.parsed_zero {ss : List Spelling} (h : OperandChain 0 ss) : Parsed 0 ss := by
  induction hn : ss.length using Nat.strong_induction_on generalizing ss with
  | _ n ih =>
    intro b ts hts hlen
    rcases h.split with hss | ⟨left, j, right, rfl, hj, hleft, hright⟩
    · obtain ⟨e, he⟩ := parses_of_pos le_rfl (by decide) ss hss b ts hts hlen
      exact ⟨e, he.descend (Nat.zero_le 9) hlen⟩
    · have hshort : right.length < n := by
        rw [← hn, List.length_append, List.length_cons]
        omega
      obtain ⟨line, l, r, he⟩ :=
        exists_parses_joint hj hleft hright.starts (ih _ hshort hright rfl) hts hlen
      exact ⟨_, he⟩

/-- A chain with an assignment in it is read as an assignment. -/
lemma Exposes.parses {ss : List Spelling} (h : Exposes ss) {b : Nat} {ts : List Token}
    (hts : ts.map Token.spelling = ss) (hlen : ts.length ≤ b) :
    ∃ e, e.isAssignment = true ∧ ParsesAt b 0 ts e := by
  obtain ⟨left, j, right, rfl, hj, hleft, hright⟩ := h
  obtain ⟨line, l, r, he⟩ :=
    exists_parses_joint hj hleft hright.starts hright.parsed_zero hts hlen
  exact ⟨_, Joint.isAssignment_node hj line l r, he⟩

end Grammar

end ClassLang
