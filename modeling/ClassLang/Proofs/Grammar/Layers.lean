import ClassLang.Proofs.Grammar.Rendering
import Mathlib.Tactic.IntervalCases

set_option autoImplicit false

/-!
# The layers of the expression grammar

Each layer of expressions has a parser, which reads an expression of that layer or a tighter one. An
expression ends where the next token belongs to a looser layer, so what is read on a layer is read on
all looser ones too.

## Main definitions

* `ClassLang.Grammar.Ends`, `ClassLang.Grammar.Follows` — what may stand behind an expression of a
  layer without being drawn into it.
* `ClassLang.Grammar.layerParser` — the parser of a layer.
* `ClassLang.Grammar.ParsesAt` — tokens are read as an expression on a given layer.

## Main results

* `ClassLang.Grammar.ParsesAt.descend` — what is read on a layer is read on the looser one below.

## Design

Operators that group to the left are read by a loop, which has the left operand in hand when it
comes to an operator. So tokens on a layer with a loop are described by where they leave that loop:
whatever the loop reads from there is what the layer reads from the start. The budget of a loop is
only ever compared with the number of tokens.
-/

namespace ClassLang

open Spelling (sign)

namespace BinaryOp

/-- The operators of a layer. -/
def ofLayer (k : Nat) : List BinaryOp := all.filter fun op => op.layer = k

@[simp]
lemma mem_ofLayer {k : Nat} {op : BinaryOp} : op ∈ ofLayer k ↔ op.layer = k := by
  simp [ofLayer, op.mem_all]

end BinaryOp

namespace Grammar

open ClassLang.Parser

/-! ## Tokens behind an expression -/

/-- The signs that end an expression of any layer. -/
def closers : List String := [";", ")", "]", ","]

/-- A token that ends every expression of layer `k` before it: a closing sign, or an operator of a
looser layer. -/
def Ends (k : Nat) (t : Token) : Prop :=
  t.kind = .operator ∧ (t.lexeme ∈ closers ∨ (0 < k ∧ t.lexeme = "=") ∨
    ∃ op : BinaryOp, op.layer < k ∧ t.lexeme = op.text)

/-- Tokens that may stand behind an expression of layer `k`: none, or one that ends it first. -/
def Follows (k : Nat) (rest : List Token) : Prop :=
  ∀ t ∈ rest.head?, Ends k t

/-- No argument list stands behind a name. -/
def OpensNoCall (rest : List Token) : Prop :=
  ∀ t ∈ rest.head?, t.isOperator "(" = false

lemma Ends.mono {j k : Nat} {t : Token} (hjk : j ≤ k) (h : Ends j t) : Ends k t := by
  obtain ⟨hkind, hclose | ⟨hj, heq⟩ | ⟨op, hop, htext⟩⟩ := h
  · exact ⟨hkind, .inl hclose⟩
  · exact ⟨hkind, .inr (.inl ⟨by omega, heq⟩)⟩
  · exact ⟨hkind, .inr (.inr ⟨op, by omega, htext⟩)⟩

lemma Follows.mono {j k : Nat} {rest : List Token} (hjk : j ≤ k) (h : Follows j rest) :
    Follows k rest :=
  fun t ht => (h t ht).mono hjk

/-- A closing sign may stand behind every expression. -/
lemma follows_closer {t : Token} {text : String} (ht : t.spelling = sign text)
    (htext : text ∈ closers) (k : Nat) (rest : List Token) : Follows k (t :: rest) := by
  rintro _ ⟨⟩
  exact ⟨(Prod.mk.inj ht).1, .inl ((Prod.mk.inj ht).2 ▸ htext)⟩

/-- An operator of a looser layer may stand behind an expression. -/
lemma follows_op {k : Nat} {t : Token} {op : BinaryOp} (ht : t.spelling = sign op.text)
    (hop : op.layer < k) (rest : List Token) : Follows k (t :: rest) := by
  rintro _ ⟨⟩
  exact ⟨(Prod.mk.inj ht).1, .inr (.inr ⟨op, hop, (Prod.mk.inj ht).2⟩)⟩

/-- A token that ends an expression is none of the signs that go on with a primary expression. -/
lemma Ends.isOperator_eq_false {k : Nat} {t : Token} (h : Ends k t) {text : String}
    (htext : text ∈ [".", "[", "(", "++", "--"]) : t.isOperator text = false := by
  have hclosers : ∀ x ∈ closers, x ∉ [".", "[", "(", "++", "--"] := by decide
  have hops : ∀ op ∈ BinaryOp.all, op.text ∉ [".", "[", "(", "++", "--"] := by decide
  have hne : t.lexeme ≠ text := by
    rintro rfl
    obtain ⟨-, hclose | ⟨-, heq⟩ | ⟨op, -, hop⟩⟩ := h
    · exact hclosers _ hclose htext
    · rw [heq] at htext
      exact absurd htext (by decide)
    · exact hops op op.mem_all (hop ▸ htext)
  simp [Token.isOperator, hne]

/-- A token that ends an expression of layer `k` is no operator of that layer or a tighter one. -/
lemma Ends.binaryOp?_eq_none {j k : Nat} {t : Token} (h : Ends k t) (hkj : k ≤ j) :
    binaryOp? (BinaryOp.ofLayer j) t = none := by
  have hclosers : ∀ x ∈ closers, BinaryOp.ofText? x = none := by decide
  obtain ⟨hkind, hclose | ⟨-, heq⟩ | ⟨op, hop, htext⟩⟩ := h
  · simp [binaryOp?, hkind, hclosers _ hclose]
  · simp [binaryOp?, hkind, heq, show BinaryOp.ofText? "=" = none by decide]
  · have hne : op.layer ≠ j := by omega
    simp [binaryOp?, hkind, htext, hne]

/-- The spelling of an operator is read as that operator on its own layer. -/
lemma binaryOp?_of_spelling {t : Token} {op : BinaryOp} (ht : t.spelling = sign op.text) :
    binaryOp? (BinaryOp.ofLayer op.layer) t = some op := by
  obtain ⟨hkind, htext⟩ := Prod.mk.inj ht
  simp [binaryOp?, hkind, htext]

/-- A token that ends an assignment is no assignment sign. -/
lemma Ends.isOperator_assign {t : Token} (h : Ends 0 t) : t.isOperator "=" = false := by
  have hclosers : ∀ x ∈ closers, x ≠ "=" := by decide
  obtain ⟨-, hclose | ⟨h0, -⟩ | ⟨op, h0, -⟩⟩ := h
  · simp [Token.isOperator, hclosers _ hclose]
  · omega
  · omega

lemma Ends.signOp?_eq_none {k : Nat} {t : Token} (h : Ends k t) : signOp? t = none := by
  simp [signOp?, h.1]

lemma Ends.trailingStep?_eq_none {k : Nat} {t : Token} (h : Ends k t) : trailingStep? t = none := by
  simp [trailingStep?, h.isOperator_eq_false]

lemma Follows.opensNoCall {k : Nat} {rest : List Token} (h : Follows k rest) : OpensNoCall rest :=
  fun t ht => (h t ht).isOperator_eq_false (by decide)

/-- Behind an expression there is none of the signs that go on with a primary expression. -/
lemma Follows.any_isOperator {k : Nat} {rest : List Token} (h : Follows k rest) {text : String}
    (htext : text ∈ [".", "[", "(", "++", "--"]) :
    (rest.head?.any fun t => t.isOperator text) = false := by
  cases rest with
  | nil => rfl
  | cons t rest => exact (h t rfl).isOperator_eq_false htext

lemma OpensNoCall.reads_hasOperator {rest : List Token} (h : OpensNoCall rest) :
    Reads (hasOperator "(") rest false rest := by
  have hno : (rest.head?.any fun t => t.isOperator "(") = false := by
    cases rest with
    | nil => rfl
    | cons t rest => exact h t rfl
  exact hno ▸ Parser.reads_hasOperator "(" rest

/-! ## The parsers of the layers -/

/-- The parser of a layer, with `exprWithin b` for what stands in brackets. -/
def layerParser (b : Nat) : Nat → Parser Expr
  | 0 => assignment (exprWithin b) (b + 1)
  | 1 => disjunction (exprWithin b) (b + 1)
  | 2 => conjunction (exprWithin b) (b + 1)
  | 3 => equality (exprWithin b) (b + 1)
  | 4 => relation (exprWithin b) (b + 1)
  | 5 => sum (exprWithin b) (b + 1)
  | 6 => product (exprWithin b) (b + 1)
  | 7 => unaryOf (operand (exprWithin b) (b + 1)) (b + 1)
  | 8 | 9 => operand (exprWithin b) (b + 1)
  | _ => primaryOf (exprWithin b) (b + 1)

/-- The loop of a layer of operators with two operands, when `left` has been read. -/
def binaryLoop (b k steps : Nat) (left : Expr) : Parser Expr :=
  if k = 5 then sumFrom (layerParser b 6) steps left
  else chainFrom (BinaryOp.ofLayer k) (layerParser b (k + 1)) steps left

/-- A layer of operators with two operands reads a tighter operand and then goes round its loop. -/
lemma layerParser_eq_bind (b : Nat) {k : Nat} (h1 : 1 ≤ k) (h6 : k ≤ 6) :
    layerParser b k = layerParser b (k + 1) >>= binaryLoop b k (b + 1) := by
  interval_cases k <;> rfl

/-- The loop of a layer ends at a token that ends an expression of the layer. -/
lemma binaryLoop_stop (b k steps : Nat) (left : Expr) {rest : List Token} (h : Follows k rest) :
    Reads (binaryLoop b k (steps + 1) left) rest left rest := by
  unfold binaryLoop
  cases rest with
  | nil => split <;> exact reads_peek_nil.bind (reads_pure _ _)
  | cons t rest =>
    have hop := (h t rfl).binaryOp?_eq_none le_rfl
    split
    · next h5 =>
      subst h5
      refine (reads_peek_cons t rest).bind ?_
      have hsum : binaryOp? [.arith .add, .arith .sub] t = none := hop
      simp only [hsum, (h t rfl).signOp?_eq_none]
      exact reads_pure _ _
    · refine (reads_peek_cons t rest).bind ?_
      simp only [hop]
      exact reads_pure _ _

/-- At an operator of its layer the loop reads the right operand and goes round again. -/
lemma binaryLoop_step {b steps : Nat} {left right y : Expr} {t : Token} {op : BinaryOp}
    {ts mid rest : List Token} (ht : t.spelling = sign op.text)
    (hright : Reads (layerParser b (op.layer + 1)) ts right mid)
    (hloop : Reads (binaryLoop b op.layer steps (.binary t.line op left right)) mid y rest) :
    Reads (binaryLoop b op.layer (steps + 1) left) (t :: ts) y rest := by
  have hop := binaryOp?_of_spelling ht
  unfold binaryLoop at hloop ⊢
  split
  · next h5 =>
    rw [if_pos h5] at hloop
    rw [h5] at hop hright
    refine (reads_peek_cons t ts).bind ?_
    have hsum : binaryOp? [.arith .add, .arith .sub] t = some op := hop
    simp only [hsum]
    exact (reads_next t ts).bind (hright.bind hloop)
  · next h5 =>
    rw [if_neg h5] at hloop
    refine (reads_peek_cons t ts).bind ?_
    simp only [hop]
    exact (reads_next t ts).bind (hright.bind hloop)

/-- The loop behind a primary expression ends at a token that ends an expression. -/
lemma trailers_stop {inner : Parser Expr} {budget steps k : Nat} (e : Expr) {rest : List Token}
    (h : Follows k rest) : Reads (trailers inner budget (steps + 1) e) rest e rest := by
  refine (reads_acceptOperator_false (h.any_isOperator (by decide))).bind ?_
  have hno : (rest.head?.any fun t => t.isOperator "[") = false := h.any_isOperator (by decide)
  have hopen : Reads (hasOperator "[") rest false rest := hno ▸ reads_hasOperator "[" rest
  refine hopen.bind ?_
  cases rest with
  | nil => exact reads_peek_nil.bind (reads_pure _ _)
  | cons t rest =>
    refine (reads_peek_cons t rest).bind ?_
    simp only [Option.bind_some, (h t rfl).trailingStep?_eq_none]
    exact reads_pure _ _

/-! ## Tokens that are read on a layer -/

/-- Whatever ends an expression of layer `k`, the parser of the layer reads `e` before it. -/
def LayerReads (b k : Nat) (ts : List Token) (e : Expr) : Prop :=
  ∀ rest, Follows k rest → Reads (layerParser b k) (ts ++ rest) e rest

/-- The first token is no operator in front of an operand. -/
def StartsOperand (ts : List Token) : Prop :=
  ∃ t more, ts = t :: more ∧ leadingOp? t = none

/-- The tokens `ts` are read as `e` on layer `k`. On a layer with a loop this tells how the loop
goes on behind them, with at most as many steps used up as there are tokens. -/
def ParsesAt (b : Nat) : Nat → List Token → Expr → Prop
  | 0, ts, e => LayerReads b 0 ts e
  | 7, ts, e => ∀ steps, ts.length < steps → ∀ rest, Follows 7 rest →
      Reads (unaryOf (layerParser b 8) steps) (ts ++ rest) e rest
  | 8, ts, e => StartsOperand ts ∧ LayerReads b 8 ts e
  | 9, ts, e => StartsOperand ts ∧ ∃ steps, b + 1 ≤ steps + ts.length ∧
      ∀ rest, OpensNoCall rest → ∀ y last,
        Reads (trailers (exprWithin b) (b + 1) steps e) rest y last →
          Reads (layerParser b 9) (ts ++ rest) y last
  | 10, ts, e => StartsOperand ts ∧
      ∀ rest, OpensNoCall rest → Reads (layerParser b 10) (ts ++ rest) e rest
  | k, ts, e => ∃ steps, b + 1 ≤ steps + ts.length ∧
      ∀ rest, Follows (k + 1) rest → ∀ y last,
        Reads (binaryLoop b k steps e) rest y last → Reads (layerParser b k) (ts ++ rest) y last

/-- The case of a layer of operators with two operands. -/
lemma parsesAt_binary {b k : Nat} (h1 : 1 ≤ k) (h6 : k ≤ 6) {ts : List Token} {e : Expr} :
    ParsesAt b k ts e ↔ ∃ steps, b + 1 ≤ steps + ts.length ∧
      ∀ rest, Follows (k + 1) rest → ∀ y last,
        Reads (binaryLoop b k steps e) rest y last →
          Reads (layerParser b k) (ts ++ rest) y last := by
  interval_cases k <;> rfl

/-- What is read on a layer is read by its parser. -/
lemma ParsesAt.layerReads {b k : Nat} (hk : k ≤ 8) {ts : List Token} {e : Expr}
    (h : ParsesAt b k ts e) (hlen : ts.length ≤ b) : LayerReads b k ts e := by
  intro rest hrest
  rcases (by omega : k = 0 ∨ (1 ≤ k ∧ k ≤ 6) ∨ k = 7 ∨ k = 8) with rfl | ⟨h1, h6⟩ | rfl | rfl
  · exact h rest hrest
  · obtain ⟨steps, hsteps, hloop⟩ := (parsesAt_binary h1 h6).mp h
    obtain ⟨steps, rfl⟩ : ∃ n, steps = n + 1 := ⟨steps - 1, by omega⟩
    exact hloop rest (hrest.mono (Nat.le_succ k)) e rest (binaryLoop_stop b k steps e hrest)
  · exact h (b + 1) (by omega) rest hrest
  · exact h.2 rest hrest

/-- What is read on a layer is read on the looser one below it.

**Proof sketch.** Nothing behind the tokens belongs to the looser layer, so its loop ends at once,
and no operator in front starts them. -/
lemma ParsesAt.descend {b k : Nat} (hk : k ≤ 9) {ts : List Token} {e : Expr}
    (hlen : ts.length ≤ b) (h : ParsesAt b (k + 1) ts e) : ParsesAt b k ts e := by
  rcases (by omega : k = 0 ∨ (1 ≤ k ∧ k ≤ 6) ∨ k = 7 ∨ k = 8 ∨ k = 9) with
    rfl | ⟨h1, h6⟩ | rfl | rfl | rfl
  · -- no assignment operator follows
    intro rest hrest
    refine (h.layerReads (by omega) hlen rest (hrest.mono (Nat.zero_le 1))).bind ?_
    cases rest with
    | nil => exact reads_peek_nil.bind (reads_pure _ _)
    | cons t rest =>
      refine (reads_peek_cons t rest).bind ?_
      have hplain : t.isOperator "=" = false := (hrest t rfl).isOperator_assign
      have hcompound : binaryOp? compoundOps t = none := (hrest t rfl).binaryOp?_eq_none le_rfl
      simp only [hplain, hcompound, Bool.false_eq_true, if_false]
      exact reads_pure _ _
  · have hread := h.layerReads (by omega) hlen
    refine (parsesAt_binary h1 h6).mpr ⟨b + 1, by omega, fun rest hrest y last hloop => ?_⟩
    rw [layerParser_eq_bind b h1 h6]
    exact (hread rest hrest).bind hloop
  · obtain ⟨⟨t, more, rfl, hfront⟩, hread⟩ := h
    intro steps hsteps rest hrest
    obtain ⟨steps, rfl⟩ : ∃ n, steps = n + 1 := ⟨steps - 1, by omega⟩
    refine (reads_peek_cons t (more ++ rest)).bind ?_
    simp only [hfront]
    exact hread rest (hrest.mono (Nat.le_succ 7))
  · obtain ⟨hstart, steps, hsteps, hloop⟩ := h
    obtain ⟨steps, rfl⟩ : ∃ n, steps = n + 1 := ⟨steps - 1, by omega⟩
    exact ⟨hstart, fun rest hrest => hloop rest hrest.opensNoCall e rest (trailers_stop e hrest)⟩
  · obtain ⟨hstart, hread⟩ := h
    exact ⟨hstart, b + 1, by omega, fun rest hrest y last hloop => (hread rest hrest).bind hloop⟩

/-- What is read on a layer is read on all looser ones. -/
lemma ParsesAt.mono {b j k : Nat} (hjk : j ≤ k) (hk : k ≤ 10) {ts : List Token} {e : Expr}
    (hlen : ts.length ≤ b) (h : ParsesAt b k ts e) : ParsesAt b j ts e := by
  induction k, hjk using Nat.le_induction with
  | base => exact h
  | succ k _ ih => exact ih (by omega) (h.descend (by omega) hlen)

end Grammar

end ClassLang
