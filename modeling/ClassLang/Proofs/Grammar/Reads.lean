import ClassLang.Grammar.Basic
import Mathlib.Data.List.Basic

set_option autoImplicit false

/-!
# What a parser reads off the tokens

A successful run of a parser is described by three things only: the tokens that were to come, the
value, and the tokens that are to come afterwards. The traces that looking ahead leaves on a cursor
play no part, so a statement about all cursors with the same upcoming tokens is the right one, and
it composes along the steps of a parser.

## Main definitions

* `ClassLang.Parser.Reads` — a parser reads a value off a list of tokens and leaves another.
* `ClassLang.Token.spelling` — the kind and the lexeme of a token, without its place.

## Main results

* `ClassLang.Parser.Reads.bind` — reading in two steps.
* `ClassLang.Parser.reads_peekAt`, `ClassLang.Parser.reads_next` — what the moves read.
* `ClassLang.Parser.runFrom_withBudget`, `ClassLang.Cursor.length_upcoming_le_weight` — the budget
  of a parser is larger than the number of tokens.
-/

namespace ClassLang

/-- The kind and the lexeme of a token, without its line and its number. -/
abbrev Spelling := Kind × String

/-- What a token spells. -/
def Token.spelling (t : Token) : Spelling := (t.kind, t.lexeme)

/-- A token that spells an operator is that operator. -/
lemma Token.isOperator_of_spelling {t : Token} {op : String} (h : t.spelling = (.operator, op)) :
    t.isOperator op = true := by
  obtain ⟨hk, hl⟩ := Prod.mk.inj h
  simp [Token.isOperator, hk, hl]

/-- A token that spells one operator is no other operator. -/
lemma Token.isOperator_eq_false {t : Token} {op other : String}
    (h : t.spelling = (.operator, op)) (hne : op ≠ other) : t.isOperator other = false := by
  obtain ⟨hk, hl⟩ := Prod.mk.inj h
  simp [Token.isOperator, hl, hne]

/-- The upcoming tokens weigh at least as much as their number. -/
lemma Cursor.length_upcoming_le_weight (c : Cursor) : c.upcoming.length ≤ c.weight := by
  unfold Cursor.weight
  induction c.upcoming with
  | nil => simp
  | cons t ts ih =>
    have := t.weight_pos
    simp only [List.length_cons, List.foldr_cons]
    omega

namespace Parser

variable {α β : Type}

/-- From every cursor with the upcoming tokens `ts` the parser `p` succeeds with the value `x`,
and the upcoming tokens are `rest` then. -/
def Reads (p : Parser α) (ts : List Token) (x : α) (rest : List Token) : Prop :=
  ∀ c : Cursor, c.upcoming = ts → ∃ c', p.runFrom c = (.ok x, c') ∧ c'.upcoming = rest

/-- Two parsers one after the other, as a run. -/
lemma runFrom_bind_of_ok {p : Parser α} {f : α → Parser β} {c c' : Cursor} {x : α}
    (h : p.runFrom c = (.ok x, c')) : (p >>= f).runFrom c = (f x).runFrom c' := by
  change (match p c with | (r, d) => (ExceptT.bindCont f r) d) = f x c'
  rw [show p c = (.ok x, c') from h]
  rfl

lemma reads_pure (x : α) (ts : List Token) : Reads (pure x) ts x ts :=
  fun c hc => ⟨c, rfl, hc⟩

/-- Reading in two steps: the second parser goes on where the first has stopped. -/
lemma Reads.bind {p : Parser α} {f : α → Parser β} {ts mid rest : List Token} {x : α} {y : β}
    (hp : Reads p ts x mid) (hf : Reads (f x) mid y rest) : Reads (p >>= f) ts y rest := by
  intro c hc
  obtain ⟨d, hd, hmid⟩ := hp c hc
  obtain ⟨d', hd', hrest⟩ := hf d hmid
  exact ⟨d', by rw [runFrom_bind_of_ok hd, hd'], hrest⟩

/-! ## Moves -/

lemma reads_peekAt (n : Nat) (ts : List Token) : Reads (peekAt n) ts ts[n]? ts := by
  rintro c rfl
  exact ⟨c.fetch (n + 1), rfl, c.upcoming_fetch _⟩

lemma reads_peek_nil : Reads peek [] none [] := reads_peekAt 0 []

lemma reads_peek_cons (t : Token) (ts : List Token) : Reads peek (t :: ts) (some t) (t :: ts) :=
  reads_peekAt 0 (t :: ts)

lemma reads_next (t : Token) (ts : List Token) : Reads next (t :: ts) (some t) ts := by
  intro c hc
  refine ⟨c.advance.2, ?_, by simp [hc]⟩
  have hfst : c.advance.1 = some t := by simp [hc]
  rw [← hfst]
  rfl

/-- In front of a token, the current line is the line of that token. -/
lemma reads_currentLine (t : Token) (ts : List Token) :
    Reads currentLine (t :: ts) t.line (t :: ts) := by
  intro c hc
  have hprevious : previousLine.runFrom c = (.ok c.previousLine, c) := rfl
  rw [currentLine, runFrom_bind_of_ok hprevious]
  refine (reads_peek_cons t ts).bind ?_ c hc
  exact reads_pure _ _

/-! ## Tests of the next token -/

lemma reads_hasOperatorAt (n : Nat) (op : String) (ts : List Token) :
    Reads (hasOperatorAt n op) ts (ts[n]?.any fun t => t.isOperator op) ts :=
  (reads_peekAt n ts).bind (reads_pure _ _)

lemma reads_hasOperator (op : String) (ts : List Token) :
    Reads (hasOperator op) ts (ts.head?.any fun t => t.isOperator op) ts := by
  rw [List.head?_eq_getElem?]
  exact reads_hasOperatorAt 0 op ts

/-- The next token is the operator `op`, which is consumed. -/
lemma reads_acceptOperator_true {op : String} {t : Token} (h : t.isOperator op = true)
    (ts : List Token) : Reads (acceptOperator op) (t :: ts) true ts := by
  have hhas : Reads (hasOperator op) (t :: ts) true (t :: ts) := by
    simpa [h] using reads_hasOperator op (t :: ts)
  exact hhas.bind ((reads_next t ts).bind (reads_pure _ _))

/-- The next token is not the operator `op`, and stays. -/
lemma reads_acceptOperator_false {op : String} {ts : List Token}
    (h : (ts.head?.any fun t => t.isOperator op) = false) : Reads (acceptOperator op) ts false ts := by
  have hhas : Reads (hasOperator op) ts false ts := h ▸ reads_hasOperator op ts
  exact hhas.bind (reads_pure _ _)

lemma reads_anyToken (t : Token) (ts : List Token) : Reads anyToken (t :: ts) t ts :=
  (reads_next t ts).bind (reads_pure _ _)

lemma reads_expectOperator {op : String} {t : Token} (h : t.isOperator op = true)
    (ts : List Token) : Reads (expectOperator op) (t :: ts) t ts := by
  refine (reads_peek_cons t ts).bind ?_
  simpa [h] using reads_anyToken t ts

/-! ## Budgets -/

/-- A parser with a budget runs within one more than the weight of the tokens at hand. -/
lemma runFrom_withBudget (p : Nat → Parser α) (c : Cursor) :
    (withBudget p).runFrom c = (p (c.weight + 1)).runFrom c := by
  have hget : (get : Parser Cursor).runFrom c = (.ok c, c) := rfl
  rw [withBudget, runFrom_bind_of_ok hget]

end Parser

end ClassLang
