import ClassLang.Proofs.Grammar.ProgramLockstep

set_option autoImplicit false

/-!
# Budgets are never used up

The parser is written with budgets, which make its recursion structural. They are a matter of form
only. Each entry point gives the same result with every budget above the weight of the tokens, and
never the error that the budget has run out. Behind this is a measure of the recursion: whenever a
type, an expression or a statement asks for an inner one, the tokens that are left, or that have
been scanned anew, are lighter than those it started with. Tokens that are put back do not change
that.

## Main definitions

* `ClassLang.Parser.below` — a parser that may be entered on light tokens only.
* `ClassLang.Grammar.Settles` — the result of an entry point does not depend on the budget.
* `ClassLang.Grammar.Descends` — all recursive entries are made on lighter tokens.

## Main results

* `ClassLang.Grammar.entries_settle_and_descend` — this holds of all entry points, and of the
  recursion of types, expressions and statements.
-/

namespace ClassLang

namespace Parser

variable {α : Type}

/-- Parsers in lockstep have the same result, which is not that a budget has run out. -/
lemma Lockstep.onTokens_eq {n : Nat} {p q : Parser α} (h : Lockstep n p q) {ts : List Token}
    (hts : totalWeight ts < n) : p.onTokens ts = q.onTokens ts ∧
      ∀ e, p.onTokens ts = .error e → e.cause ≠ .budgetExhausted := by
  have hrun := h ts hts (abreast_ofTokens ts) rfl
  rw [onTokens, onTokens]
  rcases hp : p.runFrom (.ofTokens ts) with ⟨r, c⟩
  rcases hq : q.runFrom (.ofTokens ts) with ⟨s, d⟩
  rw [hp, hq] at hrun
  cases hrun with
  | ok => exact ⟨rfl, fun e he => by cases he⟩
  | error hsame hbudget =>
    obtain rfl := hsame rfl
    refine ⟨rfl, ?_⟩
    rintro e ⟨⟩
    exact hbudget rfl

lemma onTokens_withBudget (within : Nat → Parser α) (ts : List Token) :
    (withBudget within).onTokens ts = (within (totalWeight ts + 1)).onTokens ts := by
  rw [onTokens, runFrom_withBudget]
  rfl

/-- The parser `p`, which fails for want of a budget when it is entered on tokens that weigh `n` or
more. -/
def below (n : Nat) (p : Parser α) : Parser α := do
  if (← get).weight < n then p else exhausted

/-- On light tokens the guard does not matter. -/
lemma Consumes.below {n : Nat} {p q : Parser α} (h : Consumes n p q) :
    Consumes n (below n p) q := by
  intro ts hts F G c d hcd hup
  have hget : (get : Parser Cursor).runFrom c = (.ok c, c) := rfl
  have hlight : c.weight < n := by rwa [Cursor.weight_eq, hup]
  have hbelow : (Parser.below n p).runFrom c = p.runFrom c := by
    rw [Parser.below, runFrom_bind_of_ok hget, if_pos hlight]
  rw [hbelow]
  exact h ts hts hcd hup

end Parser

namespace Grammar

open ClassLang.Parser

variable {α : Type}

/-! ## Entry points -/

/-- On the tokens `ts` the entry point `entry` does not run out of its budget, and `within` gives
the same result with every budget above the weight of the tokens. -/
def Settles (entry : Parser α) (within : Nat → Parser α) (ts : List Token) : Prop :=
  (∀ e, entry.onTokens ts = .error e → e.cause ≠ .budgetExhausted) ∧
    ∀ budget, totalWeight ts < budget → (within budget).onTokens ts = entry.onTokens ts

/-- An entry point settles if it is in lockstep with itself under other budgets. -/
lemma settles_of_lockstep {within : Nat → Parser α} (ts : List Token)
    (h : ∀ {n a b : Nat}, n ≤ a → n ≤ b → Lockstep n (within a) (within b)) :
    Settles (withBudget within) within ts := by
  rw [Settles, onTokens_withBudget]
  constructor
  · exact ((h (Nat.le_refl _) (Nat.le_refl _)).onTokens_eq (Nat.lt_succ_self _)).2
  · intro budget hbudget
    exact ((h hbudget (Nat.le_refl _)).onTokens_eq (Nat.lt_succ_self _)).1

lemma settles_program (ts : List Token) : Settles program programWithin ts := by
  have hverdict : ∀ {a b : Nat}, totalWeight ts < a → totalWeight ts < b →
      Verdict none none ((programWithin a).onTokens ts) ((programWithin b).onTokens ts) :=
    fun ha hb => verdict_programWithin (abreast_ofTokens ts) ha hb
  rw [Settles, program, onTokens_withBudget]
  constructor
  · intro e he
    rcases hverdict (Nat.lt_succ_self _) (Nat.lt_succ_self _) with
      ⟨program, hr, -⟩ | ⟨e', -, hr, -, -, hbudget⟩
    · cases he.symm.trans hr
    · cases he.symm.trans hr
      exact hbudget rfl
  · intro budget hlarge
    rcases hverdict hlarge (Nat.lt_succ_self _) with ⟨program, hr, hs⟩ | ⟨e, e', hr, hs, hsame, -⟩
    · exact hr.trans hs.symm
    · rw [hr, hs, hsame rfl]

/-! ## Recursive entries -/

/-- The parser `within (budget + 1)` is `layer` over the parser `within budget` for what is nested.
On the tokens `ts` it makes all recursive entries on tokens that are lighter than `ts`: it gives the
same result if entries on other tokens fail. -/
def Descends (layer : Parser α → Nat → Parser α) (within : Nat → Parser α) (ts : List Token) :
    Prop :=
  ∀ budget, totalWeight ts ≤ budget →
    within (budget + 1) = layer (within budget) (budget + 1) ∧
      (layer (below (totalWeight ts) (within budget)) (budget + 1)).onTokens ts =
        (within (budget + 1)).onTokens ts

/-- A layer that is in lockstep one step further than what is nested in it makes its recursive
entries on lighter tokens. -/
lemma descends_of_consumes {layer : Parser α → Nat → Parser α} {within : Nat → Parser α}
    (ts : List Token) (hunfold : ∀ budget, within (budget + 1) = layer (within budget) (budget + 1))
    (hwithin : ∀ {n a b : Nat}, n ≤ a → n ≤ b → Consumes n (within a) (within b))
    (hlayer : ∀ {n a b : Nat} {p q : Parser α}, Consumes n p q → n < a → n < b →
      Consumes (n + 1) (layer p a) (layer q b)) : Descends layer within ts := by
  intro budget hbudget
  have hinner :
      Consumes (totalWeight ts) (below (totalWeight ts) (within budget)) (within budget) :=
    (hwithin hbudget hbudget).below
  refine ⟨hunfold budget, ?_⟩
  rw [hunfold]
  have houter := hlayer hinner (Nat.lt_succ_of_le hbudget) (Nat.lt_succ_of_le hbudget)
  exact (houter.lockstep.onTokens_eq (Nat.lt_succ_self _)).1

/-- **Parsing terminates.** On every list of tokens, all entry points of the grammar come to a
result, a value or an error other than that the budget has run out, and the result is the same with
every budget above the weight of the tokens. The measure behind this is the weight: types,
expressions and statements make all their recursive entries on lighter tokens.

**Proof sketch.** Each production is in lockstep with itself under another budget, and one layer of
the grammar is in lockstep one weight further than what is nested in it. A parser that refuses
heavier tokens is in lockstep with the parser itself below that weight. -/
theorem entries_settle_and_descend (ts : List Token) :
    (Settles typeExpr typeExprWithin ts ∧ Settles typeArguments typeArgumentsWithin ts ∧
      Settles expr exprWithin ts ∧
      Settles primary (fun budget => primaryOf (exprWithin budget) budget) ts ∧
      Settles arrayInit (fun budget => arrayInitOf (exprWithin budget) budget) ts ∧
      Settles initializer (fun budget => initializerOf (exprWithin budget) budget) ts ∧
      Settles varDecl varDeclWithin ts ∧ Settles block blockWithin ts ∧
      Settles stmt stmtWithin ts ∧ Settles member memberWithin ts ∧
      Settles classDecl classDeclWithin ts ∧ Settles program programWithin ts) ∧
    Descends (fun type budget => typeExprOf (typeArgumentsOf type (budget - 1)) budget)
      typeExprWithin ts ∧
    Descends assignment exprWithin ts ∧ Descends stmtOf stmtWithin ts := by
  have hexpr : ∀ {n a b : Nat}, n ≤ a → n ≤ b → Lockstep n (exprWithin a) (exprWithin b) :=
    fun ha hb => lockstep_exprWithin ha hb
  refine ⟨⟨?_, ?_, ?_, ?_, ?_, ?_, ?_, ?_, ?_, ?_, ?_, settles_program ts⟩, ?_, ?_, ?_⟩
  · exact settles_of_lockstep ts fun ha hb => (consumes_typeExprWithin ha hb).lockstep
  · exact settles_of_lockstep ts fun ha hb => (consumes_typeArgumentsWithin ha hb).lockstep
  · exact settles_of_lockstep ts hexpr
  · refine settles_of_lockstep ts fun {n a b} ha hb => ?_
    cases n with
    | zero => exact lockstep_zero _ _
    | succ n =>
      exact (consumes_primaryOf (hexpr (Nat.le_of_lt ha) (Nat.le_of_lt hb)) ha hb).lockstep
  · exact settles_of_lockstep ts fun ha hb =>
      (consumes_arrayInitOf (hexpr ha hb) (Nat.le_succ _) ha hb).lockstep
  · exact settles_of_lockstep ts fun ha hb => lockstep_initializerOf (hexpr ha hb) ha hb
  · exact settles_of_lockstep ts fun ha hb => (consumes_varDeclWithin ha hb).lockstep
  · exact settles_of_lockstep ts fun ha hb => (consumes_blockWithin ha hb).lockstep
  · exact settles_of_lockstep ts fun ha hb => (consumes_stmtWithin ha hb).lockstep
  · exact settles_of_lockstep ts fun ha hb => (consumes_memberWithin ha hb).lockstep
  · exact settles_of_lockstep ts fun ha hb => (consumes_classDeclWithin ha hb).lockstep
  · refine descends_of_consumes ts (fun _ => rfl) consumes_typeExprWithin fun htype ha hb => ?_
    exact consumes_typeExprOf ((consumes_typeArgumentsOf htype.lockstep (by omega)
      (by omega)).lockstep.mono (Nat.le_succ _)) (by omega) (by omega)
  · exact descends_of_consumes ts (fun _ => rfl) consumes_exprWithin
      fun hinner ha hb => consumes_assignment hinner.lockstep ha hb
  · exact descends_of_consumes ts (fun _ => rfl) consumes_stmtWithin
      fun hinner ha hb => consumes_stmtOf hinner ha hb

end Grammar

end ClassLang
