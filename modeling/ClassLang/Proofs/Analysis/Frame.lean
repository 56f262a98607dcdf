import ClassLang.Proofs.Analysis.Composition

set_option autoImplicit false

/-!
# What the check of a statement leaves as it was

A check that passes closes the scopes and leaves the constructs that it has opened. One that ends
with an error may leave them open, but it opens them above those of the state it started from, so
that going back to the depths of that state closes exactly the new ones. Of the scopes that were
open before, only the innermost one can change, and only by a declaration.

## Main definitions

* `ClassLang.Analyzer.Kept` — a state and the same state with more errors.
* `ClassLang.Analyzer.Beneath` — a state, and one with more scopes and constructs opened above it.
* `ClassLang.Check.Confined` — checks that change the innermost scope at most.
* `ClassLang.Stmt.binding?` — what a statement binds in the innermost scope.

## Main results

* `ClassLang.Check.confined_scoped` — being confined composes.
* `ClassLang.Check.attempt_stmt_frame` — after a statement and the recovery from its error, the
  state is as it was but for the errors and for the variable that a declaration binds.
-/

namespace ClassLang

/-! ## States above a state -/

namespace Analyzer

/-- A state with other block scopes. -/
def withLocals (a : Analyzer) (locals : List Table) : Analyzer :=
  { a with scopes := { a.scopes with locals } }

/-- The second state is the first one with more errors. -/
structure Kept (a b : Analyzer) : Prop where
  scopes : b.scopes = a.scopes
  context : b.context = a.context
  failFast : b.failFast = a.failFast
  errors : a.errors <+: b.errors

/-- The second state has more errors than the first one, and more block scopes and constructs, all
above those of the first. -/
structure Beneath (a b : Analyzer) : Prop where
  global : b.scopes.global = a.scopes.global
  currentClass : b.scopes.currentClass = a.scopes.currentClass
  locals : a.scopes.locals <:+ b.scopes.locals
  enclosures : a.context.enclosures <:+ b.context.enclosures
  switchTypes : a.context.switchTypes <:+ b.context.switchTypes
  returnType : b.context.returnType = a.context.returnType
  failFast : b.failFast = a.failFast
  errors : a.errors <+: b.errors

variable {a b c : Analyzer}

lemma Kept.refl (a : Analyzer) : a.Kept a := ⟨rfl, rfl, rfl, List.prefix_rfl⟩

lemma Kept.beneath (h : a.Kept b) : a.Beneath b where
  global := by rw [h.scopes]
  currentClass := by rw [h.scopes]
  locals := h.scopes ▸ List.suffix_rfl
  enclosures := h.context ▸ List.suffix_rfl
  switchTypes := h.context ▸ List.suffix_rfl
  returnType := by rw [h.context]
  failFast := h.failFast
  errors := h.errors

lemma Kept.trans (hab : a.Kept b) (hbc : b.Kept c) : a.Kept c where
  scopes := hbc.scopes.trans hab.scopes
  context := hbc.context.trans hab.context
  failFast := hbc.failFast.trans hab.failFast
  errors := hab.errors.trans hbc.errors

lemma Beneath.trans (hab : a.Beneath b) (hbc : b.Beneath c) : a.Beneath c where
  global := hbc.global.trans hab.global
  currentClass := hbc.currentClass.trans hab.currentClass
  locals := hab.locals.trans hbc.locals
  enclosures := hab.enclosures.trans hbc.enclosures
  switchTypes := hab.switchTypes.trans hbc.switchTypes
  returnType := hbc.returnType.trans hab.returnType
  failFast := hbc.failFast.trans hab.failFast
  errors := hab.errors.trans hbc.errors

@[simp]
lemma withLocals_scopes_locals (a : Analyzer) (locals : List Table) :
    (a.withLocals locals).scopes.locals = locals := rfl

lemma withLocals_of_eq {locals : List Table} (h : a.scopes.locals = locals) :
    a.withLocals locals = a := by
  subst h
  rfl

/-- Other block scopes in both states. -/
lemma Kept.withLocals (h : a.Kept b) (locals : List Table) :
    (a.withLocals locals).Kept (b.withLocals locals) where
  scopes := by simp only [Analyzer.withLocals, h.scopes]
  context := h.context
  failFast := h.failFast
  errors := h.errors

/-- A state that is kept is known but for its errors. -/
lemma Kept.eq (h : a.Kept b) : ∃ found, b = { a with errors := a.errors ++ found } := by
  obtain ⟨found, hfound⟩ := h.errors
  obtain ⟨scopes, context, errors, failFast⟩ := b
  obtain ⟨rfl, rfl, rfl, -⟩ := h
  exact ⟨found, by rw [hfound]⟩

/-- Going back to the depths of a state beneath closes what was opened above it. -/
lemma Beneath.restore (h : a.Beneath b) :
    a.Kept { b with
      scopes := b.scopes.truncate a.scopes.depth
      context := b.context.restore (a.context.mark a.scopes.depth) } where
  scopes := by
    obtain ⟨above, habove⟩ := h.locals
    simp only [Scopes.truncate, Scopes.depth, ← habove, Stack.truncate_length_append, h.global,
      h.currentClass]
  context := by
    obtain ⟨inner, hinner⟩ := h.enclosures
    obtain ⟨types, htypes⟩ := h.switchTypes
    simp only [Context.restore, Context.mark, ← hinner, ← htypes, Stack.truncate_length_append,
      h.returnType]
  failFast := h.failFast
  errors := h.errors

end Analyzer

namespace Check

variable {α β : Type}

/-! ## Confined checks -/

/-- How a check ends above a state: it keeps the state, or ends with an error in a state above. -/
def EndsAbove (a : Analyzer) : Except SemanticError α × Analyzer → Prop
  | (.ok _, b) => a.Kept b
  | (.error _, b) => a.Beneath b

/-- A check that, when a block scope is open, changes no more of the state than the innermost scope.
Unless it `defines` names it keeps that too. -/
def Confined (defines : Bool) (p : Check α) : Prop :=
  ∀ (a : Analyzer) (table : Table) (outer : List Table), a.scopes.locals = table :: outer →
    ∃ table', (defines = false → table' = table) ∧
      EndsAbove (a.withLocals (table' :: outer)) (p.runFrom a)

variable {defines : Bool}

lemma EndsAbove.of_kept {a b : Analyzer} {r : Except SemanticError α × Analyzer} (h : a.Kept b)
    (hr : EndsAbove b r) : EndsAbove a r := by
  rcases r with ⟨e | x, c⟩
  · exact h.beneath.trans hr
  · exact h.trans hr

/-- A check that ends above every state from which it starts. -/
lemma confined_of_endsAbove {p : Check α} (h : ∀ a, EndsAbove a (p.runFrom a)) :
    Confined defines p := by
  intro a table outer hopen
  refine ⟨table, fun _ => rfl, ?_⟩
  rw [Analyzer.withLocals_of_eq hopen]
  exact h a

/-- Checks one after the other. -/
lemma Confined.bind {p : Check α} {f : α → Check β} (hp : Confined defines p)
    (hf : ∀ x, Confined defines (f x)) : Confined defines (p >>= f) := by
  intro a table outer hopen
  obtain ⟨table', hsame, hends⟩ := hp a table outer hopen
  rw [runFrom_bind]
  rcases hrun : p.runFrom a with ⟨e | x, b⟩ <;> rw [hrun] at hends
  · exact ⟨table', hsame, hends⟩
  · have hb : b.scopes.locals = table' :: outer := by rw [hends.scopes]; rfl
    obtain ⟨table'', hsame', hends'⟩ := hf x b table' outer hb
    exact ⟨table'', fun h => (hsame' h).trans (hsame h),
      hends'.of_kept (hends.withLocals (table'' :: outer))⟩

lemma Confined.look {k : Analyzer → Check α} (h : ∀ a, Confined defines (k a)) :
    Confined defines (get >>= k) := by
  intro a table outer hopen
  rw [runFrom_get_bind]
  exact h a a table outer hopen

lemma confined_define (symbol : Symbol) :
    Confined true (modifyScopes fun s => s.define symbol) := by
  intro a table outer hopen
  refine ⟨table.insert symbol, fun h => (Bool.noConfusion h), ?_⟩
  have hdefine : a.scopes.define symbol = { a.scopes with locals := table.insert symbol :: outer } := by
    simp only [Scopes.define, hopen]
  rw [runFrom_modifyScopes, hdefine]
  exact .refl _

/-- Recovery brings a check that ended above a state back to it: it passes, or passes on its error
when failing fast. -/
lemma EndsAbove.attempt {a b : Analyzer} {p : Check Unit} (hends : EndsAbove b (p.runFrom a))
    (hdepth : b.scopes.depth = a.scopes.depth) (hcontext : b.context = a.context) :
    (∃ c, (Check.attempt p).runFrom a = (.ok (), c) ∧ b.Kept c) ∨
      b.failFast = true ∧ ∃ e c, (Check.attempt p).runFrom a = (.error e, c) ∧ b.Kept c := by
  have hrun : (Check.attempt p).runFrom a =
      (tryCatch p (recover (a.context.mark a.scopes.depth))).runFrom a := rfl
  rw [hrun, runFrom_tryCatch]
  rcases hp : p.runFrom a with ⟨e | x, c⟩ <;> rw [hp] at hends
  · have hkept := Analyzer.Beneath.restore hends
    rw [hdepth, hcontext] at hkept
    have hrecover : (recover (a.context.mark a.scopes.depth) e).runFrom c = (record e).runFrom
        { c with
          scopes := c.scopes.truncate a.scopes.depth
          context := c.context.restore (a.context.mark a.scopes.depth) } := rfl
    simp only [hrecover, runFrom_record]
    by_cases hmode : c.failFast = true
    · rw [if_pos hmode]
      exact .inr ⟨hkept.failFast.symm.trans hmode, e, _, rfl, hkept⟩
    · rw [if_neg hmode]
      refine .inl ⟨_, rfl, hkept.trans ⟨rfl, rfl, rfl, List.prefix_append _ _⟩⟩
  · exact .inl ⟨c, rfl, hends⟩

lemma Confined.attempt {p : Check Unit} (hp : Confined defines p) :
    Confined defines (attempt p) := by
  intro a table outer hopen
  obtain ⟨table', hsame, hends⟩ := hp a table outer hopen
  refine ⟨table', hsame, ?_⟩
  have hdepth : (a.withLocals (table' :: outer)).scopes.depth = a.scopes.depth := by
    simp only [Scopes.depth, Analyzer.withLocals_scopes_locals, hopen, List.length_cons]
  rcases hends.attempt hdepth rfl with ⟨c, hrun, hkept⟩ | ⟨-, e, c, hrun, hkept⟩
  · rw [hrun]
    exact hkept
  · rw [hrun]
    exact hkept.beneath

/-- A check inside a scope of its own keeps all the scopes around it. -/
lemma Confined.endsAbove_withScope {p : Check Unit} (hp : Confined defines p) (a : Analyzer) :
    EndsAbove a ((withScope p).runFrom a) := by
  obtain ⟨table, -, hends⟩ := hp { a with scopes := a.scopes.push } [] a.scopes.locals rfl
  have hrun : (withScope p).runFrom a =
      (p >>= fun _ => modifyScopes Scopes.pop).runFrom { a with scopes := a.scopes.push } := rfl
  rw [hrun, runFrom_bind]
  rcases hbody : p.runFrom { a with scopes := a.scopes.push } with ⟨e | x, b⟩ <;>
    rw [hbody] at hends
  · have habove : a.Beneath (a.withLocals (table :: a.scopes.locals)) :=
      { Analyzer.Kept.beneath (.refl a) with locals := List.suffix_cons _ _ }
    exact habove.trans hends
  · refine ⟨?_, hends.context, hends.failFast, hends.errors⟩
    change b.scopes.pop = a.scopes
    rw [hends.scopes]
    rfl

/-- A check between a change of the context that opens constructs and one that undoes it. -/
lemma Confined.inContext {p : Check Unit} (hp : Confined defines p) {enter leave : Context → Context}
    (habove : ∀ a : Analyzer, a.Beneath { a with context := enter a.context })
    (hleave : ∀ c, leave (enter c) = c) :
    Confined defines (do modifyContext enter; p; modifyContext leave) := by
  intro a table outer hopen
  obtain ⟨table', hsame, hends⟩ := hp { a with context := enter a.context } table outer hopen
  refine ⟨table', hsame, ?_⟩
  have hrun : (do modifyContext enter; p; modifyContext leave : Check Unit).runFrom a =
      (p >>= fun _ => modifyContext leave).runFrom { a with context := enter a.context } := rfl
  rw [hrun, runFrom_bind]
  rcases hbody : p.runFrom { a with context := enter a.context } with ⟨e | x, b⟩ <;>
    rw [hbody] at hends
  · exact (habove (a.withLocals (table' :: outer))).trans hends
  · refine ⟨hends.scopes, ?_, hends.failFast, hends.errors⟩
    change leave b.context = a.context
    rw [hends.context]
    exact hleave a.context

/-- Being confined composes, whether names are defined or not. -/
lemma confined_compositional (defines : Bool) : Compositional (Confined defines) where
  pure _ := confined_of_endsAbove fun a => .refl a
  fail _ _ := confined_of_endsAbove fun a => (Analyzer.Kept.refl a).beneath
  bind := Confined.bind
  look _ h := .look h
  attempt := Confined.attempt
  withLoop hp := hp.inContext
    (fun a => { Analyzer.Kept.beneath (.refl a) with enclosures := List.suffix_cons _ _ })
    (fun _ => rfl)
  withSwitch _ _ hp := hp.inContext
    (fun a => { Analyzer.Kept.beneath (.refl a) with
      enclosures := List.suffix_cons _ _
      switchTypes := List.suffix_cons _ _ })
    (fun _ => rfl)

/-- **Scopes confine.** A check that defines names in the innermost scope keeps all scopes when it
runs in a scope of its own. -/
theorem confined_scoped : Scoped (Confined false) (Confined true) where
  outer := confined_compositional false
  inner := confined_compositional true
  weaken hp a table outer hopen := by
    obtain ⟨table', -, hends⟩ := hp a table outer hopen
    exact ⟨table', fun h => (Bool.noConfusion h), hends⟩
  define := confined_define
  withScope hp := confined_of_endsAbove hp.endsAbove_withScope

end Check

/-! ## Statements -/

/-- A symbol with a new name comes last. -/
lemma Table.insert_of_get?_eq_none {table : Table} {symbol : Symbol}
    (h : table.get? symbol.name = none) : table.insert symbol = table ++ [symbol] := by
  induction table with
  | nil => rfl
  | cons first rest ih =>
    rw [Table.get?, List.find?_cons] at h
    by_cases hname : first.name = symbol.name
    · simp [hname] at h
    · simp only [hname, decide_false] at h
      simp only [Table.insert, if_neg hname, ih h, List.cons_append]

/-- What a statement binds in the innermost scope: a declaration binds its variable if the type
stands for one and the name is not bound there. Whether the initial value is in order makes no
difference. -/
def Stmt.binding? (s : Scopes) : Stmt → Option Symbol
  | .varDecl d =>
    match Typing.resolveType s d.line d.type with
    | .ok type => if (s.resolveHere d.name).isSome then none else some (.var d.name type)
    | .error _ => none
  | _ => none

namespace Check

variable {α : Type}

lemma endsAbove_inScopes (f : Scopes → Typing.Typed α) (a : Analyzer) :
    EndsAbove a ((inScopes f).runFrom a) := by
  rw [runFrom_inScopes]
  cases f a.scopes with
  | ok x => exact .refl a
  | error e => exact (Analyzer.Kept.refl a).beneath

/-- A declaration ends above the state in which its variable is bound.

**Proof sketch.** A type that stands for nothing, or a name that is bound in the innermost scope,
ends the check in the state from which it starts. Otherwise the variable is bound first, behind all
others, and then the initial value is checked, which changes nothing. -/
lemma endsAbove_varDecl {a : Analyzer} {table : Table} {outer : List Table}
    (hopen : a.scopes.locals = table :: outer) (d : VarDecl) :
    EndsAbove (a.withLocals ((table ++ ((Stmt.varDecl d).binding? a.scopes).toList) :: outer))
      ((varDecl d).runFrom a) := by
  unfold varDecl
  rw [runFrom_bind, runFrom_inScopes]
  cases htype : Typing.resolveType a.scopes d.line d.type with
  | error e =>
    have hbinding : (Stmt.varDecl d).binding? a.scopes = none := by
      simp only [Stmt.binding?, htype]
    rw [hbinding, Option.toList_none, List.append_nil, Analyzer.withLocals_of_eq hopen]
    exact (Analyzer.Kept.refl a).beneath
  | ok type =>
    simp only [runFrom_get_bind]
    by_cases hbound : (a.scopes.resolveHere d.name).isSome = true
    · have hbinding : (Stmt.varDecl d).binding? a.scopes = none := by
        simp only [Stmt.binding?, htype, if_pos hbound]
      rw [hbinding, Option.toList_none, List.append_nil, Analyzer.withLocals_of_eq hopen,
        if_pos hbound]
      exact (Analyzer.Kept.refl a).beneath
    · have hbinding : (Stmt.varDecl d).binding? a.scopes = some (.var d.name type) := by
        simp only [Stmt.binding?, htype, if_neg hbound]
      have hnew : table.get? (Symbol.var d.name type).name = none := by
        change table.get? d.name = none
        simpa [Scopes.resolveHere, Scopes.currentTable, hopen] using hbound
      have hdefine : { a with scopes := a.scopes.define (.var d.name type) } =
          a.withLocals ((table ++ [.var d.name type]) :: outer) := by
        simp only [Scopes.define, hopen, Analyzer.withLocals, Table.insert_of_get?_eq_none hnew]
      rw [hbinding, Option.toList_some, if_neg hbound,
        runFrom_bind_of_ok (runFrom_modifyScopes _ _), hdefine]
      cases d.init with
      | none => exact .refl _
      | some init => exact endsAbove_inScopes _ _

/-- A statement ends above the state with its binding: apart from a declaration there is none. -/
lemma endsAbove_stmt {a : Analyzer} {table : Table} {outer : List Table}
    (hopen : a.scopes.locals = table :: outer) (s : Stmt) :
    EndsAbove (a.withLocals ((table ++ (s.binding? a.scopes).toList) :: outer))
      ((stmt s).runFrom a) := by
  by_cases hdecl : ∃ d, s = .varDecl d
  · obtain ⟨d, rfl⟩ := hdecl
    exact endsAbove_varDecl hopen d
  · have hnone : s.binding? a.scopes = none := by
      cases s with
      | varDecl d => exact absurd ⟨d, rfl⟩ hdecl
      | _ => rfl
    have hconfined := (confined_scoped.varDecl_or_stmt s).resolve_left hdecl
    obtain ⟨table', hsame, hends⟩ := hconfined a table outer hopen
    rw [hnone, Option.toList_none, List.append_nil, ← hsame rfl]
    exact hends

/-- **The check of a statement is framed.** When errors are collected and a block scope is open, a
statement with the recovery from its error passes. The state after it differs from the one before in
the errors, to which some are added, and in the innermost scope, to which a declaration adds its
variable. From that state the check goes on with the statements that follow. -/
theorem attempt_stmt_frame (a : Analyzer) (hmode : a.failFast = false) (table : Table)
    (outer : List Table) (hopen : a.scopes.locals = table :: outer) (s : Stmt) :
    ∃ (found : List SemanticError) (after : Analyzer),
      after = { a with
        scopes := { a.scopes with
          locals := (table ++ (s.binding? a.scopes).toList) :: outer }
        errors := a.errors ++ found } ∧
      (attempt (stmt s)).runFrom a = (.ok (), after) ∧
      ∀ ss, (stmts (s :: ss)).runFrom a = (stmts ss).runFrom after := by
  have hdepth : (a.withLocals ((table ++ (s.binding? a.scopes).toList) :: outer)).scopes.depth =
      a.scopes.depth := by
    simp only [Scopes.depth, Analyzer.withLocals_scopes_locals, hopen, List.length_cons]
  rcases (endsAbove_stmt hopen s).attempt hdepth rfl with ⟨after, hrun, hkept⟩ | ⟨hfast, -⟩
  · obtain ⟨found, hafter⟩ := hkept.eq
    exact ⟨found, after, hafter, hrun, fun ss => runFrom_bind_of_ok hrun⟩
  · have hcollects : a.failFast = true := hfast
    rw [hmode] at hcollects
    exact absurd hcollects (by decide)

/-- A state inside a loop of a method without a result, with the variable `x` in the innermost of
two scopes. -/
def stateInLoop : Analyzer where
  scopes := { global := Builtin.globals, currentClass := some "A", locals := [[.var "x" .int], []] }
  context := { enclosures := [.loop], returnType := some .void }

/-- `int y = z;` -/
def declOfUnknown : Stmt :=
  .varDecl { name := "y", type := .simple "int", init := some (.var 3 "z"), line := 3 }

/-- The declaration binds its variable although its initial value is unknown. -/
theorem attempt_stmt_frame_declOfUnknown :
    stateInLoop.failFast = false ∧ stateInLoop.scopes.locals = [.var "x" .int] :: [[]] ∧
      declOfUnknown.binding? stateInLoop.scopes = some (.var "y" .int) ∧
      ∃ (found : List SemanticError) (after : Analyzer),
        after = { stateInLoop with
          scopes := { stateInLoop.scopes with
            locals := ([.var "x" .int] ++ (declOfUnknown.binding? stateInLoop.scopes).toList) ::
              [[]] }
          errors := stateInLoop.errors ++ found } ∧
        (attempt (stmt declOfUnknown)).runFrom stateInLoop = (.ok (), after) ∧
        ∀ ss, (stmts (declOfUnknown :: ss)).runFrom stateInLoop = (stmts ss).runFrom after :=
  ⟨rfl, rfl, rfl, attempt_stmt_frame stateInLoop rfl [.var "x" .int] [[]] rfl declOfUnknown⟩

end Check

end ClassLang
