import ClassLang.Analysis.Program
import ClassLang.Proofs.Analysis.Alike

set_option autoImplicit false

/-!
# Properties of checks that compose

The check of a statement is put together from a few steps and a few ways of combining checks. A
property of checks that the steps have and the combinations keep therefore holds of every
statement and every block. The induction over statements is done here once for all such
properties.

Only a declaration binds a name, and it binds it in the innermost scope. So there may be two
properties: one of the checks that bind no name there, and a weaker one of those that may.

A step that looks at the state sees no more of it than states that look alike have in common: the
lookups in its scopes, and its context. It sees neither the errors kept so far nor whether the
check fails fast.

## Main definitions

* `ClassLang.Analyzer.Alike` — states whose scopes look alike and whose contexts agree.
* `ClassLang.Check.Compositional` — properties that the steps have and the combinations keep.
* `ClassLang.Check.Scoped` — a property of the checks inside a scope, and one of those around it.

## Main results

* `ClassLang.Check.runFrom_bind`, `ClassLang.Check.runFrom_tryCatch` — how checks run one after the
  other, and with a handler.
* `ClassLang.Check.Scoped.varDecl_or_stmt`, `ClassLang.Check.Scoped.block` — the stronger property
  holds of every statement but a declaration, and of every block.
* `ClassLang.Check.Scoped.stmts` — the weaker one holds of every list of statements.
-/

namespace ClassLang

/-- States whose scopes look alike and whose contexts agree. -/
structure Analyzer.Alike (a b : Analyzer) : Prop where
  scopes : a.scopes.Alike b.scopes
  context : a.context = b.context

namespace Check

variable {α β : Type}

/-! ## Runs -/

lemma runFrom_bind (p : Check α) (f : α → Check β) (a : Analyzer) :
    (p >>= f).runFrom a = match p.runFrom a with
      | (.ok x, b) => (f x).runFrom b
      | (.error e, b) => (.error e, b) := by
  change (match p a with | (r, b) => (ExceptT.bindCont f r) b) =
    match p a with | (.ok x, b) => f x b | (.error e, b) => (.error e, b)
  rcases p a with ⟨_ | _, _⟩ <;> rfl

lemma runFrom_bind_of_ok {p : Check α} {f : α → Check β} {a b : Analyzer} {x : α}
    (h : p.runFrom a = (.ok x, b)) : (p >>= f).runFrom a = (f x).runFrom b := by
  rw [runFrom_bind, h]

lemma runFrom_bind_of_error {p : Check α} {f : α → Check β} {a b : Analyzer} {e : SemanticError}
    (h : p.runFrom a = (.error e, b)) : (p >>= f).runFrom a = (.error e, b) := by
  rw [runFrom_bind, h]

/-- Checks one after the other pass if the first one does, and then the second. -/
lemma runFrom_bind_eq_ok {p : Check α} {f : α → Check β} {a c : Analyzer} {y : β} :
    (p >>= f).runFrom a = (.ok y, c) ↔
      ∃ x b, p.runFrom a = (.ok x, b) ∧ (f x).runFrom b = (.ok y, c) := by
  rw [runFrom_bind]
  rcases p.runFrom a with ⟨e | x, b⟩
  · simp
  · simp [Prod.ext_iff]

lemma runFrom_tryCatch (p : Check α) (handler : SemanticError → Check α) (a : Analyzer) :
    (tryCatch p handler).runFrom a = match p.runFrom a with
      | (.ok x, b) => (.ok x, b)
      | (.error e, b) => (handler e).runFrom b := by
  simp only [runFrom, ExceptT.run, tryCatch, tryCatchThe, MonadExceptOf.tryCatch,
    ExceptT.tryCatch, ExceptT.mk, StateT.run, bind, StateT.bind]
  rcases p a with ⟨_ | _, _⟩ <;> rfl

@[simp]
lemma runFrom_pure (x : α) (a : Analyzer) : (pure x : Check α).runFrom a = (.ok x, a) := rfl

@[simp]
lemma runFrom_fail (line : Nat) (cause : SemanticError.Cause) (a : Analyzer) :
    (fail line cause : Check α).runFrom a = (.error ⟨cause, line⟩, a) := rfl

@[simp]
lemma runFrom_get (a : Analyzer) : (get : Check Analyzer).runFrom a = (.ok a, a) := rfl

lemma runFrom_get_bind (k : Analyzer → Check α) (a : Analyzer) :
    (get >>= k).runFrom a = (k a).runFrom a :=
  runFrom_bind_of_ok (runFrom_get a)

/-- A function of the scopes leaves the state as it is. -/
lemma runFrom_inScopes (f : Scopes → Typing.Typed α) (a : Analyzer) :
    (inScopes f).runFrom a = (f a.scopes, a) := by
  unfold inScopes
  rw [runFrom_get_bind]
  cases f a.scopes <;> rfl

@[simp]
lemma runFrom_modifyScopes (f : Scopes → Scopes) (a : Analyzer) :
    (modifyScopes f).runFrom a = (.ok (), { a with scopes := f a.scopes }) := rfl

@[simp]
lemma runFrom_modifyContext (f : Context → Context) (a : Analyzer) :
    (modifyContext f).runFrom a = (.ok (), { a with context := f a.context }) := rfl

/-- An error is kept in a collecting check and ends one that fails fast. -/
lemma runFrom_record (e : SemanticError) (a : Analyzer) :
    (record e).runFrom a =
      if a.failFast then (.error e, a) else (.ok (), { a with errors := a.errors ++ [e] }) := by
  unfold record
  rw [runFrom_get_bind]
  by_cases h : a.failFast = true
  · rw [if_pos h, if_pos h]
    rfl
  · rw [if_neg h, if_neg h]
    rfl

/-! ## Composition -/

/-- A property of checks that the steps of a check have, and that the ways to combine checks keep.
Block scopes are left out. -/
structure Compositional (P : {α : Type} → Check α → Prop) : Prop where
  pure : ∀ {α : Type} (x : α), P (pure x)
  fail : ∀ {α : Type} (line : Nat) (cause : SemanticError.Cause), P (fail line cause : Check α)
  bind : ∀ {α β : Type} {p : Check α} {f : α → Check β}, P p → (∀ x, P (f x)) → P (p >>= f)
  /-- A look at the state, of which no more is used than states that look alike share. -/
  look : ∀ {α : Type} {k : Analyzer → Check α}, (∀ a b : Analyzer, a.Alike b → k a = k b) →
    (∀ a, P (k a)) → P (get >>= k)
  attempt : ∀ {p : Check Unit}, P p → P (attempt p)
  withLoop : ∀ {p : Check Unit}, P p → P (withLoop p)
  withSwitch : ∀ (type : Ty) {p : Check Unit}, P p → P (withSwitch type p)

namespace Compositional

variable {P : {α : Type} → Check α → Prop} (hP : Compositional P)

include hP

/-- A function of the scopes that does not tell scopes apart that look alike. -/
lemma inScopes {f : Scopes → Typing.Typed α} (hf : ∀ s t : Scopes, s.Alike t → f s = f t) :
    P (Check.inScopes f) := by
  refine hP.look (fun a b hab => by rw [hf _ _ hab.scopes]) fun a => ?_
  cases f a.scopes with
  | ok x => exact hP.pure x
  | error e => exact hP.fail e.line e.cause

/-- A failure under a condition, and then what follows. -/
lemma guard {c : Prop} [Decidable c] {line : Nat} {cause : SemanticError.Cause} {p : Unit → Check α}
    (hp : ∀ u, P (p u)) : P (if c then Check.fail line cause >>= p else p ()) := by
  split
  · exact hP.bind (hP.fail line cause) hp
  · exact hp ()

/-- A failure under a condition. -/
lemma failIf {c : Prop} [Decidable c] (line : Nat) (cause : SemanticError.Cause) :
    P (if c then Check.fail line cause else Pure.pure ()) := by
  split
  · exact hP.fail line cause
  · exact hP.pure ()

lemma resolveType (line : Nat) (type : TypeExpr) :
    P (Check.inScopes fun s => Typing.resolveType s line type) :=
  hP.inScopes fun _ _ h => Typing.resolveType_congr h line type

lemma initializer (type : Ty) (slot : Slot) (init : Expr) :
    P (Check.inScopes fun s => Typing.checkInitializer s type slot init) :=
  hP.inScopes fun _ _ h => Typing.checkInitializer_congr h type slot init

lemma typeOf (e : Expr) : P (Check.typeOf e) :=
  hP.inScopes fun _ _ h => Typing.typeOf_congr h e

/-- An expression whose type is not used. -/
lemma typed (e : Expr) : P (Check.typeOf e >>= fun _ => Pure.pure ()) :=
  hP.bind (hP.typeOf e) fun _ => hP.pure ()

lemma condition (construct : Conditional) (e : Expr) : P (Check.condition construct e) :=
  hP.bind (hP.typeOf e) fun _ => hP.failIf _ _

lemma forCondition (e : Option Expr) : P (Check.forCondition e) := by
  cases e with
  | none => exact hP.pure ()
  | some e => exact hP.condition .forLoop e

lemma forUpdate (e : Option Expr) : P (Check.forUpdate e) := by
  cases e with
  | none => exact hP.pure ()
  | some e => exact hP.typed e

lemma ret (line : Nat) (value : Option Expr) : P (Check.ret line value) := by
  refine hP.look (fun a b hab => by rw [hab.context]) fun a => ?_
  cases value with
  | none => exact hP.failIf _ _
  | some e =>
    refine hP.bind (hP.inScopes fun _ _ h => Typing.typeExpecting_congr h e _) fun found => ?_
    exact hP.guard fun _ => hP.failIf _ _

lemma label (line : Nat) (type : Ty) (e : Expr) : P (Check.label line type e) :=
  hP.bind (hP.typeOf e) fun _ => hP.failIf _ _

lemma freshLabel (line : Nat) (seen : ArmsSeen) (e : Expr) : P (Check.freshLabel line seen e) := by
  cases e with
  | literal _ l => exact hP.failIf _ _
  | _ => exact hP.pure ()

end Compositional

/-- What is known after an arm is the same in scopes that look alike. -/
lemma ArmsSeen.after_congr {s t : Scopes} (h : s.Alike t) (seen : ArmsSeen) (type : Ty)
    (a : SwitchArm) : seen.after s type a = seen.after t type a := by
  cases a with
  | otherwise line body => rfl
  | labelled line e body =>
    cases e with
    | literal line l =>
      have haccepts : acceptsLabel s type (.literal line l) = acceptsLabel t type (.literal line l) := by
        rw [acceptsLabel, acceptsLabel, Typing.typeOf_congr h]
      simp only [ArmsSeen.after, haccepts]
    | _ => rfl

/-! ## Scopes -/

/-- A property `P` of the checks that bind no name in the innermost scope, and a weaker one, `Q`, of
those that may. A scope around a check gives the first for the second. -/
structure Scoped (P Q : {α : Type} → Check α → Prop) : Prop where
  outer : Compositional P
  inner : Compositional Q
  weaken : ∀ {α : Type} {p : Check α}, P p → Q p
  define : ∀ symbol : Symbol, Q (modifyScopes fun s => s.define symbol)
  withScope : ∀ {p : Check Unit}, Q p → P (withScope p)

namespace Scoped

variable {P Q : {α : Type} → Check α → Prop} (h : Scoped P Q)

include h

lemma varDecl (d : VarDecl) : Q (Check.varDecl d) := by
  refine h.inner.bind (h.inner.resolveType d.line d.type) fun type => ?_
  refine h.inner.look (fun a b hab => by rw [hab.scopes.resolveHere]) fun a => ?_
  refine h.inner.guard fun _ => h.inner.bind (h.define _) fun _ => ?_
  cases d.init with
  | none => exact h.inner.pure ()
  | some init => exact h.inner.initializer type .var init

lemma forInit (init : Option ForInit) : Q (Check.forInit init) := by
  rcases init with _ | d | e
  · exact h.inner.pure ()
  · exact h.varDecl d
  · exact h.inner.typed e

/-- A statement is a declaration, or has the property `P`: in both cases it has the other. -/
lemma stmt_of_or {s : Stmt} (hs : (∃ d, s = .varDecl d) ∨ P (Check.stmt s)) : Q (Check.stmt s) := by
  rcases hs with ⟨d, rfl⟩ | hs
  · exact h.varDecl d
  · exact h.weaken hs

mutual

/-- Every statement but a declaration has the property `P`. -/
theorem varDecl_or_stmt : (s : Stmt) → (∃ d, s = .varDecl d) ∨ P (Check.stmt s)
  | .varDecl d => .inl ⟨d, rfl⟩
  | .block body => .inr (block body)
  | .ifThen _ c thenBranch =>
    .inr <| h.outer.bind (h.outer.condition .ifStmt c) fun _ => block thenBranch
  | .ifElse _ c thenBranch elseBranch =>
    .inr <| h.outer.bind (h.outer.condition .ifStmt c) fun _ =>
      h.outer.bind (block thenBranch) fun _ => block elseBranch
  | .whileLoop _ c body | .doWhile _ body c =>
    .inr <| h.outer.bind (h.outer.condition .whileLoop c) fun _ => h.outer.withLoop (block body)
  | .forLoop _ init c update body =>
    .inr <| h.withScope <| h.inner.bind (h.forInit init) fun _ =>
      h.inner.bind (h.inner.forCondition c) fun _ => h.inner.bind (h.inner.forUpdate update) fun _ =>
        h.inner.withLoop (h.weaken (block body))
  | .switch _ c cases =>
    .inr <| h.outer.bind (h.outer.typeOf c) fun type => h.outer.guard fun _ =>
      h.outer.withSwitch type (arms type {} cases)
  | .ret line value => .inr (h.outer.ret line value)
  | .expr e => .inr (h.outer.typed e)
  | .breakOff line =>
    .inr <| h.outer.look (fun a b hab => by rw [hab.context]) fun _ => h.outer.failIf _ _
  | .continueOn line =>
    .inr <| h.outer.look (fun a b hab => by rw [hab.context]) fun _ => h.outer.failIf _ _

/-- Every list of statements has the property `Q`. -/
theorem stmts : (ss : List Stmt) → Q (Check.stmts ss)
  | [] => h.inner.pure ()
  | s :: ss =>
    h.inner.bind (h.inner.attempt (h.stmt_of_or (varDecl_or_stmt s))) fun _ => stmts ss

/-- **Every block has the property `P`.** -/
theorem block : (body : Block) → P (Check.block body)
  | .mk _ ss => h.withScope (stmts ss)

/-- Every arm of a switch has the property `P`. -/
theorem arm (type : Ty) (seen : ArmsSeen) : (a : SwitchArm) → P (Check.arm type seen a)
  | .labelled line e body =>
    h.outer.bind (h.outer.label line type e) fun _ => h.outer.bind (block body) fun _ =>
      h.outer.freshLabel line seen e
  | .otherwise _ body => h.outer.guard fun _ => block body

/-- So have all the arms of a switch. -/
theorem arms (type : Ty) (seen : ArmsSeen) :
    (cases : List SwitchArm) → P (Check.arms type seen cases)
  | [] => h.outer.pure ()
  | first :: rest =>
    h.outer.bind (h.outer.attempt (arm type seen first)) fun _ =>
      h.outer.look (fun a b hab => by rw [ArmsSeen.after_congr hab.scopes]) fun _ =>
        arms type _ rest

end

lemma bindParameters (ps : List Parameter) (types : List (String × Ty)) :
    Q (Check.bindParameters ps types) := by
  induction ps generalizing types with
  | nil => exact h.inner.pure ()
  | cons p ps ih =>
    cases types with
    | nil => exact h.inner.pure ()
    | cons type types =>
      refine h.inner.look (fun a b hab => by rw [hab.scopes.resolveHere]) fun a => ?_
      exact h.inner.guard fun _ => h.inner.bind (h.define _) fun _ => ih types

/-- The parameters and the body of a method, inside the scope around them. -/
lemma methodScope (d : MethodDecl) (params : List (String × Ty)) :
    Q (Check.bindParameters d.params params >>= fun _ => Check.block d.body) :=
  h.inner.bind (h.bindParameters d.params params) fun _ => h.weaken (h.block d.body)

end Scoped

end Check

end ClassLang
