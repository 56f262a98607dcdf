import ClassLang.Proofs.Target.Sites
import Mathlib.Data.List.Basic

set_option autoImplicit false

/-!
# Expressions at their sites in the generator

When a program is generated, each of its expressions is written with the names at hand at its site.
There are two exceptions, of which nothing is written: a new object, which is left out where a
container starts empty, and the literal `null`, for which an empty value is written.

## Main definitions

* `ClassLang.Target.Emit.Succeeds` — some run of a computation has a result.
* `ClassLang.Target.Rendered` — an expression is written at its site.

## Main results

* `ClassLang.Target.Site.rendered_inStmt` — the expressions of a statement are written at their
  sites.
* `ClassLang.Program.rendered_of_mem_occurrences` — so are those of a program that is generated.
-/

namespace ClassLang

namespace Target

/-- Some run of a computation has a result. -/
def Emit.Succeeds {α : Type} (p : Emit α) : Prop :=
  ∃ needs x needs', p.runFrom needs = (.ok x, needs')

lemma Emit.runFrom_bind {α β : Type} (p : Emit α) (f : α → Emit β) (needs : Needs) :
    (p >>= f).runFrom needs = match p.runFrom needs with
      | (.ok x, needs) => (f x).runFrom needs
      | (.error e, needs) => (.error e, needs) := by
  change (match p needs with | (r, needs) => (ExceptT.bindCont f r) needs) =
    match p needs with | (.ok x, needs) => f x needs | (.error e, needs) => (.error e, needs)
  rcases p needs with ⟨_ | _, _⟩ <;> rfl

/-- Computations one after the other have a result only if both have. -/
lemma Emit.exists_of_runFrom_bind {α β : Type} {p : Emit α} {f : α → Emit β} {needs needs' : Needs}
    {y : β} (h : (p >>= f).runFrom needs = (.ok y, needs')) :
    ∃ x between, p.runFrom needs = (.ok x, between) ∧ (f x).runFrom between = (.ok y, needs') := by
  rw [runFrom_bind] at h
  rcases hfirst : p.runFrom needs with ⟨e | x, between⟩
  · rw [hfirst] at h
    cases h
  · rw [hfirst] at h
    exact ⟨x, between, rfl, h⟩

/-- Computations one after the other both have results. -/
lemma Emit.Succeeds.of_bind {α β : Type} {p : Emit α} {f : α → Emit β}
    (h : Emit.Succeeds (p >>= f)) : Emit.Succeeds p ∧ ∃ x, Emit.Succeeds (f x) := by
  obtain ⟨needs, y, needs', hrun⟩ := h
  obtain ⟨x, between, hfirst, hrest⟩ := exists_of_runFrom_bind hrun
  exact ⟨⟨needs, x, between, hfirst⟩, x, between, y, needs', hrest⟩

/-- An expression is written with the names at hand, unless it is a new object or `null`. -/
def Rendered (o : Occurrence) : Prop :=
  Emit.Succeeds (render o.1.env .alone o.2) ∨ isNull o.2 = true ∨
    ∃ line type diamond, o.2 = .newObject line type diamond

/-! ## Texts of expressions -/

variable {w : Site} {env : Env} {e : Expr}

lemma succeeds_render (h : Emit.Succeeds (bareText env e)) : Emit.Succeeds (render env .alone e) :=
  h.of_bind.1.of_bind.1

lemma succeeds_renderAll {es : List Expr} (h : Emit.Succeeds (renderAll env es)) :
    ∀ e ∈ es, Emit.Succeeds (render env .alone e) := by
  induction es with
  | nil => exact List.forall_mem_nil _
  | cons e es ih =>
    obtain ⟨he, _, hes⟩ := h.of_bind
    exact List.forall_mem_cons.2 ⟨he, ih hes.of_bind.1⟩

lemma rendered_of_valueText {type : Option TypeExpr} (h : Emit.Succeeds (valueText w.env type e)) :
    Rendered (w, e) := by
  unfold valueText at h
  by_cases hnull : isNull e = true
  · exact .inr (.inl hnull)
  · rw [if_neg hnull] at h
    exact .inl (succeeds_render h)

lemma rendered_optional {o : Option Expr} (h : Emit.Succeeds (optionalText w.env o)) :
    ∀ o' ∈ w.optional o, Rendered o' := by
  cases o with
  | none => exact List.forall_mem_nil _
  | some e => exact List.forall_mem_singleton.2 (.inl (succeeds_render h))

/-- The initial value of a declaration is written, or its elements are. -/
lemma rendered_initial {type : TypeExpr} {name : String} {init : Option Expr}
    (h : Emit.Succeeds (declarationText w.env type name init)) :
    ∀ o ∈ w.initial type init, Rendered o := by
  obtain ⟨-, _, h⟩ := h.of_bind
  cases init with
  | none => exact List.forall_mem_nil _
  | some e =>
    simp only at h
    cases e with
    | newObject line type diamond =>
      exact List.forall_mem_singleton.2 (.inr (.inr ⟨line, type, diamond, rfl⟩))
    | arrayInit line elements =>
      have hwhole := succeeds_render h.of_bind.1
      rw [Site.initial]
      split
      case isTrue => exact List.forall_mem_singleton.2 (.inl hwhole)
      case isFalse =>
        have helements := succeeds_renderAll hwhole.of_bind.1
        exact List.forall_mem_map.2 fun e he => .inl (helements e he)
    | _ => exact List.forall_mem_singleton.2 (rendered_of_valueText h.of_bind.1)

lemma rendered_first {init : Option ForInit} (h : Emit.Succeeds (initText w.env init)) :
    ∀ o ∈ w.first init, Rendered o := by
  rcases init with _ | d | e
  · exact List.forall_mem_nil _
  · exact rendered_initial (w := w.within d) h
  · exact List.forall_mem_singleton.2 (.inl (succeeds_render h))

lemma rendered_ret {value : Option Expr} (h : Emit.Succeeds (returnText w.env value)) :
    ∀ o ∈ w.optional value, Rendered o := by
  cases value with
  | none => exact List.forall_mem_nil _
  | some e => exact List.forall_mem_singleton.2 (rendered_of_valueText h.of_bind.1)

/-! ## Lines of statements -/

namespace Site

lemma env_after (w : Site) (s : Stmt) : (w.after s).env = w.env.after s := by
  cases s <;> rfl

lemma env_afterInit (w : Site) (init : Option ForInit) :
    (w.afterInit init).env = w.env.afterInit init := by
  rcases init with _ | d | e <;> rfl

mutual

/-- The expressions of a statement whose lines are generated are written at their sites. -/
theorem rendered_inStmt : (s : Stmt) → ∀ {w : Site} {depth : Nat} {lead : String},
    Emit.Succeeds (stmtLines w.env depth lead s) → ∀ o ∈ w.inStmt s, Rendered o
  | .varDecl d, w, _, _, h => rendered_initial (w := w.within d) h.of_bind.1
  | .block body, _, _, _, h => rendered_inBlock body h.of_bind.1
  | .ifThen _ _ body, _, _, _, h => by
    obtain ⟨hc, _, h⟩ := h.of_bind
    exact List.forall_mem_cons.2 ⟨.inl (succeeds_render hc), rendered_inBlock body h.of_bind.1⟩
  | .ifElse _ _ body other, _, _, _, h => by
    obtain ⟨hc, _, h⟩ := h.of_bind
    obtain ⟨hbody, _, h⟩ := h.of_bind
    exact List.forall_mem_cons.2 ⟨.inl (succeeds_render hc),
      List.forall_mem_append.2 ⟨rendered_inBlock body hbody, rendered_inElse other h.of_bind.1⟩⟩
  | .whileLoop _ _ body, _, _, _, h => by
    obtain ⟨hc, _, h⟩ := h.of_bind
    exact List.forall_mem_cons.2 ⟨.inl (succeeds_render hc), rendered_inBlock body h.of_bind.1⟩
  | .doWhile _ body _, _, _, _, h => by
    obtain ⟨hbody, _, h⟩ := h.of_bind
    exact List.forall_mem_cons.2 ⟨.inl (succeeds_render h.of_bind.1), rendered_inBlock body hbody⟩
  | .forLoop _ init c update body, w, _, _, h => by
    obtain ⟨hinit, _, h⟩ := h.of_bind
    have henv : w.env.push.afterInit init = (w.push.afterInit init).env :=
      (env_afterInit w.push init).symm
    rw [henv] at h
    obtain ⟨hc, _, h⟩ := h.of_bind
    obtain ⟨hupdate, _, h⟩ := h.of_bind
    exact List.forall_mem_append.2 ⟨rendered_first hinit,
      List.forall_mem_append.2 ⟨rendered_optional hc,
        List.forall_mem_append.2 ⟨rendered_optional hupdate, rendered_inBlock body h.of_bind.1⟩⟩⟩
  | .switch _ _ arms, _, _, _, h => by
    obtain ⟨hc, _, h⟩ := h.of_bind
    exact List.forall_mem_cons.2 ⟨.inl (succeeds_render hc), rendered_inArms arms h.of_bind.1⟩
  | .ret _ _, _, _, _, h => rendered_ret h.of_bind.1
  | .expr _, _, _, _, h => List.forall_mem_singleton.2 (.inl (succeeds_render h.of_bind.1))
  | .breakOff _, _, _, _, _ | .continueOn _, _, _, _, _ => List.forall_mem_nil _

/-- So are those of statements one after the other. -/
theorem rendered_inStmts : (ss : List Stmt) → ∀ {w : Site} {depth : Nat},
    Emit.Succeeds (stmtsLines w.env depth ss) → ∀ o ∈ w.inStmts ss, Rendered o
  | [], _, _, _ => List.forall_mem_nil _
  | s :: ss, w, _, h => by
    obtain ⟨hs, _, h⟩ := h.of_bind
    rw [← env_after w s] at h
    exact List.forall_mem_append.2 ⟨rendered_inStmt s hs, rendered_inStmts ss h.of_bind.1⟩

/-- So are those of a block. -/
theorem rendered_inBlock : (body : Block) → ∀ {w : Site} {depth : Nat},
    Emit.Succeeds (blockLines w.env depth body) → ∀ o ∈ w.inBlock body, Rendered o
  | .mk _ ss, w, _, h => rendered_inStmts ss (w := w.push) h

/-- So are those of the other side of a branch. -/
theorem rendered_inElse : (body : Block) → ∀ {w : Site} {depth : Nat},
    Emit.Succeeds (elseLines w.env depth body) → ∀ o ∈ w.inElse body, Rendered o
  | .mk _ [], _, _, _ => List.forall_mem_nil _
  | .mk _ [s], w, _, h => by
    simp only [Site.inElse, Site.inStmts, List.append_nil, Site.otherwise]
    simp only [elseLines] at h
    split at h
    case isTrue hbranch =>
      rw [if_pos hbranch]
      exact rendered_inStmt s (w := { w.push with env := w.env }) h
    case isFalse hbranch =>
      rw [if_neg hbranch]
      exact rendered_inStmt s (w := w.push) h.of_bind.1
  | .mk _ (s :: s' :: ss), w, _, h => rendered_inStmts (s :: s' :: ss) (w := w.push) h.of_bind.1

/-- So are those of an arm of a switch. -/
theorem rendered_inArm : (arm : SwitchArm) → ∀ {w : Site} {depth : Nat},
    Emit.Succeeds (armLines w.env depth arm) → ∀ o ∈ w.inArm arm, Rendered o
  | .labelled _ _ body, _, _, h => by
    obtain ⟨hlabel, _, h⟩ := h.of_bind
    exact List.forall_mem_cons.2
      ⟨.inl (succeeds_render hlabel.of_bind.1), rendered_inBlock body h.of_bind.1⟩
  | .otherwise _ body, _, _, h => by
    obtain ⟨-, _, h⟩ := h.of_bind
    exact rendered_inBlock body h.of_bind.1

/-- So are those of the arms of a switch. -/
theorem rendered_inArms : (arms : List SwitchArm) → ∀ {w : Site} {depth : Nat},
    Emit.Succeeds (armsLines w.env depth arms) → ∀ o ∈ w.inArms arms, Rendered o
  | [], _, _, _ => List.forall_mem_nil _
  | arm :: arms, _, _, h => by
    obtain ⟨harm, _, h⟩ := h.of_bind
    exact List.forall_mem_append.2 ⟨rendered_inArm arm harm, rendered_inArms arms h.of_bind.1⟩

end

end Site

/-! ## Programs -/

lemma succeeds_declarationText {env : Env} {ds : List FieldDecl}
    (h : Emit.Succeeds (globalLines env ds)) :
    ∀ d ∈ ds, Emit.Succeeds (declarationText env d.type d.name d.init) := by
  induction ds with
  | nil => exact List.forall_mem_nil _
  | cons d ds ih =>
    obtain ⟨hd, _, h⟩ := h.of_bind
    exact List.forall_mem_cons.2 ⟨hd, ih h.of_bind.1⟩

lemma succeeds_stmtsLines {env : Env} {ds : List MethodDecl}
    (h : Emit.Succeeds (functionsLines env ds)) :
    ∀ d ∈ ds, Emit.Succeeds (stmtsLines (env.enter d) 1 d.body.stmts) := by
  induction ds with
  | nil => exact List.forall_mem_nil _
  | cons d ds ih =>
    obtain ⟨hd, _, h⟩ := h.of_bind
    obtain ⟨-, _, hd⟩ := hd.of_bind
    exact List.forall_mem_cons.2 ⟨hd.of_bind.1, ih h.of_bind.1⟩

/-- When a program is generated, so are all its fields and methods. -/
lemma succeeds_of_generate {p : Program} {layout : Layout} {text : String}
    (h : p.generate layout = .ok text) :
    Emit.Succeeds (globalLines (Env.ofProgram p) p.fields) ∧
      Emit.Succeeds (functionsLines (Env.ofProgram p) p.methods) := by
  have hemit : Emit.Succeeds (SourceUnit.emit p layout.prototypes) := by
    rcases hrun : (SourceUnit.emit p layout.prototypes).runFrom startNeeds with ⟨e | parts, needs⟩
    · have hunit : SourceUnit.ofProgram p layout.prototypes = .error e := by
        rw [SourceUnit.ofProgram, hrun]
      rw [Program.generate, hunit] at h
      cases h
    · exact ⟨startNeeds, parts, needs, hrun⟩
  obtain ⟨hfields, _, hrest⟩ := hemit.of_bind
  refine ⟨hfields, ?_⟩
  simp only at hrest
  split at hrest
  case isTrue =>
    obtain ⟨-, _, hrest⟩ := hrest.of_bind
    exact hrest.of_bind.1
  case isFalse =>
    obtain ⟨-, _, hrest⟩ := hrest.of_bind
    exact hrest.of_bind.1

end Target

open Target

/-- **The expressions of a program that is generated are written at their sites.** -/
theorem Program.rendered_of_mem_occurrences {p : Program} {layout : Layout} {text : String}
    (hgenerated : p.generate layout = .ok text) {s : Scopes} {o : Occurrence}
    (ho : o ∈ p.occurrences s) : Rendered o := by
  obtain ⟨hfields, hmethods⟩ := succeeds_of_generate hgenerated
  obtain ⟨c, hc, ho⟩ := List.mem_flatMap.1 ho
  obtain ⟨m, hm, ho⟩ := List.mem_flatMap.1 ho
  cases m with
  | field d =>
    have hd : d ∈ p.fields := List.mem_flatMap.2 ⟨c, hc, ClassDecl.mem_fields.2 hm⟩
    exact rendered_initial (w := Site.ofClass s p c.name)
      (succeeds_declarationText hfields d hd) o ho
  | method d =>
    have hd : d ∈ p.methods := List.mem_flatMap.2 ⟨c, hc, ClassDecl.mem_methods.2 hm⟩
    exact Site.rendered_inStmts _ (w := (Site.ofClass s p c.name).enter d)
      (succeeds_stmtsLines hmethods d hd) o ho

end ClassLang
