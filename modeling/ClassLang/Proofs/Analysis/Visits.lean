import ClassLang.Proofs.Analysis.FailFast
import Mathlib.Logic.Relation

set_option autoImplicit false

/-!
# The parts of a check of a program

The check of a program is made of the checks of its parts: of the bodies of its members, of the
blocks in them, of the statements of the blocks and of the blocks inside those. Each is run from the
state that what comes before it has left. When errors are collected, what the check of a part
reports is in the report of the whole.

## Main definitions

* `ClassLang.Check.Site` — what is checked: a program, a member, a block, a statement.
* `ClassLang.Check.Part` — the check of a site runs the check of another one as a part.
* `ClassLang.Program.Visits` — the check of a program comes to a block in a state.

## Main results

* `ClassLang.Check.Part.within` — what a part reports is in the report of the whole.
* `ClassLang.Program.Visits.within` — the same for every block that the check of a program comes to.
-/

namespace ClassLang

namespace Check

variable {α β γ : Type}

/-! ## A check inside another -/

/-- Errors are collected when `q` runs from `b`, and all that it has reported in the end, `p` has
reported in the end of its run from `a`. -/
structure Within (q : Check α) (b : Analyzer) (p : Check β) (a : Analyzer) : Prop where
  collects : b.failFast = false
  errors : (q.runFrom b).2.errors <+: (p.runFrom a).2.errors

section Within

variable {q : Check α} {p : Check β} {f : β → Check γ} {a b : Analyzer}

lemma Within.refl (p : Check β) (ha : a.failFast = false) : Within p a p a :=
  ⟨ha, List.prefix_rfl⟩

/-- In the first of two checks. -/
lemma Within.bind_left (h : Within q b p a) (hp : Agrees p) (hf : ∀ x, Agrees (f x))
    (ha : a.failFast = false) : Within q b (p >>= f) a := by
  refine ⟨h.collects, h.errors.trans ?_⟩
  have hmode := (hp.collects a ha).1
  rw [runFrom_bind]
  rcases hrun : p.runFrom a with ⟨e | x, c⟩
  · exact List.prefix_rfl
  · rw [hrun] at hmode
    exact ((hf x).collects c hmode).2

/-- In the second of two checks. -/
lemma Within.bind_right {x : β} {c : Analyzer} (hrun : p.runFrom a = (.ok x, c))
    (h : Within q b (f x) c) : Within q b (p >>= f) a := by
  refine ⟨h.collects, ?_⟩
  rw [runFrom_bind_of_ok hrun]
  exact h.errors

/-- In a check that is recovered from. -/
lemma Within.tryCatch {p : Check Unit} {handler : SemanticError → Check Unit}
    (h : Within q b p a) (hp : Agrees p) (hh : ∀ e, Records (handler e) e)
    (ha : a.failFast = false) : Within q b (tryCatch p handler) a := by
  refine ⟨h.collects, h.errors.trans ?_⟩
  have hmode := (hp.collects a ha).1
  rw [runFrom_tryCatch]
  rcases hrun : p.runFrom a with ⟨e | x, c⟩
  · rw [hrun] at hmode
    obtain ⟨y, d, hhandler, -, herrors⟩ := (hh e).full c hmode
    simp only [hhandler, herrors]
    exact List.prefix_append _ _
  · exact List.prefix_rfl

lemma Within.attempt {p : Check Unit} (h : Within q b p a) (hp : Agrees p)
    (ha : a.failFast = false) : Within q b (attempt p) a :=
  .bind_right (x := a.context.mark a.scopes.depth) rfl (h.tryCatch hp (records_recover _) ha)

lemma Within.withScope {p : Check Unit} (h : Within q b p { a with scopes := a.scopes.push })
    (hp : Agrees p) (ha : a.failFast = false) : Within q b (withScope p) a :=
  .bind_right (x := ()) rfl (h.bind_left hp (fun _ => agrees_modifyScopes _) ha)

lemma Within.inContext {p : Check Unit} {enter leave : Context → Context}
    (h : Within q b p { a with context := enter a.context }) (hp : Agrees p)
    (ha : a.failFast = false) :
    Within q b (do modifyContext enter; p; modifyContext leave) a :=
  .bind_right (x := ()) rfl (h.bind_left hp (fun _ => agrees_modifyContext _) ha)

end Within

/-! ## Sites -/

/-- What is checked on the way through a program. -/
inductive Site where
  | program (p : Program)
  | classes (plans : List (ClassDecl × List MemberPlan))
  | members (plans : List MemberPlan)
  | member (plan : MemberPlan)
  | block (body : Block)
  | stmts (ss : List Stmt)
  | stmt (s : Stmt)
  | arms (type : Ty) (seen : ArmsSeen) (cases : List SwitchArm)
  | arm (type : Ty) (seen : ArmsSeen) (a : SwitchArm)

/-- The check of a site. -/
def Site.check : Site → Check Unit
  | program p => Check.program p
  | classes plans => classBodies plans
  | members plans => memberBodies plans
  | member plan => memberBody plan
  | block body => Check.block body
  | stmts ss => Check.stmts ss
  | stmt s => Check.stmt s
  | arms type seen cases => Check.arms type seen cases
  | arm type seen a => Check.arm type seen a

/-- The check of the first site from the first state runs the check of the second site from the
second state. -/
inductive Part : Site × Analyzer → Site × Analyzer → Prop
  | bodies {p : Program} {a b : Analyzer} {plans : List (ClassDecl × List MemberPlan)}
      (hrun : (declareClasses p.classes >>= declareAllMembers).runFrom a = (.ok plans, b)) :
      Part (.program p, a) (.classes plans, b)
  | firstClass {c : ClassDecl} {plans : List MemberPlan}
      {rest : List (ClassDecl × List MemberPlan)} {a : Analyzer} :
      Part (.classes ((c, plans) :: rest), a)
        (.members plans, { a with scopes := a.scopes.enterClass c.name })
  | laterClass {c : ClassDecl} {plans : List MemberPlan}
      {rest : List (ClassDecl × List MemberPlan)} {a b : Analyzer}
      (hrun : (classBodies [(c, plans)]).runFrom a = (.ok (), b)) :
      Part (.classes ((c, plans) :: rest), a) (.classes rest, b)
  | firstMember {plan : MemberPlan} {plans : List MemberPlan} {a : Analyzer} :
      Part (.members (plan :: plans), a) (.member plan, a)
  | laterMember {plan : MemberPlan} {plans : List MemberPlan} {a b : Analyzer}
      (hrun : (memberBodies [plan]).runFrom a = (.ok (), b)) :
      Part (.members (plan :: plans), a) (.members plans, b)
  | methodBody {d : MethodDecl} {result : Ty} {params : List (String × Ty)} {a b : Analyzer}
      (hrun : (bindParameters d.params params).runFrom
        { a with
          scopes := a.scopes.push
          context := { a.context with returnType := some result } } = (.ok (), b)) :
      Part (.member (.method d result params), a) (.block d.body, b)
  | stmts {line : Nat} {ss : List Stmt} {a : Analyzer} :
      Part (.block (.mk line ss), a) (.stmts ss, { a with scopes := a.scopes.push })
  | firstStmt {s : Stmt} {ss : List Stmt} {a : Analyzer} : Part (.stmts (s :: ss), a) (.stmt s, a)
  | laterStmt {s : Stmt} {ss : List Stmt} {a b : Analyzer}
      (hrun : (attempt (stmt s)).runFrom a = (.ok (), b)) :
      Part (.stmts (s :: ss), a) (.stmts ss, b)
  | block {body : Block} {a : Analyzer} : Part (.stmt (.block body), a) (.block body, a)
  | ifThen {line : Nat} {c : Expr} {body : Block} {a b : Analyzer}
      (hrun : (condition .ifStmt c).runFrom a = (.ok (), b)) :
      Part (.stmt (.ifThen line c body), a) (.block body, b)
  | thenBranch {line : Nat} {c : Expr} {body other : Block} {a b : Analyzer}
      (hrun : (condition .ifStmt c).runFrom a = (.ok (), b)) :
      Part (.stmt (.ifElse line c body other), a) (.block body, b)
  | elseBranch {line : Nat} {c : Expr} {body other : Block} {a b b' : Analyzer}
      (hrun : (condition .ifStmt c).runFrom a = (.ok (), b))
      (hbody : (Check.block body).runFrom b = (.ok (), b')) :
      Part (.stmt (.ifElse line c body other), a) (.block other, b')
  | whileLoop {line : Nat} {c : Expr} {body : Block} {a b : Analyzer}
      (hrun : (condition .whileLoop c).runFrom a = (.ok (), b)) :
      Part (.stmt (.whileLoop line c body), a)
        (.block body, { b with context := b.context.push .loop })
  | doWhile {line : Nat} {c : Expr} {body : Block} {a b : Analyzer}
      (hrun : (condition .whileLoop c).runFrom a = (.ok (), b)) :
      Part (.stmt (.doWhile line body c), a)
        (.block body, { b with context := b.context.push .loop })
  | forLoop {line : Nat} {init : Option ForInit} {c update : Option Expr} {body : Block}
      {a b : Analyzer}
      (hrun : (do forInit init; forCondition c; forUpdate update : Check Unit).runFrom
        { a with scopes := a.scopes.push } = (.ok (), b)) :
      Part (.stmt (.forLoop line init c update body), a)
        (.block body, { b with context := b.context.push .loop })
  | switch {line : Nat} {c : Expr} {cases : List SwitchArm} {type : Ty} {a b : Analyzer}
      (hrun : (typeOf c).runFrom a = (.ok type, b)) (htype : type = .int ∨ type = .char) :
      Part (.stmt (.switch line c cases), a)
        (.arms type {} cases, { b with context := b.context.pushSwitch type })
  | firstArm {type : Ty} {seen : ArmsSeen} {first : SwitchArm} {rest : List SwitchArm}
      {a : Analyzer} : Part (.arms type seen (first :: rest), a) (.arm type seen first, a)
  | laterArm {type : Ty} {seen : ArmsSeen} {first : SwitchArm} {rest : List SwitchArm}
      {a b : Analyzer} (hrun : (attempt (Check.arm type seen first)).runFrom a = (.ok (), b)) :
      Part (.arms type seen (first :: rest), a)
        (.arms type (seen.after b.scopes type first) rest, b)
  | labelled {type : Ty} {seen : ArmsSeen} {line : Nat} {e : Expr} {body : Block} {a b : Analyzer}
      (hrun : (label line type e).runFrom a = (.ok (), b)) :
      Part (.arm type seen (.labelled line e body), a) (.block body, b)
  | otherwise {type : Ty} {seen : ArmsSeen} {line : Nat} {body : Block} {a : Analyzer}
      (hseen : seen.hasDefault = false) :
      Part (.arm type seen (.otherwise line body), a) (.block body, a)

lemma agrees_stmt (s : Stmt) : Agrees (stmt s) :=
  agrees_scoped.stmt_of_or (agrees_scoped.varDecl_or_stmt s)

/-- The later checks of a list run from where the first one has stopped. -/
lemma runFrom_memberBodies_cons (plan : MemberPlan) (plans : List MemberPlan) {a b : Analyzer}
    (hrun : (memberBodies [plan]).runFrom a = (.ok (), b)) :
    (memberBodies (plan :: plans)).runFrom a = (memberBodies plans).runFrom b := by
  obtain ⟨m, c, hmark, hrest⟩ := runFrom_bind_eq_ok.1 hrun
  obtain ⟨u, d, hbody, hlast⟩ := runFrom_bind_eq_ok.1 hrest
  obtain ⟨-, rfl⟩ := Prod.mk.inj hlast
  rw [memberBodies, runFrom_bind_of_ok hmark, runFrom_bind_of_ok hbody]

lemma runFrom_classBodies_cons (c : ClassDecl) (plans : List MemberPlan)
    (rest : List (ClassDecl × List MemberPlan)) {a b : Analyzer}
    (hrun : (classBodies [(c, plans)]).runFrom a = (.ok (), b)) :
    (classBodies ((c, plans) :: rest)).runFrom a = (classBodies rest).runFrom b := by
  obtain ⟨_, _, henter, hrun⟩ := runFrom_bind_eq_ok.1 hrun
  obtain ⟨_, _, hbodies, hrun⟩ := runFrom_bind_eq_ok.1 hrun
  obtain ⟨_, _, hleave, hlast⟩ := runFrom_bind_eq_ok.1 hrun
  obtain ⟨-, rfl⟩ := Prod.mk.inj hlast
  rw [classBodies, runFrom_bind_of_ok henter, runFrom_bind_of_ok hbodies,
    runFrom_bind_of_ok hleave]

/-- A check that passes goes on collecting. -/
lemma Agrees.collects_of_ok {p : Check α} (hp : Agrees p) {a b : Analyzer} {x : α}
    (hrun : p.runFrom a = (.ok x, b)) (ha : a.failFast = false) : b.failFast = false := by
  have hmode := (hp.collects a ha).1
  rwa [hrun] at hmode

/-- **What a part reports is in the report of the whole.**

**Proof sketch.** By cases on the part. It runs as one of the checks that make up the whole, from the
state that those before it have left. Those behind it only add errors, and so does the recovery from
an error. -/
theorem Part.within {x y : Site} {a b : Analyzer} (h : Part (x, a) (y, b))
    (ha : a.failFast = false) : Within y.check b x.check a := by
  cases h with
  | @bodies p a b plans hrun =>
    have hdeclare : Agrees (declareClasses p.classes >>= declareAllMembers) :=
      (agrees_declareClasses _).bind agrees_declareAllMembers
    change Within _ b (declareClasses _ >>= fun classes => declareAllMembers classes >>= classBodies) a
    rw [← bind_assoc]
    exact .bind_right hrun (.refl _ (hdeclare.collects_of_ok hrun ha))
  | firstClass =>
    refine .bind_right (x := ()) rfl (Within.bind_left (.refl _ ha) (agrees_memberBodies _) ?_ ha)
    exact fun _ => (agrees_modifyScopes _).bind fun _ => agrees_classBodies _
  | laterClass hrun =>
    refine ⟨(agrees_classBodies _).collects_of_ok hrun ha, [], ?_⟩
    rw [List.append_nil, Site.check, Site.check, runFrom_classBodies_cons _ _ _ hrun]
  | firstMember =>
    have hrecover : ∀ (m : Mark) e, Records (do
        modifyContext fun c => { c with returnType := none }
        recover m e) e := fun m e => (records_recover m e).modifyContext _
    refine .bind_right (x := a.context.mark a.scopes.depth) rfl ?_
    refine Within.bind_left ?_ ?_ (fun _ => agrees_memberBodies _) ha
    · exact (Within.refl _ ha).tryCatch (agrees_memberBody _) (hrecover _) ha
    · exact (agrees_memberBody _).tryCatch (hrecover _)
  | laterMember hrun =>
    refine ⟨(agrees_memberBodies _).collects_of_ok hrun ha, [], ?_⟩
    rw [List.append_nil, Site.check, Site.check, runFrom_memberBodies_cons _ _ hrun]
  | @methodBody d result params a b hrun =>
    have hmode := (agrees_scoped.bindParameters d.params params).collects_of_ok hrun ha
    have hscope := agrees_scoped.methodScope d params
    refine .bind_right (x := ()) rfl (Within.bind_left ?_ (agrees_scoped.withScope hscope) ?_ ha)
    · exact Within.withScope (.bind_right hrun (.refl _ hmode)) hscope ha
    · exact fun _ => (agrees_modifyContext _).bind fun _ => agrees_compositional.failIf _ _
  | stmts => exact Within.withScope (.refl _ ha) (agrees_scoped.stmts _) ha
  | @firstStmt s ss a =>
    refine Within.bind_left ?_ ?_ (fun _ => agrees_scoped.stmts ss) ha
    · exact (Within.refl _ ha).attempt (agrees_stmt s) ha
    · exact agrees_compositional.attempt (agrees_stmt s)
  | @laterStmt s ss a b hrun =>
    have hs := agrees_compositional.attempt (agrees_stmt s)
    exact .bind_right hrun (.refl _ (hs.collects_of_ok hrun ha))
  | block => exact .refl _ ha
  | @ifThen line c body a b hrun =>
    have hmode := (agrees_compositional.condition .ifStmt c).collects_of_ok hrun ha
    exact .bind_right hrun (.refl _ hmode)
  | @thenBranch line c body other a b hrun =>
    have hmode := (agrees_compositional.condition .ifStmt c).collects_of_ok hrun ha
    exact .bind_right hrun ((Within.refl _ hmode).bind_left (agrees_scoped.block body)
      (fun _ => agrees_scoped.block other) hmode)
  | @elseBranch line c body other a b b' hrun hbody =>
    have hmode := (agrees_compositional.condition .ifStmt c).collects_of_ok hrun ha
    have hmode' := (agrees_scoped.block body).collects_of_ok hbody hmode
    exact .bind_right hrun (.bind_right hbody (.refl _ hmode'))
  | @whileLoop line c body a b hrun | @doWhile line c body a b hrun =>
    have hmode := (agrees_compositional.condition .whileLoop c).collects_of_ok hrun ha
    exact .bind_right hrun (Within.inContext (.refl _ hmode) (agrees_scoped.block body) hmode)
  | @forLoop line init c update body a b hrun =>
    have hhead : Agrees (do forInit init; forCondition c; forUpdate update : Check Unit) :=
      (agrees_scoped.forInit init).bind fun _ => (agrees_compositional.forCondition c).bind fun _ =>
        agrees_compositional.forUpdate update
    have hbody := agrees_scoped.block body
    have hmode := hhead.collects_of_ok hrun ha
    change Within _ _ (withScope (do
      forInit init; forCondition c; forUpdate update; withLoop (Check.block body))) a
    have hassoc : (do forInit init; forCondition c; forUpdate update; withLoop (Check.block body) :
        Check Unit) = (do forInit init; forCondition c; forUpdate update) >>=
          fun _ => withLoop (Check.block body) := by
      simp only [bind_assoc]
    rw [hassoc]
    refine Within.withScope ?_ (hhead.bind fun _ => agrees_compositional.withLoop hbody) ha
    exact .bind_right hrun (Within.inContext (.refl _ hmode) hbody hmode)
  | @switch line c cases type a b hrun htype =>
    have hmode := (agrees_compositional.typeOf c).collects_of_ok hrun ha
    have hguard : ¬ (type ≠ .int && type ≠ .char) = true := by
      rcases htype with rfl | rfl <;> decide
    refine .bind_right hrun ?_
    rw [if_neg hguard]
    exact Within.inContext (.refl _ hmode) (agrees_scoped.arms type {} cases) hmode
  | @firstArm type seen first rest a =>
    refine Within.bind_left ?_ ?_ (fun _ => ?_) ha
    · exact (Within.refl _ ha).attempt (agrees_scoped.arm type seen first) ha
    · exact agrees_compositional.attempt (agrees_scoped.arm type seen first)
    · exact agrees_look (fun a b hs _ => by rw [hs]) fun a => agrees_scoped.arms type _ rest
  | @laterArm type seen first rest a b hrun =>
    have hfirst := agrees_compositional.attempt (agrees_scoped.arm type seen first)
    have hmode := hfirst.collects_of_ok hrun ha
    exact .bind_right hrun (.bind_right (runFrom_get b) (.refl _ hmode))
  | @labelled type seen line e body a b hrun =>
    have hmode := (agrees_compositional.label line type e).collects_of_ok hrun ha
    exact .bind_right hrun ((Within.refl _ hmode).bind_left (agrees_scoped.block body)
      (fun _ => agrees_compositional.freshLabel line seen e) hmode)
  | @otherwise type seen line body a hseen =>
    simp only [Site.check, Check.arm, hseen]
    exact .refl _ ha

end Check

/-- The check of a program that collects errors comes to a block in a state. -/
def Program.Visits (p : Program) (body : Block) (a : Analyzer) : Prop :=
  Relation.ReflTransGen Check.Part (.program p, { failFast := false }) (.block body, a)

/-- **What the check of a block reports is in the report of the program**, for every block that the
check of the program comes to. -/
theorem Program.Visits.within {p : Program} {body : Block} {a : Analyzer} (h : p.Visits body a) :
    a.failFast = false ∧ ((Check.block body).runFrom a).2.errors <+: p.errors false := by
  have hwithin : ∀ x : Check.Site × Analyzer,
      Relation.ReflTransGen Check.Part (.program p, { failFast := false }) x →
      Check.Within x.1.check x.2 (Check.program p) { failFast := false } := by
    intro x hparts
    induction hparts with
    | refl => exact .refl _ rfl
    | tail _ hpart ih =>
      have hlast := Check.Part.within hpart ih.collects
      exact ⟨hlast.collects, hlast.errors.trans ih.errors⟩
  obtain ⟨hmode, herrors⟩ := hwithin _ h
  refine ⟨hmode, herrors.trans ?_⟩
  simp only [Program.errors, Analyzer.analyze]
  rcases (Check.program p).runFrom { failFast := false } with ⟨e | u, after⟩
  · exact List.prefix_append _ _
  · exact List.prefix_rfl

end ClassLang
