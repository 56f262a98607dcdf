import ClassLang.Proofs.Analysis.Visits
import ClassLang.Proofs.Target.CheckedSites
import Mathlib.Logic.Relation

set_option autoImplicit false

/-!
# The statements and expressions of a program

A program has statements, which have statements inside them and expressions of their own, and the
expressions have parts. All of them stand at sites, and the check of an accepted program has come by
each of these: a statement passes at its site, and an expression has a type there.

The braces around the elements of an array are the one exception. They have no type of their own
where an array is declared, but their elements have.

## Main definitions

* `ClassLang.Stmt.children`, `ClassLang.Stmt.exprs` — what stands directly in a statement.
* `ClassLang.Program.Contains`, `ClassLang.Program.HasNode` — the statements of a program, and its
  expressions with all their parts.
* `ClassLang.Program.StmtAt`, `ClassLang.Program.NodeAt` — the same with the sites of both.

## Main results

* `ClassLang.Program.Contains.exists_stmtAt`, `ClassLang.Program.HasNode.exists_nodeAt` — all
  statements and expressions stand at sites.
* `ClassLang.Program.passes_of_stmtAt` — the statements of an accepted program pass at their sites.
* `ClassLang.Program.exists_typeAs_of_nodeAt` — its expressions have types at theirs.
-/

namespace ClassLang

open Relation (ReflTransGen)

/-! ## Statements and expressions -/

namespace Stmt

/-- The statements directly inside a statement. -/
def children : Stmt → List Stmt
  | .block body | .ifThen _ _ body | .whileLoop _ _ body | .doWhile _ body _
  | .forLoop _ _ _ _ body => body.stmts
  | .ifElse _ _ thenBranch elseBranch => thenBranch.stmts ++ elseBranch.stmts
  | .switch _ _ arms => arms.flatMap fun arm => arm.body.stmts
  | .varDecl _ | .ret _ _ | .expr _ | .breakOff _ | .continueOn _ => []

/-- The second statement is the first one, or stands inside it. -/
def Contains : Stmt → Stmt → Prop :=
  ReflTransGen fun s s' => s' ∈ s.children

end Stmt

/-- The expressions of the first clause of a `for` loop. -/
def ForInit.exprs : ForInit → List Expr
  | .decl d => d.init.toList
  | .expr e => [e]

/-- The expressions of a statement, without those of the statements inside it. -/
def Stmt.exprs : Stmt → List Expr
  | .varDecl d => d.init.toList
  | .ifThen _ c _ | .ifElse _ c _ _ | .whileLoop _ c _ | .doWhile _ _ c => [c]
  | .forLoop _ init c update _ => init.toList.flatMap ForInit.exprs ++ (c.toList ++ update.toList)
  | .switch _ c arms => c :: arms.filterMap SwitchArm.label?
  | .ret _ value => value.toList
  | .expr e => [e]
  | .block _ | .breakOff _ | .continueOn _ => []

namespace Expr

/-- An expression and its parts, each with its role. -/
def nodes (e : Expr) : List (Role × Expr) :=
  (.value, e) :: e.parts

/-- Whether the expression is an array in braces. -/
def isBraces : Expr → Bool
  | .arrayInit _ _ => true
  | _ => false

/-- The parts of several expressions are the nodes of each. -/
lemma partsOfAll_eq (es : List Expr) : partsOfAll es = es.flatMap nodes := by
  induction es with
  | nil => rfl
  | cons e es ih => rw [partsOfAll, ih, List.flatMap_cons, nodes]

end Expr

namespace Program

/-- A statement of a method of the program. -/
def Contains (p : Program) (s : Stmt) : Prop :=
  ∃ d ∈ p.methods, ∃ top ∈ d.body.stmts, top.Contains s

/-- An expression of the program, or a part of one, with its role. -/
def HasNode (p : Program) (x : Role × Expr) : Prop :=
  ∃ e, ((∃ d ∈ p.fields, d.init = some e) ∨ ∃ s, p.Contains s ∧ e ∈ s.exprs) ∧ x ∈ e.nodes

end Program

/-! ## Sites -/

namespace Target.Site

/-- Statements one after the other with their sites. -/
def listed (w : Site) : List Stmt → List (Site × Stmt)
  | [] => []
  | s :: ss => (w, s) :: (w.after s).listed ss

/-- The statements directly inside a statement with their sites. -/
def children (w : Site) : Stmt → List (Site × Stmt)
  | .block body | .ifThen _ _ body | .whileLoop _ _ body | .doWhile _ body _ =>
    w.push.listed body.stmts
  | .ifElse _ _ thenBranch elseBranch =>
    w.push.listed thenBranch.stmts ++ (w.otherwise elseBranch.stmts).listed elseBranch.stmts
  | .forLoop _ init _ _ body => (w.push.afterInit init).push.listed body.stmts
  | .switch _ _ arms => arms.flatMap fun arm => w.push.listed arm.body.stmts
  | .varDecl _ | .ret _ _ | .expr _ | .breakOff _ | .continueOn _ => []

lemma map_snd_listed (w : Site) (ss : List Stmt) : (w.listed ss).map Prod.snd = ss := by
  induction ss generalizing w with
  | nil => rfl
  | cons s ss ih => rw [listed, List.map_cons, ih]

lemma map_snd_children (w : Site) (s : Stmt) : (w.children s).map Prod.snd = s.children := by
  cases s with
  | switch line c arms => simp only [children, Stmt.children, List.map_flatMap, map_snd_listed]
  | ifElse line c body other => simp only [children, Stmt.children, List.map_append, map_snd_listed]
  | varDecl | ret | expr | breakOff | continueOn => rfl
  | _ => exact map_snd_listed _ _

end Target.Site

open Target

namespace Program

/-- A statement of the program with its site, from the scopes that the check leaves behind. -/
def StmtAt (p : Program) (s : Scopes) (x : Site × Stmt) : Prop :=
  ∃ c ∈ p.classes, ∃ d ∈ c.methods,
    ∃ top ∈ ((Site.ofClass s p c.name).enter d).listed d.body.stmts,
      ReflTransGen (fun x y => y ∈ x.1.children x.2) top x

/-- An expression of the program, or a part of one, with its role and its site. -/
def NodeAt (p : Program) (s : Scopes) (w : Site) (x : Role × Expr) : Prop :=
  ∃ e, (w, e) ∈ p.occurrences s ∧ x ∈ e.nodes

end Program

/-! ## Everything stands at a site -/

/-- The statements inside a statement stand at sites inside its own. -/
lemma Target.Site.exists_of_contains {s s' : Stmt} (h : s.Contains s') (w : Site) :
    ∃ w', ReflTransGen (fun x y : Site × Stmt => y ∈ x.1.children x.2) (w, s) (w', s') := by
  induction h with
  | refl => exact ⟨w, .refl⟩
  | @tail t t' _ hchild ih =>
    obtain ⟨w', hpath⟩ := ih
    rw [← w'.map_snd_children] at hchild
    obtain ⟨⟨w'', _⟩, hsited, rfl⟩ := List.mem_map.1 hchild
    exact ⟨w'', hpath.tail hsited⟩

/-- **All statements of a program stand at sites.** -/
lemma Program.Contains.exists_stmtAt {p : Program} {s : Stmt} (h : p.Contains s)
    (scopes : Scopes) : ∃ w, p.StmtAt scopes (w, s) := by
  obtain ⟨d, hd, top, htop, hinside⟩ := h
  obtain ⟨c, hc, hd⟩ := List.mem_flatMap.1 hd
  rw [← Site.map_snd_listed ((Site.ofClass scopes p c.name).enter d) d.body.stmts] at htop
  obtain ⟨⟨w, _⟩, hlisted, rfl⟩ := List.mem_map.1 htop
  obtain ⟨w', hpath⟩ := Site.exists_of_contains hinside w
  exact ⟨w', c, hc, d, hd, _, hlisted, hpath⟩

namespace Target.Site

variable {w : Site} {o : Occurrence} {x : Role × Expr} {e : Expr}

lemma inBlock_eq (w : Site) (body : Block) : w.inBlock body = w.push.inStmts body.stmts := by
  cases body
  rfl

lemma inElse_eq (w : Site) (body : Block) :
    w.inElse body = (w.otherwise body.stmts).inStmts body.stmts := by
  cases body
  rfl

lemma mem_inStmts {ss : List Stmt} :
    o ∈ w.inStmts ss ↔ ∃ y ∈ w.listed ss, o ∈ y.1.inStmt y.2 := by
  induction ss generalizing w with
  | nil => simp [inStmts, listed]
  | cons s ss ih => simp only [inStmts, listed, List.mem_append, ih, List.exists_mem_cons_iff]

lemma mem_inArms {arms : List SwitchArm} :
    o ∈ w.inArms arms ↔ ∃ arm ∈ arms, o ∈ w.inArm arm := by
  induction arms with
  | nil => simp [inArms]
  | cons arm arms ih => simp only [inArms, List.mem_append, ih, List.exists_mem_cons_iff]

lemma mem_inArm_of_mem_body {arm : SwitchArm} (h : o ∈ w.push.inStmts arm.body.stmts) :
    o ∈ w.inArm arm := by
  rw [← inBlock_eq] at h
  cases arm with
  | labelled line label body => exact List.mem_cons_of_mem _ h
  | otherwise line body => exact h

/-- The expressions of a statement inside another one are expressions of that. -/
lemma mem_inStmt_of_child {s : Stmt} {y : Site × Stmt} (hy : y ∈ w.children s)
    (ho : o ∈ y.1.inStmt y.2) : o ∈ w.inStmt s := by
  -- the statements of each list have their expressions in that of the list
  have hlisted : ∀ {w' : Site} {ss : List Stmt}, y ∈ w'.listed ss → o ∈ w'.inStmts ss :=
    fun hmem => mem_inStmts.2 ⟨y, hmem, ho⟩
  cases s with
  | block body =>
    rw [inStmt, inBlock_eq]
    exact hlisted hy
  | ifThen line c body | whileLoop line c body | doWhile line body c =>
    rw [inStmt, inBlock_eq]
    exact List.mem_cons_of_mem _ (hlisted hy)
  | ifElse line c body other =>
    rw [inStmt, inBlock_eq, inElse_eq]
    refine List.mem_cons_of_mem _ (List.mem_append.2 ?_)
    exact (List.mem_append.1 hy).imp hlisted hlisted
  | forLoop line init c update body =>
    simp only [inStmt, inBlock_eq, List.mem_append]
    exact .inr (.inr (.inr (hlisted hy)))
  | switch line c arms =>
    obtain ⟨arm, harm, hy⟩ := List.mem_flatMap.1 hy
    exact List.mem_cons_of_mem _
      (mem_inArms.2 ⟨arm, harm, mem_inArm_of_mem_body (hlisted hy)⟩)
  | varDecl | ret | expr | breakOff | continueOn => cases hy

/-- The nodes of an initial value, but for its braces, are nodes of its occurrences. -/
lemma exists_mem_initial (w : Site) (type : TypeExpr) (hx : x ∈ e.nodes)
    (hbraces : x.2.isBraces = false) : ∃ o ∈ w.initial type (some e), x ∈ o.2.nodes := by
  cases e with
  | arrayInit line elements =>
    rw [initial]
    split
    · exact ⟨_, List.mem_singleton_self _, hx⟩
    · rw [Expr.nodes, Expr.parts, Expr.partsOfAll_eq, List.mem_cons] at hx
      rcases hx with rfl | hx
      · cases hbraces
      · obtain ⟨element, helement, hx⟩ := List.mem_flatMap.1 hx
        exact ⟨(w, element), List.mem_map_of_mem helement, hx⟩
  | _ => exact ⟨_, List.mem_singleton_self _, hx⟩

lemma mem_optional {value : Option Expr} (he : e ∈ value.toList) : (w, e) ∈ w.optional value :=
  List.mem_map_of_mem he

/-- The nodes of the expressions of a statement, but for braces, are nodes of its occurrences. -/
lemma exists_mem_inStmt (w : Site) {s : Stmt} (he : e ∈ s.exprs) (hx : x ∈ e.nodes)
    (hbraces : x.2.isBraces = false) : ∃ o ∈ w.inStmt s, x ∈ o.2.nodes := by
  have hinitial : ∀ (w' : Site) (d : VarDecl), e ∈ d.init.toList →
      ∃ o ∈ w'.initial d.type d.init, x ∈ o.2.nodes := by
    intro w' d hinit
    rw [Option.mem_toList.1 hinit]
    exact exists_mem_initial w' d.type hx hbraces
  cases s with
  | varDecl d => exact hinitial _ d he
  | ifThen | ifElse | whileLoop | doWhile =>
    obtain rfl := List.mem_singleton.1 he
    exact ⟨_, List.mem_cons_self, hx⟩
  | forLoop line init c update body =>
    simp only [Stmt.exprs, inStmt, List.mem_append] at he ⊢
    rcases he with he | he | he
    · obtain ⟨i, hi, he⟩ := List.mem_flatMap.1 he
      rw [Option.mem_toList.1 hi]
      cases i with
      | decl d =>
        obtain ⟨o, ho, hx⟩ := hinitial (w.push.within d) d he
        exact ⟨o, .inl ho, hx⟩
      | expr e' =>
        obtain rfl := List.mem_singleton.1 he
        exact ⟨_, .inl List.mem_cons_self, hx⟩
    · exact ⟨_, .inr (.inl (mem_optional he)), hx⟩
    · exact ⟨_, .inr (.inr (.inl (mem_optional he))), hx⟩
  | switch line c arms =>
    rcases List.mem_cons.1 he with rfl | he
    · exact ⟨_, List.mem_cons_self, hx⟩
    · obtain ⟨arm, harm, hlabel⟩ := List.mem_filterMap.1 he
      cases arm with
      | labelled line label body =>
        obtain rfl := Option.some.inj hlabel
        exact ⟨(w, label), List.mem_cons_of_mem _ (mem_inArms.2 ⟨_, harm, List.mem_cons_self⟩), hx⟩
      | otherwise line body => cases hlabel
  | ret line value => exact ⟨_, mem_optional he, hx⟩
  | expr e' =>
    obtain rfl := List.mem_singleton.1 he
    exact ⟨_, List.mem_singleton_self _, hx⟩
  | block | breakOff | continueOn => cases he

end Target.Site

/-- The expressions of a statement of a program are expressions of the program. -/
lemma Program.mem_occurrences_of_stmtAt {p : Program} {scopes : Scopes} {x : Site × Stmt}
    (h : p.StmtAt scopes x) {o : Occurrence} (ho : o ∈ x.1.inStmt x.2) :
    o ∈ p.occurrences scopes := by
  obtain ⟨c, hc, d, hd, top, htop, hpath⟩ := h
  have htopmost : o ∈ top.1.inStmt top.2 := by
    induction hpath with
    | refl => exact ho
    | tail _ hchild ih => exact ih (Site.mem_inStmt_of_child hchild ho)
  refine List.mem_flatMap.2 ⟨c, hc, List.mem_flatMap.2 ⟨_, ClassDecl.mem_methods.1 hd, ?_⟩⟩
  exact Site.mem_inStmts.2 ⟨top, htop, htopmost⟩

/-- **All expressions of a program, and all their parts, stand at sites**, but for the braces around
the elements of an array. -/
lemma Program.HasNode.exists_nodeAt {p : Program} {x : Role × Expr} (h : p.HasNode x)
    (hbraces : x.2.isBraces = false) (scopes : Scopes) : ∃ w, p.NodeAt scopes w x := by
  obtain ⟨e, ⟨d, hd, hinit⟩ | ⟨s, hs, he⟩, hx⟩ := h
  · obtain ⟨c, hc, hd⟩ := List.mem_flatMap.1 hd
    obtain ⟨⟨w, e'⟩, ho, hx⟩ :=
      Site.exists_mem_initial (Site.ofClass scopes p c.name) d.type hx hbraces
    rw [← hinit] at ho
    exact ⟨w, e', List.mem_flatMap.2
      ⟨c, hc, List.mem_flatMap.2 ⟨_, ClassDecl.mem_fields.1 hd, ho⟩⟩, hx⟩
  · obtain ⟨w, hw⟩ := hs.exists_stmtAt scopes
    obtain ⟨⟨w', e'⟩, ho, hx⟩ := Site.exists_mem_inStmt w he hx hbraces
    exact ⟨w', e', mem_occurrences_of_stmtAt hw ho, hx⟩

/-! ## Statements pass at their sites -/

namespace Target.Site

variable {w : Site} {g : Table} {p : Program} {c : String} {a b : Analyzer}

/-- The check comes to a statement at its site, and the statement passes. -/
def Passes (g : Table) (p : Program) (c : String) (x : Site × Stmt) : Prop :=
  ∃ a b, x.1.Reached g p c a ∧ (Check.stmt x.2).runFrom a = (.ok (), b)

lemma Reached.passes_listed {ss : List Stmt} (h : w.Reached g p c a)
    (hrun : (Check.stmts ss).runFrom a = (.ok (), b)) : ∀ y ∈ w.listed ss, Passes g p c y := by
  induction ss generalizing w a with
  | nil => exact List.forall_mem_nil _
  | cons s ss ih =>
    obtain ⟨_, a', hfirst, hrest⟩ := Check.runFrom_bind_eq_ok.1 hrun
    have hfirst := Check.runFrom_of_attempt (Check.agrees_stmt s) h.failFast hfirst
    exact List.forall_mem_cons.2 ⟨⟨a, a', h, hfirst⟩, ih (h.after hfirst) hrest⟩

/-- The statements of a block that passes pass. -/
lemma Reached.passes_block {body : Block} (h : w.Reached g p c a)
    (hrun : (Check.block body).runFrom a = (.ok (), b)) :
    ∀ y ∈ w.push.listed body.stmts, Passes g p c y := by
  cases body with
  | mk line ss =>
    obtain ⟨_, hss⟩ := Check.runFrom_of_withScope hrun
    exact h.push.passes_listed hss

lemma Reached.passes_else {body : Block} (h : w.Reached g p c a)
    (hrun : (Check.block body).runFrom a = (.ok (), b)) :
    ∀ y ∈ (w.otherwise body.stmts).listed body.stmts, Passes g p c y := by
  cases body with
  | mk line ss =>
    obtain ⟨_, hss⟩ := Check.runFrom_of_withScope hrun
    exact (h.otherwise ss).passes_listed hss

lemma Reached.passes_arm {type : Ty} {seen : Check.ArmsSeen} {arm : SwitchArm}
    (h : w.Reached g p c a) (hrun : (Check.arm type seen arm).runFrom a = (.ok (), b)) :
    ∀ y ∈ w.push.listed arm.body.stmts, Passes g p c y := by
  cases arm with
  | labelled line e body =>
    obtain ⟨_, _, -, h', hrun⟩ :=
      h.bind_confined (Check.confined_scoped.outer.label line type e) hrun
    obtain ⟨_, _, hbody, -⟩ := Check.runFrom_bind_eq_ok.1 hrun
    exact h'.passes_block hbody
  | otherwise line body =>
    simp only [Check.arm] at hrun
    exact h.passes_block (Check.runFrom_of_guard hrun).2

lemma Reached.passes_arms {type : Ty} {seen : Check.ArmsSeen} {arms : List SwitchArm}
    (h : w.Reached g p c a) (hrun : (Check.arms type seen arms).runFrom a = (.ok (), b)) :
    ∀ y ∈ arms.flatMap fun arm => w.push.listed arm.body.stmts, Passes g p c y := by
  induction arms generalizing seen a with
  | nil => exact List.forall_mem_nil _
  | cons first rest ih =>
    obtain ⟨a', hfirst, h', hrest⟩ := h.bind_arms hrun
    rw [List.flatMap_cons]
    exact List.forall_mem_append.2 ⟨h.passes_arm hfirst, ih h' hrest⟩

/-- What the check of a switch that passes asks of the condition and of the arms. -/
lemma Passes.switch {line : Nat} {e : Expr} {arms : List SwitchArm}
    (h : Passes g p c (w, .switch line e arms)) :
    ∃ type a b, Typing.typeOf w.scopes e = .ok type ∧ (type = .int ∨ type = .char) ∧
      w.Reached g p c a ∧ (Check.arms type {} arms).runFrom a = (.ok (), b) := by
  obtain ⟨a, b, hreached, hrun⟩ := h
  obtain ⟨type, a', he, h', hrun⟩ :=
    hreached.bind_confined (Check.confined_scoped.outer.typeOf e) hrun
  obtain ⟨hguard, hrun⟩ := Check.runFrom_of_guard hrun
  obtain ⟨b', harms⟩ := Check.runFrom_of_inContext hrun
  refine ⟨type, _, b', hreached.typeOf he, ?_, h'.setContext _, harms⟩
  simp only [Bool.and_eq_true, decide_eq_true_eq] at hguard
  tauto

/-- **What stands inside a statement that passes, passes.** -/
lemma Passes.child {x y : Site × Stmt} (h : Passes g p c x) (hy : y ∈ x.1.children x.2) :
    Passes g p c y := by
  obtain ⟨w, s⟩ := x
  cases s with
  | switch line e arms =>
    obtain ⟨type, a, b, -, -, hreached, harms⟩ := h.switch
    exact hreached.passes_arms harms y hy
  | block body =>
    obtain ⟨a, b, hreached, hrun⟩ := h
    exact hreached.passes_block hrun y hy
  | ifThen line e body =>
    obtain ⟨a, b, hreached, hrun⟩ := h
    obtain ⟨_, _, -, h', hrun⟩ :=
      hreached.bind_confined (Check.confined_scoped.outer.condition _ e) hrun
    exact h'.passes_block hrun y hy
  | ifElse line e body other =>
    obtain ⟨a, b, hreached, hrun⟩ := h
    obtain ⟨_, _, -, h', hrun⟩ :=
      hreached.bind_confined (Check.confined_scoped.outer.condition _ e) hrun
    obtain ⟨_, _, hbody, h'', hother⟩ := h'.bind_confined (Check.confined_scoped.block body) hrun
    exact (List.mem_append.1 hy).elim (h'.passes_block hbody y) (h''.passes_else hother y)
  | whileLoop line e body | doWhile line body e =>
    obtain ⟨a, b, hreached, hrun⟩ := h
    obtain ⟨_, _, -, h', hrun⟩ :=
      hreached.bind_confined (Check.confined_scoped.outer.condition _ e) hrun
    obtain ⟨_, hbody⟩ := Check.runFrom_of_inContext hrun
    exact (h'.setContext _).passes_block hbody y hy
  | forLoop line init e update body =>
    obtain ⟨a, b, hreached, hrun⟩ := h
    obtain ⟨_, hrun⟩ := Check.runFrom_of_withScope hrun
    obtain ⟨_, _, hinit, hrun⟩ := Check.runFrom_bind_eq_ok.1 hrun
    obtain ⟨h₀, -⟩ := hreached.push.afterInit hinit
    obtain ⟨_, _, -, h₁, hrun⟩ :=
      h₀.bind_confined (Check.confined_scoped.outer.forCondition e) hrun
    obtain ⟨_, _, -, h₂, hrun⟩ :=
      h₁.bind_confined (Check.confined_scoped.outer.forUpdate update) hrun
    obtain ⟨_, hbody⟩ := Check.runFrom_of_inContext hrun
    exact (h₂.setContext _).passes_block hbody y hy
  | varDecl | ret | expr | breakOff | continueOn => cases hy

end Target.Site

namespace Program

variable {a : Analyzer} {p : Program}

/-- **The statements of an accepted program pass at their sites.** -/
theorem passes_of_stmtAt (haccepted : (a.analyze p).1 = []) {x : Site × Stmt}
    (hx : p.StmtAt (a.analyze p).2.scopes x) : ∃ g c, Site.Passes g p c x := by
  obtain ⟨g, hscopes, -, hbodies⟩ := Analyzer.exists_describes haccepted
  rw [hscopes] at hx
  obtain ⟨c, hc, d, hd, top, htop, hpath⟩ := hx
  obtain ⟨plan, hplan, hpasses⟩ := hbodies c hc _ (ClassDecl.mem_methods.1 hd)
  obtain ⟨_, _, _, _, _, -, -, -, hreached, hss⟩ := Site.exists_reached_enter hplan hpasses
  have hpasses := hreached.passes_listed hss top htop
  refine ⟨g, c.name, ?_⟩
  clear hreached
  induction hpath with
  | refl => exact hpasses
  | tail _ hchild ih => exact ih.child hchild

/-- **The expressions of an accepted program, and all their parts, have types in their roles** at
their sites. -/
theorem exists_typeAs_of_nodeAt (haccepted : (a.analyze p).1 = []) {w : Site} {x : Role × Expr}
    (hx : p.NodeAt (a.analyze p).2.scopes w x) :
    w.scopes.global.Describes p ∧ ∃ t, Typing.typeAs w.scopes x.1 x.2 = .ok t := by
  obtain ⟨e, he, hx⟩ := hx
  obtain ⟨g, c, hdescribes, -, hfollows, t, htype⟩ := sound_of_mem_occurrences haccepted he
  have hvalue : Typing.typeAs w.scopes .value e = .ok t := htype
  obtain ⟨u, hu⟩ := Typing.exists_typeAs_parts hvalue x hx
  rw [hfollows.global]
  exact ⟨hdescribes, u, hu⟩

end Program

end ClassLang
