import ClassLang.Proofs.Analysis.FailFast
import Mathlib.Data.List.Perm.Basic

set_option autoImplicit false

/-!
# Declarations in any order

When failing fast, the passes that declare the classes of a program and their members are chains of
steps on the global scope, one step for each class and one for each member. Two such steps that
follow each other can change places: then they bind the same names, and the scopes after them look
alike. So a chain of steps can be gone through in any order.

## Main definitions

* `ClassLang.Check.Chain` — steps on the global scope, one after the other.
* `ClassLang.Check.Interchangeable` — steps that can change places.
* `ClassLang.Check.Introduces`, `ClassLang.Check.Declares` — the steps of the two passes.

## Main results

* `ClassLang.Check.Chain.perm` — a chain of such steps can be gone through in any order.
* `ClassLang.Check.introduces_interchangeable`, `ClassLang.Check.declares_interchangeable` — the steps
  of both passes can change places.
* `ClassLang.Check.declareClasses_eq_ok`, `ClassLang.Check.declareAllMembers_eq_ok` — the passes are
  chains of these steps.
-/

namespace ClassLang

/-- A state outside all classes, with a global scope, of a check that fails fast. -/
def Analyzer.resting (global : Table) : Analyzer :=
  { scopes := { global }, failFast := true }

namespace Check

/-! ## Chains of steps -/

section Chain

variable {ι κ : Type}

/-- Steps on the global scope, one after the other. The step for an item has a result. -/
inductive Chain (step : ι → κ → Table → Table → Prop) : List ι → List κ → Table → Table → Prop where
  | nil (g : Table) : Chain step [] [] g g
  | cons {i : ι} {k : κ} {is : List ι} {ks : List κ} {g h l : Table} (hstep : step i k g h)
      (hrest : Chain step is ks h l) : Chain step (i :: is) (k :: ks) g l

/-- Steps that do not tell scopes apart that look alike, and that can change places. -/
structure Interchangeable (step : ι → κ → Table → Table → Prop) : Prop where
  congr : ∀ {i k g g' h}, step i k g g' → g.Alike h → ∃ h', step i k h h' ∧ g'.Alike h'
  swap : ∀ {i j k m g g' g''}, step i k g g' → step j m g' g'' →
    ∃ h h', step j m g h ∧ step i k h h' ∧ g''.Alike h'

variable {step : ι → κ → Table → Table → Prop} {is js : List ι} {ks : List κ} {g h l : Table}

/-- A chain can be gone through from scopes that look alike. -/
lemma Chain.congr (hstep : Interchangeable step) (hchain : Chain step is ks g l) (hgh : g.Alike h) :
    ∃ l', Chain step is ks h l' ∧ l.Alike l' := by
  induction hchain generalizing h with
  | nil g => exact ⟨h, .nil h, hgh⟩
  | cons hfirst hrest ih =>
    obtain ⟨h', hfirst', hgh'⟩ := hstep.congr hfirst hgh
    obtain ⟨l', hrest', hl⟩ := ih hgh'
    exact ⟨l', .cons hfirst' hrest', hl⟩

/-- **Steps that can change places can be gone through in any order.** The results are in that order
too, and the scopes look alike.

**Proof sketch.** By induction on the permutation: a step that stays in front is made from scopes that
look alike, and two steps that change places leave such scopes to the rest. -/
theorem Chain.perm (hstep : Interchangeable step) (hperm : is.Perm js)
    (hchain : Chain step is ks g l) (hgh : g.Alike h) :
    ∃ ms l', Chain step js ms h l' ∧ ks.Perm ms ∧ l.Alike l' := by
  induction hperm generalizing ks g l h with
  | nil =>
    obtain ⟨l', hchain', hl⟩ := hchain.congr hstep hgh
    exact ⟨ks, l', hchain', .refl ks, hl⟩
  | cons i _ ih =>
    cases hchain with
    | cons hfirst hrest =>
      obtain ⟨h', hfirst', hgh'⟩ := hstep.congr hfirst hgh
      obtain ⟨ms, l', hrest', hms, hl⟩ := ih hrest hgh'
      exact ⟨_ :: ms, l', .cons hfirst' hrest', hms.cons _, hl⟩
  | swap i j _ =>
    -- the two steps change places in `g` first, and are then made again in `h`
    cases hchain with
    | cons hfirst hrest =>
      cases hrest with
      | cons hsecond hrest =>
        obtain ⟨g₁, g₂, hsecond', hfirst', hg₂⟩ := hstep.swap hfirst hsecond
        obtain ⟨h₁, hsecond'', hg₁h₁⟩ := hstep.congr hsecond' hgh
        obtain ⟨h₂, hfirst'', hg₂h₂⟩ := hstep.congr hfirst' hg₁h₁
        obtain ⟨l', hrest', hl⟩ := hrest.congr hstep (hg₂.trans hg₂h₂)
        exact ⟨_, l', .cons hsecond'' (.cons hfirst'' hrest'), .swap _ _ _, hl⟩
  | trans _ _ ih₁ ih₂ =>
    obtain ⟨ms, l₁, hchain₁, hms, hl₁⟩ := ih₁ hchain hgh
    obtain ⟨ns, l₂, hchain₂, hns, hl₂⟩ := ih₂ hchain₁ (.refl h)
    exact ⟨ns, l₂, hchain₂, hms.trans hns, hl₁.trans hl₂⟩

lemma Chain.append_iff :
    Chain step (is ++ js) ks g l ↔
      ∃ ks₁ ks₂ h, ks = ks₁ ++ ks₂ ∧ Chain step is ks₁ g h ∧ Chain step js ks₂ h l := by
  constructor
  · intro hchain
    induction is generalizing ks g with
    | nil => exact ⟨[], ks, g, rfl, .nil g, hchain⟩
    | cons i is ih =>
      cases hchain with
      | cons hfirst hrest =>
        obtain ⟨ks₁, ks₂, h, rfl, hchain₁, hchain₂⟩ := ih hrest
        exact ⟨_ :: ks₁, ks₂, h, rfl, .cons hfirst hchain₁, hchain₂⟩
  · rintro ⟨ks₁, ks₂, h, rfl, hchain₁, hchain₂⟩
    induction hchain₁ with
    | nil g => exact hchain₂
    | cons hfirst _ ih => exact .cons hfirst (ih hchain₂)

end Chain

end Check

/-! ## Tables -/

lemma Table.Alike.get?_eq_none {g h : Table} (hgh : g.Alike h) {name : String}
    (hname : g.get? name = none) : h.get? name = none := by
  have hfound := hgh name
  rw [hname] at hfound
  generalize h.get? name = found at hfound
  cases hfound
  rfl

/-- Two names are bound in either order. -/
lemma Table.get?_insert_comm (g : Table) {a b : Symbol} (hab : a.name ≠ b.name) (n : String) :
    ((g.insert a).insert b).get? n = ((g.insert b).insert a).get? n := by
  simp only [Table.get?_insert]
  by_cases hb : b.name = n
  · rw [if_pos hb, if_neg (fun ha => hab (ha.trans hb.symm)), if_pos hb]
  · rw [if_neg hb, if_neg hb]

lemma Table.alike_insert_comm (g : Table) {a b : Symbol} (hab : a.name ≠ b.name) :
    ((g.insert a).insert b).Alike ((g.insert b).insert a) := by
  intro n
  rw [Table.get?_insert_comm g hab n]
  exact .refl _

lemma Table.Alike.toScopes {g h : Table} (hgh : g.Alike h) :
    Scopes.Alike { global := g } { global := h } := ⟨hgh, rfl, rfl⟩

lemma Table.get?_insert_classDef (g : Table) (name n : String) (typeParams : List String)
    (members : Table) :
    (g.insert (.classDef name typeParams members)).get? n =
      if name = n then some (.classDef name typeParams members) else g.get? n :=
  g.get?_insert _ n

/-- The classes after one class is bound anew. -/
lemma Scopes.class?_insert (g : Table) (name n : String) (typeParams : List String)
    (members : Table) :
    Scopes.class? { global := g.insert (.classDef name typeParams members) } n =
      if name = n then some ⟨typeParams, members⟩ else Scopes.class? { global := g } n := by
  unfold Scopes.class?
  rw [Table.get?_insert_classDef]
  by_cases h : name = n
  · rw [if_pos h, if_pos h]
    rfl
  · rw [if_neg h, if_neg h]

namespace Check

/-! ## Declaring a class -/

/-- The step that declares a class: its name is free. -/
structure Introduces (name : String) (_ : Unit) (g h : Table) : Prop where
  free : g.get? name = none
  define : h = g.insert (.classDef name [] [])

theorem introduces_interchangeable : Interchangeable Introduces where
  congr := by
    rintro name _ g _ h ⟨hfree, rfl⟩ hgh
    exact ⟨_, ⟨hgh.get?_eq_none hfree, rfl⟩, hgh.insert (.refl _)⟩
  swap := by
    rintro name other _ _ g _ _ ⟨hfree, rfl⟩ ⟨hfree', rfl⟩
    rw [Table.get?_insert_classDef] at hfree'
    have hne : name ≠ other := by
      rintro rfl
      simp at hfree'
    rw [if_neg hne] at hfree'
    refine ⟨_, _, ⟨hfree', rfl⟩, ⟨?_, rfl⟩, Table.alike_insert_comm g hne⟩
    rw [Table.get?_insert_classDef, if_neg hne.symm]
    exact hfree

lemma runFrom_declareClasses_cons (c : ClassDecl) (cs : List ClassDecl) (g : Table) :
    (declareClasses (c :: cs)).runFrom (.resting g) =
      if g.get? c.name = none then
        (declareClasses cs >>= fun r => pure (c :: r)).runFrom
          (.resting (g.insert (.classDef c.name [] [])))
      else (.error ⟨.classRedefined c.name, c.line⟩, .resting g) := by
  rw [declareClasses, runFrom_get_bind]
  change (if (g.get? c.name).isSome = true then _ else _ : Check _).runFrom _ = _
  by_cases hfree : g.get? c.name = none
  · rw [if_pos hfree, hfree, if_neg (by simp)]
    rfl
  · rw [if_neg hfree, if_pos (Option.isSome_iff_ne_none.mpr hfree)]
    exact runFrom_bind_of_error (runFrom_record _ _)

/-- The pass that declares classes is a chain of steps, one for each name. -/
lemma declareClasses_eq_ok {cs r : List ClassDecl} {g : Table} {b : Analyzer} :
    (declareClasses cs).runFrom (.resting g) = (.ok r, b) ↔
      r = cs ∧ ∃ ks h, b = .resting h ∧ Chain Introduces (cs.map ClassDecl.name) ks g h := by
  induction cs generalizing g r b with
  | nil =>
    constructor
    · rintro ⟨⟩
      exact ⟨rfl, [], g, rfl, .nil g⟩
    · rintro ⟨rfl, _, _, rfl, ⟨⟩⟩
      rfl
  | cons c cs ih =>
    rw [runFrom_declareClasses_cons]
    constructor
    · intro h
      by_cases hfree : g.get? c.name = none
      · rw [if_pos hfree, runFrom_bind_eq_ok] at h
        obtain ⟨r', b', hrest, hpure⟩ := h
        obtain ⟨rfl, ks, l, rfl, hchain⟩ := ih.1 hrest
        cases hpure
        exact ⟨rfl, () :: ks, l, rfl, .cons ⟨hfree, rfl⟩ hchain⟩
      · rw [if_neg hfree] at h
        cases h
    · rintro ⟨rfl, _, l, rfl, hchain⟩
      cases hchain with
      | cons hfirst hrest =>
        obtain ⟨hfree, rfl⟩ := hfirst
        rw [if_pos hfree, runFrom_bind_of_ok (ih.2 ⟨rfl, _, l, rfl, hrest⟩)]
        rfl

/-! ## Declaring a member -/

/-- The types of parameters with their names. -/
def parameterTypes (s : Scopes) : List Parameter → Typing.Typed (List (String × Ty))
  | [] => .ok []
  | p :: ps => do
    let type ← Typing.resolveType s p.line p.type
    let types ← parameterTypes s ps
    .ok ((p.name, type) :: types)

end Check

/-- The member with the types that it is declared with. -/
def Member.plan (s : Scopes) : Member → Typing.Typed MemberPlan
  | .field d => do
    let type ← Typing.resolveType s d.line d.type
    .ok (.field d type)
  | .method d => do
    let result ← Typing.resolveType s d.line d.returnType
    let params ← Check.parameterTypes s d.params
    .ok (.method d result params)

/-- What the name of a member stands for in its class. -/
def MemberPlan.symbol : MemberPlan → Symbol
  | .field d type => .var d.name type
  | .method d result params => .function d.name result params d.isStatic

namespace Check

/-- The types of members depend on the classes only, not on their members. -/
lemma parameterTypes_of_sameClasses {s t : Scopes} (h : s.SameClasses t) (ps : List Parameter) :
    parameterTypes s ps = parameterTypes t ps := by
  induction ps with
  | nil => rfl
  | cons p ps ih =>
    simp only [parameterTypes, Typing.resolveType_of_sameClasses h, ih]

lemma plan_of_sameClasses {s t : Scopes} (h : s.SameClasses t) (m : Member) :
    m.plan s = m.plan t := by
  cases m with
  | field d => simp only [Member.plan, Typing.resolveType_of_sameClasses h]
  | method d =>
    simp only [Member.plan, Typing.resolveType_of_sameClasses h, parameterTypes_of_sameClasses h]

/-- The step that declares a member of a class: its types are known, the class is known, and the
name is free in it. -/
structure Declares (item : String × Member) (result : String × MemberPlan) (g h : Table) :
    Prop where
  className : item.1 = result.1
  plan : item.2.plan { global := g } = .ok result.2
  define : ∃ c : ClassInfo, Scopes.class? { global := g } item.1 = some c ∧
    c.members.get? result.2.symbol.name = none ∧
    h = g.insert (.classDef item.1 c.typeParams (c.members.insert result.2.symbol))

/-- A member does not change the classes that are known. -/
lemma sameClasses_insert {g : Table} {name : String} {c : ClassInfo}
    (hc : Scopes.class? { global := g } name = some c) (members : Table) :
    Scopes.SameClasses { global := g.insert (.classDef name c.typeParams members) }
      { global := g } := by
  intro n
  rw [Scopes.class?_insert]
  by_cases h : name = n
  · rw [if_pos h, ← h, hc]
    rfl
  · rw [if_neg h]

/-- **Members can be declared in any order.**

**Proof sketch.** The types of a member do not change when another one is declared. Members of
different classes are bound in different symbols of the global scope. Members of one class have
different names if both are declared, and then each name is bound alike in either order. -/
theorem declares_interchangeable : Interchangeable Declares where
  congr := by
    rintro ⟨name, m⟩ ⟨_, plan⟩ g _ h ⟨rfl, hplan, c, hc, hfree, rfl⟩ hgh
    have hscopes := hgh.toScopes
    rcases hscopes.class?_cases name with ⟨hnone, -⟩ | ⟨c', d, hc', hd, hcd⟩
    · rw [hc] at hnone
      cases hnone
    · obtain rfl : c = c' := by
        rw [hc] at hc'
        exact Option.some.inj hc'
      refine ⟨_, ⟨rfl, ?_, d, hd, ?_, rfl⟩, ?_⟩
      · rw [← plan_of_sameClasses hscopes.sameClasses]
        exact hplan
      · rw [← hcd.members]
        exact hfree
      · refine hgh.insert ?_
        rw [hcd.typeParams]
        refine .classDef name d.typeParams fun n => ?_
        rw [Table.get?_insert, Table.get?_insert, hcd.members n]
  swap := by
    rintro ⟨name, m⟩ ⟨other, n⟩ ⟨_, plan⟩ ⟨_, plan'⟩ g _ _ ⟨rfl, hplan, c, hc, hfree, rfl⟩
      ⟨rfl, hplan', d, hd, hfree', rfl⟩
    have hplan'' : n.plan { global := g } = .ok plan' := by
      rw [← plan_of_sameClasses (sameClasses_insert hc _)]
      exact hplan'
    by_cases hname : name = other
    · -- both names are bound in the members of one class, which has the other one already
      subst hname
      rw [Scopes.class?_insert, if_pos rfl] at hd
      obtain rfl := Option.some.inj hd
      have hne : plan.symbol.name ≠ plan'.symbol.name := by
        intro h
        rw [Table.get?_insert, if_pos h] at hfree'
        cases hfree'
      rw [Table.get?_insert, if_neg hne] at hfree'
      refine ⟨_, _, ⟨rfl, hplan'', c, hc, hfree', rfl⟩,
        ⟨rfl, ?_, ⟨c.typeParams, c.members.insert plan'.symbol⟩, ?_, ?_, rfl⟩, ?_⟩
      · rw [plan_of_sameClasses (sameClasses_insert hc _)]
        exact hplan
      · rw [Scopes.class?_insert, if_pos rfl]
      · rw [Table.get?_insert, if_neg hne.symm]
        exact hfree
      · intro k
        simp only [Table.get?_insert_classDef]
        by_cases hk : name = k
        · rw [if_pos hk, if_pos hk]
          refine .some (.classDef name c.typeParams fun l => ?_)
          exact Table.get?_insert_comm c.members hne l
        · rw [if_neg hk, if_neg hk, if_neg hk, if_neg hk]
          exact .refl _
    · rw [Scopes.class?_insert, if_neg hname] at hd
      refine ⟨_, _, ⟨rfl, hplan'', d, hd, hfree', rfl⟩, ⟨rfl, ?_, c, ?_, hfree, rfl⟩,
        Table.alike_insert_comm g hname⟩
      · rw [plan_of_sameClasses (sameClasses_insert hd _)]
        exact hplan
      · rw [Scopes.class?_insert, if_neg (Ne.symm hname)]
        exact hc

/-! ## The pass that declares members -/

lemma runFrom_parameters (ps : List Parameter) (a : Analyzer) :
    (parameters ps).runFrom a = (parameterTypes a.scopes ps, a) := by
  induction ps with
  | nil => rfl
  | cons p ps ih =>
    unfold parameters parameterTypes
    rw [runFrom_bind, runFrom_inScopes]
    cases Typing.resolveType a.scopes p.line p.type with
    | error e => rfl
    | ok type =>
      simp only [runFrom_bind, ih]
      cases parameterTypes a.scopes ps <;> rfl

lemma runFrom_defineMember (line : Nat) (name : String) (symbol : Symbol) (g : Table) :
    (defineMember line name symbol).runFrom (.resting g) =
      match Scopes.class? { global := g } name with
      | none => (.error ⟨.classNotFound name, line⟩, .resting g)
      | some c =>
        (.ok (), .resting (g.insert (.classDef name c.typeParams (c.members.insert symbol)))) := by
  unfold defineMember
  rw [runFrom_get_bind]
  simp only [Analyzer.resting, Scopes.defineMember]
  cases Scopes.class? { global := g } name <;> rfl

/-- The end of a declaration, when the types of the member are known: the member is bound if the
class is known and the name is free in it. -/
lemma bindMember_eq_ok (name : String) (plan : MemberPlan) {result : MemberPlan} {line : Nat}
    {cause : SemanticError.Cause} {g : Table} {b : Analyzer} :
    (do
      if hasMember (← get).scopes name plan.symbol.name then fail line cause
      defineMember line name plan.symbol
      return plan : Check MemberPlan).runFrom (.resting g) = (.ok result, b) ↔
      result = plan ∧ ∃ c : ClassInfo, Scopes.class? { global := g } name = some c ∧
        c.members.get? plan.symbol.name = none ∧
        b = .resting (g.insert (.classDef name c.typeParams (c.members.insert plan.symbol))) := by
  rw [runFrom_get_bind]
  have hscopes : (Analyzer.resting g).scopes = { global := g } := rfl
  simp only [hscopes, hasMember]
  cases hc : Scopes.class? { global := g } name with
  | none =>
    rw [Option.any_none, if_neg Bool.false_ne_true, runFrom_bind, runFrom_defineMember, hc]
    simp
  | some c =>
    rw [Option.any_some]
    by_cases hfree : c.members.get? plan.symbol.name = none
    · rw [hfree, if_neg (by simp), runFrom_bind, runFrom_defineMember, hc]
      constructor
      · rintro ⟨⟩
        exact ⟨rfl, c, rfl, hfree, rfl⟩
      · rintro ⟨rfl, _, ⟨⟩, -, rfl⟩
        rfl
    · rw [if_pos (Option.isSome_iff_ne_none.mpr hfree), runFrom_bind, runFrom_fail]
      simp [hfree]

/-- A member whose types are known is declared by one step. -/
lemma declares_iff {name : String} {m : Member} {plan planned : MemberPlan} {g : Table}
    {b : Analyzer} (hplan : m.plan { global := g } = .ok planned) :
    (∃ h, b = .resting h ∧ Declares (name, m) (name, plan) g h) ↔
      plan = planned ∧ ∃ c : ClassInfo, Scopes.class? { global := g } name = some c ∧
        c.members.get? planned.symbol.name = none ∧
        b = .resting (g.insert (.classDef name c.typeParams (c.members.insert planned.symbol))) := by
  constructor
  · rintro ⟨_, rfl, -, hplan', c, hc, hfree, rfl⟩
    obtain rfl : planned = plan := Except.ok.inj (hplan.symm.trans hplan')
    exact ⟨rfl, c, hc, hfree, rfl⟩
  · rintro ⟨rfl, c, hc, hfree, rfl⟩
    exact ⟨_, rfl, rfl, hplan, c, hc, hfree, rfl⟩

/-- A member whose types are not known is not declared. -/
lemma not_declares {name : String} {m : Member} {plan : MemberPlan} {g : Table} {b : Analyzer}
    {e : SemanticError} (hplan : m.plan { global := g } = .error e) :
    ¬∃ h, b = .resting h ∧ Declares (name, m) (name, plan) g h := by
  rintro ⟨_, -, -, hplan', -⟩
  rw [hplan] at hplan'
  cases hplan'

/-- The declaration of a member is one step. -/
lemma declareMember_eq_ok {name : String} {m : Member} {plan : MemberPlan} {g : Table}
    {b : Analyzer} :
    (declareMember name m).runFrom (.resting g) = (.ok plan, b) ↔
      ∃ h, b = .resting h ∧ Declares (name, m) (name, plan) g h := by
  have hscopes : (Analyzer.resting g).scopes = { global := g } := rfl
  cases m with
  | field d =>
    rw [declareMember, runFrom_bind, runFrom_inScopes, hscopes]
    cases htype : Typing.resolveType { global := g } d.line d.type with
    | error e =>
      have hplan : (Member.field d).plan { global := g } = .error e := by
        rw [Member.plan, htype]; rfl
      exact iff_of_false (by simp) (not_declares hplan)
    | ok type =>
      have hplan : (Member.field d).plan { global := g } = .ok (.field d type) := by
        rw [Member.plan, htype]; rfl
      exact (bindMember_eq_ok name (.field d type)).trans (declares_iff hplan).symm
  | method d =>
    rw [declareMember, runFrom_bind, runFrom_inScopes, hscopes]
    cases htype : Typing.resolveType { global := g } d.line d.returnType with
    | error e =>
      have hplan : (Member.method d).plan { global := g } = .error e := by
        rw [Member.plan, htype]; rfl
      exact iff_of_false (by simp) (not_declares hplan)
    | ok result =>
      simp only [runFrom_bind, runFrom_parameters, hscopes]
      cases hparams : parameterTypes { global := g } d.params with
      | error e =>
        have hplan : (Member.method d).plan { global := g } = .error e := by
          rw [Member.plan, htype, hparams]; rfl
        exact iff_of_false (by simp) (not_declares hplan)
      | ok params =>
        have hplan : (Member.method d).plan { global := g } = .ok (.method d result params) := by
          rw [Member.plan, htype, hparams]; rfl
        exact (bindMember_eq_ok name (.method d result params)).trans (declares_iff hplan).symm

/-- The pass over the members of a class is a chain of steps, one for each member.

**Proof sketch.** Nothing is recovered from when failing fast, so every member gives its plan. -/
lemma declareMembers_eq_ok {name : String} {ms : List Member} {plans : List MemberPlan} {g : Table}
    {b : Analyzer} :
    (declareMembers name ms).runFrom (.resting g) = (.ok plans, b) ↔
      ∃ h, b = .resting h ∧
        Chain Declares (ms.map fun m => (name, m)) (plans.map fun plan => (name, plan)) g h := by
  induction ms generalizing plans g b with
  | nil =>
    constructor
    · rintro ⟨⟩
      exact ⟨g, rfl, .nil g⟩
    · rintro ⟨h, rfl, hchain⟩
      cases plans with
      | nil =>
        cases hchain
        rfl
      | cons plan plans => cases hchain
  | cons m ms ih =>
    have hmember : ∀ {o c}, (tryCatch (some <$> declareMember name m) fun e => do
          record e
          return none : Check _).runFrom (.resting g) = (.ok o, c) ↔
        ∃ plan, o = some plan ∧ (declareMember name m).runFrom (.resting g) = (.ok plan, c) := by
      intro o c
      rw [(agrees_some_declareMember name m).tryCatch_eq_ok records_record_none rfl,
        ← bind_pure_comp, runFrom_bind_eq_ok]
      constructor
      · rintro ⟨plan, _, hplan, ⟨⟩⟩
        exact ⟨plan, rfl, hplan⟩
      · rintro ⟨plan, rfl, hplan⟩
        exact ⟨plan, c, hplan, rfl⟩
    rw [declareMembers, runFrom_bind_eq_ok]
    constructor
    · rintro ⟨o, c, hfirst, hrest⟩
      obtain ⟨plan, rfl, hplan⟩ := hmember.1 hfirst
      obtain ⟨h, rfl, hstep⟩ := declareMember_eq_ok.1 hplan
      obtain ⟨plans', c, hrest, hpure⟩ := runFrom_bind_eq_ok.1 hrest
      obtain ⟨l, rfl, hchain⟩ := ih.1 hrest
      cases hpure
      exact ⟨l, rfl, .cons hstep hchain⟩
    · rintro ⟨l, rfl, hchain⟩
      cases plans with
      | nil => cases hchain
      | cons plan plans =>
        cases hchain with
        | cons hstep hrest =>
          refine ⟨some plan, _, hmember.2 ⟨plan, rfl, declareMember_eq_ok.2 ⟨_, rfl, hstep⟩⟩, ?_⟩
          rw [runFrom_bind_of_ok (ih.2 ⟨l, rfl, hrest⟩)]
          rfl

/-- The members of classes, each with the name of its class. -/
def memberItems (cs : List ClassDecl) : List (String × Member) :=
  cs.flatMap fun c => c.members.map fun m => (c.name, m)

/-- The planned members of classes, each with the name of its class. -/
def planItems (r : List (ClassDecl × List MemberPlan)) : List (String × MemberPlan) :=
  r.flatMap fun entry => entry.2.map fun plan => (entry.1.name, plan)

/-- The results for members of one class have its name. -/
lemma Chain.exists_plans {name : String} {ms : List Member} {ks : List (String × MemberPlan)}
    {g h : Table} (hchain : Chain Declares (ms.map fun m => (name, m)) ks g h) :
    ∃ plans : List MemberPlan, ks = plans.map fun plan => (name, plan) := by
  induction ms generalizing ks g with
  | nil =>
    cases hchain
    exact ⟨[], rfl⟩
  | cons m ms ih =>
    cases hchain with
    | @cons _ k _ _ _ _ _ hstep hrest =>
      obtain ⟨plans, rfl⟩ := ih hrest
      obtain ⟨_, plan⟩ := k
      obtain rfl : name = _ := hstep.className
      exact ⟨plan :: plans, rfl⟩

/-- The pass over the members of all classes is a chain of steps, one for each member. -/
lemma declareAllMembers_eq_ok {cs : List ClassDecl} {ks : List (String × MemberPlan)} {g : Table}
    {b : Analyzer} :
    (∃ r, planItems r = ks ∧ (declareAllMembers cs).runFrom (.resting g) = (.ok r, b)) ↔
      ∃ h, b = .resting h ∧ Chain Declares (memberItems cs) ks g h := by
  induction cs generalizing ks g b with
  | nil =>
    constructor
    · rintro ⟨_, rfl, ⟨⟩⟩
      exact ⟨g, rfl, .nil g⟩
    · rintro ⟨_, rfl, ⟨⟩⟩
      exact ⟨[], rfl, rfl⟩
  | cons c cs ih =>
    have hitems : memberItems (c :: cs) = (c.members.map fun m => (c.name, m)) ++ memberItems cs :=
      List.flatMap_cons
    rw [hitems]
    constructor
    · rintro ⟨r, rfl, hrun⟩
      rw [declareAllMembers, runFrom_bind_eq_ok] at hrun
      obtain ⟨plans, _, hplans, hrun⟩ := hrun
      obtain ⟨h, rfl, hchain⟩ := declareMembers_eq_ok.1 hplans
      obtain ⟨r', _, hrest, hpure⟩ := runFrom_bind_eq_ok.1 hrun
      obtain ⟨l, rfl, hchain'⟩ := ih.1 ⟨r', rfl, hrest⟩
      cases hpure
      exact ⟨l, rfl, Chain.append_iff.2 ⟨_, _, h, List.flatMap_cons, hchain, hchain'⟩⟩
    · rintro ⟨l, rfl, hchain⟩
      obtain ⟨ks₁, ks₂, h, rfl, hfirst, hrest⟩ := Chain.append_iff.1 hchain
      obtain ⟨plans, rfl⟩ := hfirst.exists_plans
      obtain ⟨r, rfl, hrun⟩ := ih.2 ⟨l, rfl, hrest⟩
      refine ⟨(c, plans) :: r, List.flatMap_cons, ?_⟩
      rw [declareAllMembers, runFrom_bind_of_ok (declareMembers_eq_ok.2 ⟨h, rfl, hfirst⟩),
        runFrom_bind_of_ok hrun]
      rfl

end Check

end ClassLang
