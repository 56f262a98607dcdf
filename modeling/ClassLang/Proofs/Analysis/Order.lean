import ClassLang.Proofs.Analysis.Declarations
import ClassLang.Proofs.Analysis.Frame

set_option autoImplicit false

/-!
# The order of declarations

Whether a program is accepted does not depend on the order of its classes, nor on the order of the
members in a class. The classes and members can be declared in any order, and leave scopes that look
alike. The bodies are checked afterwards, each from the state before it: so all of them pass, one
after the other, exactly if each of them passes alone.

## Main definitions

* `ClassLang.Check.Respects` — checks that do not tell states apart that look alike.
* `ClassLang.Check.BodyPasses` — the body of a member passes in a global scope.
* `ClassLang.Program.Reordered` — programs that differ in the order of classes and members.

## Main results

* `ClassLang.Check.respects_scoped` — the property composes, so it holds of all statements.
* `ClassLang.Check.program_eq_ok` — what makes a program pass, in terms of chains of declarations.
* `ClassLang.Program.accepted_iff_of_reordered` — the order does not matter.
-/

namespace ClassLang

/-- States that no check tells apart. -/
structure Analyzer.Similar (a b : Analyzer) : Prop extends a.Alike b where
  failFast : a.failFast = b.failFast

namespace Check

variable {α β : Type}

/-! ## States that look alike -/

/-- From states that look alike the check has the same result, and leaves such states. -/
def Respects (p : Check α) : Prop :=
  ∀ a b : Analyzer, a.Similar b →
    (p.runFrom a).1 = (p.runFrom b).1 ∧ (p.runFrom a).2.Similar (p.runFrom b).2

lemma respects_pure (x : α) : Respects (pure x) :=
  fun _ _ hab => ⟨rfl, hab⟩

lemma respects_throw (e : SemanticError) : Respects (throw e : Check α) :=
  fun _ _ hab => ⟨rfl, hab⟩

lemma respects_modifyScopes {f : Scopes → Scopes}
    (hf : ∀ s t : Scopes, s.Alike t → (f s).Alike (f t)) : Respects (modifyScopes f) :=
  fun _ _ hab => ⟨rfl, ⟨hf _ _ hab.scopes, hab.context⟩, hab.failFast⟩

lemma respects_modifyContext (f : Context → Context) : Respects (modifyContext f) :=
  fun _ _ hab => ⟨rfl, ⟨hab.scopes, congrArg f hab.context⟩, hab.failFast⟩

lemma respects_record (e : SemanticError) : Respects (record e) := by
  intro a b hab
  rw [runFrom_record, runFrom_record, hab.failFast]
  split
  · exact ⟨rfl, hab⟩
  · exact ⟨rfl, ⟨hab.scopes, hab.context⟩, rfl⟩

lemma respects_look {k : Analyzer → Check α} (hk : ∀ a b : Analyzer, a.Alike b → k a = k b)
    (h : ∀ a, Respects (k a)) : Respects (get >>= k) := by
  intro a b hab
  rw [runFrom_get_bind, runFrom_get_bind, hk a b hab.toAlike]
  exact h b a b hab

/-- The two runs end with one result. -/
lemma Respects.exists_runs {p : Check α} (hp : Respects p) {a b : Analyzer} (hab : a.Similar b) :
    ∃ r a' b', p.runFrom a = (r, a') ∧ p.runFrom b = (r, b') ∧ a'.Similar b' := by
  obtain ⟨hresult, hstate⟩ := hp a b hab
  exact ⟨(p.runFrom a).1, (p.runFrom a).2, (p.runFrom b).2, rfl, Prod.ext hresult.symm rfl, hstate⟩

lemma Respects.bind {p : Check α} {f : α → Check β} (hp : Respects p) (hf : ∀ x, Respects (f x)) :
    Respects (p >>= f) := by
  intro a b hab
  obtain ⟨r, a', b', ha, hb, hstate⟩ := hp.exists_runs hab
  rw [runFrom_bind, runFrom_bind, ha, hb]
  cases r with
  | error e => exact ⟨rfl, hstate⟩
  | ok x => exact hf x a' b' hstate

lemma Respects.tryCatch {p : Check α} {handler : SemanticError → Check α} (hp : Respects p)
    (hh : ∀ e, Respects (handler e)) : Respects (tryCatch p handler) := by
  intro a b hab
  obtain ⟨r, a', b', ha, hb, hstate⟩ := hp.exists_runs hab
  rw [runFrom_tryCatch, runFrom_tryCatch, ha, hb]
  cases r with
  | error e => exact hh e a' b' hstate
  | ok x => exact ⟨rfl, hstate⟩

lemma respects_recover (m : Mark) (e : SemanticError) : Respects (recover m e) := by
  refine (respects_modifyScopes fun s t h => ?_).bind fun _ =>
    (respects_modifyContext _).bind fun _ => respects_record e
  exact ⟨h.global, h.currentClass, congrArg (Stack.truncate m.scopeDepth) h.locals⟩

lemma respects_mark : Respects mark := by
  refine respects_look (fun a b hab => ?_) fun _ => respects_pure _
  rw [hab.context, Scopes.depth, hab.scopes.locals, ← Scopes.depth]

/-- Checks do not tell states apart that look alike, however they are put together. -/
theorem respects_compositional : Compositional @Respects where
  pure := respects_pure
  fail line cause := respects_throw ⟨cause, line⟩
  bind := Respects.bind
  look := respects_look
  attempt hp := respects_mark.bind fun m => hp.tryCatch (respects_recover m)
  withLoop hp := (respects_modifyContext _).bind fun _ => hp.bind fun _ => respects_modifyContext _
  withSwitch _ _ hp :=
    (respects_modifyContext _).bind fun _ => hp.bind fun _ => respects_modifyContext _

/-- Names that are bound in scopes that look alike. -/
lemma alike_define {s t : Scopes} (h : s.Alike t) (symbol : Symbol) :
    (s.define symbol).Alike (t.define symbol) := by
  unfold Scopes.define
  rw [h.locals]
  cases t.locals with
  | nil => exact ⟨h.global.insert (.refl symbol), h.currentClass, h.locals⟩
  | cons table outer => exact ⟨h.global, h.currentClass, rfl⟩

/-- They do not tell them apart inside a scope and around it. -/
theorem respects_scoped : Scoped @Respects @Respects where
  outer := respects_compositional
  inner := respects_compositional
  weaken hp := hp
  define symbol := respects_modifyScopes fun _ _ h => alike_define h symbol
  withScope hp := by
    refine (respects_modifyScopes fun s t h => ?_).bind fun _ =>
      hp.bind fun _ => respects_modifyScopes fun s t h => ?_
    · exact ⟨h.global, h.currentClass, congrArg (List.cons []) h.locals⟩
    · exact ⟨h.global, h.currentClass, congrArg List.tail h.locals⟩

lemma respects_memberBody (plan : MemberPlan) : Respects (memberBody plan) := by
  cases plan with
  | field d type =>
    simp only [memberBody]
    cases d.init with
    | none => exact respects_pure ()
    | some init => exact respects_compositional.initializer type .field init
  | method d result params =>
    refine (respects_modifyContext _).bind fun _ => ?_
    refine (respects_scoped.withScope (respects_scoped.methodScope d params)).bind fun _ => ?_
    exact (respects_modifyContext _).bind fun _ => respects_compositional.failIf _ _

/-! ## Bodies -/

end Check

/-- A state inside a class, with a global scope, of a check that fails fast. -/
def Analyzer.within (global : Table) (name : String) : Analyzer :=
  { scopes := { global, currentClass := some name }, failFast := true }

namespace Check

/-- The body of a member of a class passes in a global scope. -/
def BodyPasses (g : Table) (name : String) (plan : MemberPlan) : Prop :=
  ∃ b, (memberBody plan).runFrom (.within g name) = (.ok (), b)

/-- A body that passes leaves the state as it was.

**Proof sketch.** The scope around the parameters and the body keeps what is outside it, the result
type is set before it and taken back after it, and no error is kept when failing fast. -/
lemma eq_within_of_memberBody {g : Table} {name : String} {plan : MemberPlan} {b : Analyzer}
    (hrun : (memberBody plan).runFrom (.within g name) = (.ok (), b)) : b = .within g name := by
  have herrors : b.errors = [] := (agrees_memberBody plan).errors_of_ok rfl hrun
  cases plan with
  | field d type =>
    simp only [memberBody] at hrun
    cases hinit : d.init with
    | none =>
      rw [hinit] at hrun
      cases hrun
      rfl
    | some init =>
      rw [hinit] at hrun
      simp only [runFrom_inScopes, Prod.mk.injEq] at hrun
      exact hrun.2.symm
  | method d result params =>
    obtain ⟨_, _, ⟨⟩, hrun⟩ := runFrom_bind_eq_ok.1 hrun
    obtain ⟨_, c, hscope, hrun⟩ := runFrom_bind_eq_ok.1 hrun
    obtain ⟨_, _, ⟨⟩, hrun⟩ := runFrom_bind_eq_ok.1 hrun
    have hkept := (confined_scoped.methodScope d params).endsAbove_withScope
      { Analyzer.within g name with context := { returnType := some result } }
    have hscope' : (withScope (bindParameters d.params params >>= fun _ => block d.body)).runFrom
        { Analyzer.within g name with context := { returnType := some result } } =
          (.ok (), c) := hscope
    rw [hscope'] at hkept
    obtain ⟨hscopes, hcontext, hfast, -⟩ := hkept
    split at hrun
    · cases hrun
    · cases hrun
      obtain ⟨scopes, context, errors, failFast⟩ := c
      cases hscopes
      cases hcontext
      cases hfast
      cases herrors
      rfl

/-- The check of bodies one after the other passes exactly if each of them passes alone. -/
lemma memberBodies_eq_ok {g : Table} {name : String} {plans : List MemberPlan} {b : Analyzer} :
    (memberBodies plans).runFrom (.within g name) = (.ok (), b) ↔
      b = .within g name ∧ ∀ plan ∈ plans, BodyPasses g name plan := by
  induction plans with
  | nil =>
    constructor
    · rintro ⟨⟩
      exact ⟨rfl, fun _ h => absurd h List.not_mem_nil⟩
    · rintro ⟨rfl, -⟩
      rfl
  | cons plan plans ih =>
    rw [memberBodies, runFrom_bind_of_ok (rfl : mark.runFrom (.within g name) = (.ok _, _)),
      runFrom_bind_eq_ok, List.forall_mem_cons]
    constructor
    · rintro ⟨_, c, hfirst, hrest⟩
      rw [(agrees_memberBody plan).tryCatch_eq_ok
        (fun e => (records_recover _ e).modifyContext _) rfl] at hfirst
      obtain rfl := eq_within_of_memberBody hfirst
      obtain ⟨hb, hplans⟩ := ih.1 hrest
      exact ⟨hb, ⟨_, hfirst⟩, hplans⟩
    · rintro ⟨hb, ⟨c, hfirst⟩, hplans⟩
      obtain rfl := eq_within_of_memberBody hfirst
      refine ⟨(), _, ?_, ih.2 ⟨hb, hplans⟩⟩
      rw [(agrees_memberBody plan).tryCatch_eq_ok
        (fun e => (records_recover _ e).modifyContext _) rfl]
      exact hfirst

/-- The check of the bodies of all classes passes exactly if each of them passes alone. -/
lemma classBodies_eq_ok {g : Table} {r : List (ClassDecl × List MemberPlan)} {b : Analyzer} :
    (classBodies r).runFrom (.resting g) = (.ok (), b) ↔
      b = .resting g ∧ ∀ item ∈ planItems r, BodyPasses g item.1 item.2 := by
  induction r with
  | nil =>
    constructor
    · rintro ⟨⟩
      exact ⟨rfl, fun _ h => absurd h List.not_mem_nil⟩
    · rintro ⟨rfl, -⟩
      rfl
  | cons entry r ih =>
    obtain ⟨c, plans⟩ := entry
    have hitems : (∀ item ∈ planItems ((c, plans) :: r), BodyPasses g item.1 item.2) ↔
        (∀ plan ∈ plans, BodyPasses g c.name plan) ∧
          ∀ item ∈ planItems r, BodyPasses g item.1 item.2 := by
      simp only [planItems, List.flatMap_cons, List.forall_mem_append, List.forall_mem_map]
    rw [hitems, classBodies, runFrom_bind_of_ok (runFrom_modifyScopes _ _)]
    change (memberBodies plans >>= _ : Check Unit).runFrom (.within g c.name) = _ ↔ _
    rw [runFrom_bind_eq_ok]
    constructor
    · rintro ⟨_, a, hfirst, hrest⟩
      obtain ⟨rfl, hplans⟩ := memberBodies_eq_ok.1 hfirst
      rw [runFrom_bind_of_ok (runFrom_modifyScopes _ _)] at hrest
      obtain ⟨hb, hall⟩ := ih.1 hrest
      exact ⟨hb, hplans, hall⟩
    · rintro ⟨hb, hplans, hall⟩
      refine ⟨(), _, memberBodies_eq_ok.2 ⟨rfl, hplans⟩, ?_⟩
      rw [runFrom_bind_of_ok (runFrom_modifyScopes _ _)]
      exact ih.2 ⟨hb, hall⟩

/-- A body passes in all global scopes that look alike. -/
lemma BodyPasses.congr {g h : Table} {name : String} {plan : MemberPlan}
    (hpasses : BodyPasses g name plan) (hgh : g.Alike h) : BodyPasses h name plan := by
  obtain ⟨b, hrun⟩ := hpasses
  have hsimilar : (Analyzer.within g name).Similar (.within h name) :=
    ⟨⟨⟨hgh, rfl, rfl⟩, rfl⟩, rfl⟩
  obtain ⟨r, _, b', hg, hh, -⟩ := (respects_memberBody plan).exists_runs hsimilar
  rw [hrun] at hg
  cases hg
  exact ⟨b', hh⟩

/-- When failing fast, a program passes exactly if its classes can be declared, and then the members
of its classes, and then every body passes. The declarations are what it leaves behind. -/
lemma program_eq_ok (p : Program) (g : Table) {b : Analyzer} :
    (program p).runFrom (.resting g) = (.ok (), b) ↔
      ∃ ks items g' g'', b = .resting g'' ∧
        Chain Introduces (p.classes.map ClassDecl.name) ks g g' ∧
        Chain Declares (memberItems p.classes) items g' g'' ∧
        ∀ item ∈ items, BodyPasses g'' item.1 item.2 := by
  constructor
  · intro hrun
    obtain ⟨_, _, hclasses, hrun⟩ := runFrom_bind_eq_ok.1 hrun
    obtain ⟨rfl, ks, g', rfl, hintroduces⟩ := declareClasses_eq_ok.1 hclasses
    obtain ⟨r, _, hmembers, hbodies⟩ := runFrom_bind_eq_ok.1 hrun
    obtain ⟨g'', rfl, hdeclares⟩ := declareAllMembers_eq_ok.1 ⟨r, rfl, hmembers⟩
    obtain ⟨hb, hpasses⟩ := classBodies_eq_ok.1 hbodies
    exact ⟨ks, planItems r, g', g'', hb, hintroduces, hdeclares, hpasses⟩
  · rintro ⟨ks, items, g', g'', hb, hintroduces, hdeclares, hbodies⟩
    obtain ⟨r, rfl, hmembers⟩ := declareAllMembers_eq_ok.2 ⟨g'', rfl, hdeclares⟩
    rw [program, runFrom_bind_of_ok (declareClasses_eq_ok.2 ⟨rfl, ks, g', rfl, hintroduces⟩),
      runFrom_bind_of_ok hmembers]
    exact classBodies_eq_ok.2 ⟨hb, hbodies⟩

end Check

/-! ## Programs -/

namespace Program

/-- A program has no error when failing fast exactly if its check passes. -/
lemma errors_failFast_eq_nil_iff (p : Program) :
    p.errors true = [] ↔
      ∃ b, (Check.program p).runFrom (.resting Builtin.globals) = (.ok (), b) := by
  have hstart : ({ failFast := true } : Analyzer) = .resting Builtin.globals := rfl
  simp only [errors, Analyzer.analyze, hstart]
  rcases hrun : (Check.program p).runFrom (.resting Builtin.globals) with ⟨e | _, b⟩
  · simp
  · have hnone : b.errors = [] := (Check.agrees_program p).errors_of_ok rfl hrun
    simp [hnone]

/-- A program is accepted in both modes or in none. -/
lemma errors_eq_nil_iff_failFast (p : Program) (failFast : Bool) :
    p.errors failFast = [] ↔ p.errors true = [] := by
  cases failFast with
  | true => rfl
  | false =>
    rw [p.errors_failFast_eq_take]
    cases p.errors false <;> simp

/-- A program is accepted if another one with the same classes and members, in some order, is.

**Proof sketch.** The declarations of the other program can be gone through in the order of this one.
They give the same plans, in some order, and a global scope that looks alike, in which every body
passes as before. -/
lemma accepted_of_perm {p q : Program}
    (hnames : (p.classes.map ClassDecl.name).Perm (q.classes.map ClassDecl.name))
    (hmembers : (Check.memberItems p.classes).Perm (Check.memberItems q.classes))
    (hp : p.errors true = []) : q.errors true = [] := by
  rw [errors_failFast_eq_nil_iff] at hp ⊢
  simp only [Check.program_eq_ok] at hp ⊢
  obtain ⟨_, ks, items, g', g'', -, hintroduces, hdeclares, hbodies⟩ := hp
  obtain ⟨ks', h', hintroduces', -, hg'⟩ :=
    Check.Chain.perm Check.introduces_interchangeable hnames hintroduces (.refl _)
  obtain ⟨items', h'', hdeclares', hitems, hg''⟩ :=
    Check.Chain.perm Check.declares_interchangeable hmembers hdeclares hg'
  refine ⟨_, ks', items', h', h'', rfl, hintroduces', hdeclares', fun item hitem => ?_⟩
  exact (hbodies item (hitems.mem_iff.2 hitem)).congr hg''

end Program

/-- The same class with its members in another order. -/
def ClassDecl.Reordered (c d : ClassDecl) : Prop :=
  ∃ members, c.members.Perm members ∧ d = { c with members }

/-- The same program with its classes in another order, and the members of each in another order. -/
def Program.Reordered (p q : Program) : Prop :=
  ∃ cs ds, p.classes.Perm cs ∧ List.Forall₂ ClassDecl.Reordered cs ds ∧ q = { p with classes := ds }

namespace Program.Reordered

variable {p q : Program}

lemma names_perm (h : p.Reordered q) :
    (p.classes.map ClassDecl.name).Perm (q.classes.map ClassDecl.name) := by
  obtain ⟨cs, ds, hperm, hclasses, rfl⟩ := h
  have hnames : cs.map ClassDecl.name = ds.map ClassDecl.name := by
    clear hperm
    induction hclasses with
    | nil => rfl
    | cons hcd _ ih =>
      obtain ⟨_, -, rfl⟩ := hcd
      rw [List.map_cons, List.map_cons, ih]
  rw [← hnames]
  exact hperm.map _

lemma members_perm (h : p.Reordered q) :
    (Check.memberItems p.classes).Perm (Check.memberItems q.classes) := by
  obtain ⟨cs, ds, hperm, hclasses, rfl⟩ := h
  refine (hperm.flatMap_right _).trans ?_
  clear hperm
  induction hclasses with
  | nil => exact .refl _
  | cons hcd _ ih =>
    obtain ⟨members, hmembers, rfl⟩ := hcd
    exact (hmembers.map _).append ih

end Program.Reordered

/-- **The order of declarations does not matter.** A program is accepted exactly if it is accepted
with its classes, and the members of each class, in another order. -/
theorem Program.accepted_iff_of_reordered (p q : Program) (h : p.Reordered q) (failFast : Bool) :
    p.errors failFast = [] ↔ q.errors failFast = [] := by
  rw [p.errors_eq_nil_iff_failFast, q.errors_eq_nil_iff_failFast]
  constructor
  · exact accepted_of_perm h.names_perm h.members_perm
  · exact accepted_of_perm h.names_perm.symm h.members_perm.symm

namespace Sample

/-- `int start = origin();` -/
def start : Member :=
  .field
    { name := "start"
      type := .simple "int"
      init := some (.call 2 "origin" [])
      isStatic := false
      line := 2 }

/-- A method `origin` with the one statement `return new Step().size;`. -/
def origin : Member :=
  .method
    { name := "origin"
      returnType := .simple "int"
      params := []
      body := .mk 3 [.ret 3 (some (.field 3 (.newObject 3 (.simple "Step") false) "size"))]
      isStatic := false
      line := 3 }

/-- `int size = 1;` -/
def size : Member :=
  .field
    { name := "size"
      type := .simple "int"
      init := some (.literal 6 ⟨.int 1, "1"⟩)
      isStatic := false
      line := 6 }

/-- A class that uses a method before its declaration. -/
def counter : ClassDecl := { name := "Counter", members := [start, origin], line := 1 }

/-- A class with a field. -/
def step : ClassDecl := { name := "Step", members := [size], line := 5 }

/-- A program that uses a class before its declaration. -/
def forward : Program := { classes := [counter, step], line := 1 }

/-- The same program with everything declared before its use. -/
def backward : Program :=
  { classes := [step, { counter with members := [origin, start] }], line := 1 }

end Sample

/-- A program that uses a class and a method before their declarations is accepted, as it is with
the declarations in front. -/
theorem Program.accepted_iff_of_reordered_sample :
    Sample.forward.Reordered Sample.backward ∧ Sample.forward.errors false = [] ∧
      (Sample.forward.errors false = [] ↔ Sample.backward.errors false = []) := by
  have hreordered : Sample.forward.Reordered Sample.backward := by
    refine ⟨[Sample.step, Sample.counter], _, .swap _ _ _, ?_, rfl⟩
    exact .cons ⟨_, .refl _, rfl⟩ (.cons ⟨_, .swap _ _ _, rfl⟩ .nil)
  exact ⟨hreordered, by rfl, accepted_iff_of_reordered _ _ hreordered false⟩

end ClassLang
