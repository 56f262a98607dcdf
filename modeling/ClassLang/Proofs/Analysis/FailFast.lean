import ClassLang.Proofs.Analysis.Composition

set_option autoImplicit false

/-!
# Failing fast reports the first error

A check that fails fast ends with the first error, and passes it on through all the constructs
around it; a collecting check keeps the error and goes on. Up to the first error the two go through
the same states, and the collecting check keeps that error before any other.

## Main definitions

* `ClassLang.Check.FirstError` — how the two runs of a check from one state compare.
* `ClassLang.Check.Agrees` — checks whose two runs compare so from every state.
* `ClassLang.Check.Records` — handlers that keep the error, or pass it on when failing fast.

## Main results

* `ClassLang.Check.agrees_scoped` — the property composes, so it holds of all statements.
* `ClassLang.Check.agrees_program` — it holds of the check of a program.
* `ClassLang.Program.errors_failFast` — failing fast reports the first of the collected errors.
-/

namespace ClassLang

/-- A state with the mode of the check set. -/
def Analyzer.inMode (a : Analyzer) (failFast : Bool) : Analyzer := { a with failFast }

namespace Check

variable {α β : Type}

/-! ## Two runs of a check -/

/-- How a check ends when failing fast and when collecting, both from the state `a`. Either there is
no error and the states agree; or both end with the same error; or the collecting check keeps the
error with which the other ends, before all other errors. -/
inductive FirstError (a : Analyzer) :
    Except SemanticError α × Analyzer → Except SemanticError α × Analyzer → Prop where
  | none (x : α) {b : Analyzer} (hb : b.errors = a.errors) :
      FirstError a (.ok x, b.inMode true) (.ok x, b.inMode false)
  | ended (e : SemanticError) {b c : Analyzer} (hmode : b.failFast = true)
      (hb : b.errors = a.errors) (hc : c.errors = a.errors) :
      FirstError a (.error e, b) (.error e, c)
  | kept (e : SemanticError) {b c : Analyzer} (r : Except SemanticError α)
      (hmode : b.failFast = true) (hb : b.errors = a.errors) (hc : a.errors ++ [e] <+: c.errors) :
      FirstError a (.error e, b) (r, c)

/-- The comparison depends on the first state only through the errors kept before. -/
lemma FirstError.rebase {a b : Analyzer} {fast full : Except SemanticError α × Analyzer}
    (h : FirstError b fast full) (hab : b.errors = a.errors) : FirstError a fast full := by
  cases h with
  | none x hc => exact .none x (hc.trans hab)
  | ended e hmode hc hd => exact .ended e hmode (hc.trans hab) (hd.trans hab)
  | kept e r hmode hc hd => exact .kept e r hmode (hc.trans hab) (hab ▸ hd)

/-- A check whose run failing fast stops at the first error of its collecting run, which only adds
to the errors kept before. -/
structure Agrees (p : Check α) : Prop where
  collects : ∀ a : Analyzer, a.failFast = false →
    (p.runFrom a).2.failFast = false ∧ a.errors <+: (p.runFrom a).2.errors
  compare : ∀ a : Analyzer, FirstError a (p.runFrom (a.inMode true)) (p.runFrom (a.inMode false))

lemma agrees_pure (x : α) : Agrees (pure x) where
  collects _ h := ⟨h, List.prefix_rfl⟩
  compare a := .none x (rfl : a.errors = a.errors)

lemma agrees_throw (e : SemanticError) : Agrees (throw e : Check α) where
  collects _ h := ⟨h, List.prefix_rfl⟩
  compare _ := .ended e rfl rfl rfl

/-- An error that is recorded ends the check when failing fast and is kept otherwise. -/
lemma agrees_record (e : SemanticError) : Agrees (record e) where
  collects a h := by
    rw [runFrom_record, if_neg (by simp [h])]
    exact ⟨h, List.prefix_append _ _⟩
  compare a := by
    rw [runFrom_record, runFrom_record]
    exact .kept e _ rfl rfl List.prefix_rfl

lemma agrees_modifyScopes (f : Scopes → Scopes) : Agrees (modifyScopes f) where
  collects _ h := ⟨h, List.prefix_rfl⟩
  compare a := .none () (rfl : { a with scopes := f a.scopes }.errors = a.errors)

lemma agrees_modifyContext (f : Context → Context) : Agrees (modifyContext f) where
  collects _ h := ⟨h, List.prefix_rfl⟩
  compare a := .none () (rfl : { a with context := f a.context }.errors = a.errors)

/-- A look at the scopes and the context, which do not depend on the mode. -/
lemma agrees_look {k : Analyzer → Check α}
    (hk : ∀ a b : Analyzer, a.scopes = b.scopes → a.context = b.context → k a = k b)
    (h : ∀ a, Agrees (k a)) : Agrees (get >>= k) where
  collects a ha := by
    rw [runFrom_get_bind]
    exact (h a).collects a ha
  compare a := by
    rw [runFrom_get_bind, runFrom_get_bind, hk (a.inMode true) a rfl rfl,
      hk (a.inMode false) a rfl rfl]
    exact (h a).compare a

/-- Checks one after the other.

**Proof sketch.** As long as there is no error the second check starts from states that differ in
the mode only. Once the first check has kept the error, the second can only add to it. -/
lemma Agrees.bind {p : Check α} {f : α → Check β} (hp : Agrees p) (hf : ∀ x, Agrees (f x)) :
    Agrees (p >>= f) where
  collects a ha := by
    obtain ⟨hmode, hkept⟩ := hp.collects a ha
    rw [runFrom_bind]
    rcases hrun : p.runFrom a with ⟨e | x, b⟩ <;> rw [hrun] at hmode hkept
    · exact ⟨hmode, hkept⟩
    · obtain ⟨hmode', hkept'⟩ := (hf x).collects b hmode
      exact ⟨hmode', hkept.trans hkept'⟩
  compare a := by
    have hcollects := (hp.collects (a.inMode false) rfl).1
    have hcompare := hp.compare a
    rw [runFrom_bind, runFrom_bind]
    generalize p.runFrom (a.inMode true) = fast at hcompare
    generalize p.runFrom (a.inMode false) = full at hcompare hcollects
    cases hcompare with
    | none x hb => exact ((hf x).compare _).rebase hb
    | ended e hmode hb hc => exact .ended e hmode hb hc
    | kept e r hmode hb hc =>
      cases r with
      | error e' => exact .kept e _ hmode hb hc
      | ok x =>
        obtain ⟨-, hmore⟩ := (hf x).collects _ hcollects
        exact .kept e _ hmode hb (hc.trans hmore)

/-! ## Recovery -/

/-- A check that keeps the error `e` and goes on, or ends with it when failing fast. -/
structure Records (q : Check α) (e : SemanticError) : Prop where
  fast : ∀ a : Analyzer, a.failFast = true →
    ∃ b, q.runFrom a = (.error e, b) ∧ b.failFast = true ∧ b.errors = a.errors
  full : ∀ a : Analyzer, a.failFast = false →
    ∃ x b, q.runFrom a = (.ok x, b) ∧ b.failFast = false ∧ b.errors = a.errors ++ [e]

lemma records_record (e : SemanticError) : Records (record e) e where
  fast a h := ⟨a, by rw [runFrom_record, if_pos h], h, rfl⟩
  full a h := ⟨(), { a with errors := a.errors ++ [e] },
    by rw [runFrom_record, if_neg (by simp [h])], h, rfl⟩

/-- Changes of the scopes and the context before an error is kept. -/
lemma Records.modifyScopes {q : Check α} {e : SemanticError} (h : Records q e)
    (f : Scopes → Scopes) : Records (Check.modifyScopes f >>= fun _ => q) e where
  fast a ha := h.fast { a with scopes := f a.scopes } ha
  full a ha := h.full { a with scopes := f a.scopes } ha

lemma Records.modifyContext {q : Check α} {e : SemanticError} (h : Records q e)
    (f : Context → Context) : Records (Check.modifyContext f >>= fun _ => q) e where
  fast a ha := h.fast { a with context := f a.context } ha
  full a ha := h.full { a with context := f a.context } ha

lemma records_recover (m : Mark) (e : SemanticError) : Records (recover m e) e :=
  ((records_record e).modifyContext _).modifyScopes _

/-- A check that is recovered from. The error is the first one in both modes: if it was not kept
before the check ended, it is kept now. -/
lemma Agrees.tryCatch {p : Check α} {handler : SemanticError → Check α} (hp : Agrees p)
    (hh : ∀ e, Records (handler e) e) : Agrees (tryCatch p handler) where
  collects a ha := by
    obtain ⟨hmode, hkept⟩ := hp.collects a ha
    rw [runFrom_tryCatch]
    rcases hrun : p.runFrom a with ⟨e | x, b⟩ <;> rw [hrun] at hmode hkept
    · obtain ⟨y, c, hhandler, hmode', herrors⟩ := (hh e).full b hmode
      simp only [hhandler, herrors]
      exact ⟨hmode', hkept.trans (List.prefix_append _ _)⟩
    · exact ⟨hmode, hkept⟩
  compare a := by
    have hcollects := (hp.collects (a.inMode false) rfl).1
    have hcompare := hp.compare a
    rw [runFrom_tryCatch, runFrom_tryCatch]
    generalize p.runFrom (a.inMode true) = fast at hcompare
    generalize p.runFrom (a.inMode false) = full at hcompare hcollects
    cases hcompare with
    | none x hb => exact .none x hb
    | ended e hmode hb hc =>
      obtain ⟨b', hfast, hmode', hb'⟩ := (hh e).fast _ hmode
      obtain ⟨x, c', hfull, -, hc'⟩ := (hh e).full _ hcollects
      simp only [hfast, hfull]
      have hkept : a.errors ++ [e] = c'.errors := by rw [hc', hc]
      exact .kept e _ hmode' (hb'.trans hb) (hkept ▸ List.prefix_rfl)
    | kept e r hmode hb hc =>
      obtain ⟨b', hfast, hmode', hb'⟩ := (hh e).fast _ hmode
      simp only [hfast]
      -- a second error of the collecting check comes behind the one that is kept
      cases r with
      | ok x => exact .kept e _ hmode' (hb'.trans hb) hc
      | error e' =>
        obtain ⟨x, c', hfull, -, hc'⟩ := (hh e').full _ hcollects
        simp only [hfull]
        refine .kept e _ hmode' (hb'.trans hb) ?_
        rw [hc']
        exact hc.trans (List.prefix_append _ _)

/-! ### Runs that fail fast -/

lemma inMode_of_failFast {a : Analyzer} (h : a.failFast = true) : a.inMode true = a := by
  rw [Analyzer.inMode, ← h]

/-- Failing fast is kept when a check ends with an error. -/
lemma Agrees.failFast_of_error {p : Check α} (hp : Agrees p) {a b : Analyzer} {e : SemanticError}
    (ha : a.failFast = true) (hrun : p.runFrom a = (.error e, b)) : b.failFast = true := by
  have hcompare := hp.compare a
  rw [inMode_of_failFast ha, hrun] at hcompare
  generalize p.runFrom (a.inMode false) = full at hcompare
  cases hcompare with
  | ended _ hmode => exact hmode
  | kept _ _ hmode => exact hmode

/-- A check that fails fast keeps no error. -/
lemma Agrees.errors_of_ok {p : Check α} (hp : Agrees p) {a b : Analyzer} {x : α}
    (ha : a.failFast = true) (hrun : p.runFrom a = (.ok x, b)) : b.errors = a.errors := by
  have hcompare := hp.compare a
  rw [inMode_of_failFast ha, hrun] at hcompare
  generalize p.runFrom (a.inMode false) = full at hcompare
  cases hcompare with
  | none _ hb => exact hb

/-- When failing fast, nothing is recovered from. -/
lemma Agrees.tryCatch_eq_ok {p : Check α} {handler : SemanticError → Check α} (hp : Agrees p)
    (hh : ∀ e, Records (handler e) e) {a b : Analyzer} {x : α} (ha : a.failFast = true) :
    (MonadExcept.tryCatch p handler : Check α).runFrom a = (.ok x, b) ↔ p.runFrom a = (.ok x, b) := by
  rw [runFrom_tryCatch]
  rcases hrun : p.runFrom a with ⟨e | y, c⟩
  · obtain ⟨d, hhandler, -, -⟩ := (hh e).fast c (hp.failFast_of_error ha hrun)
    simp [hhandler]
  · rfl

lemma agrees_mark : Agrees mark :=
  agrees_look (fun a b hs hc => by rw [hs, hc]) fun _ => agrees_pure _

/-- The two runs of a check compare alike however it is put together. -/
theorem agrees_compositional : Compositional @Agrees where
  pure := agrees_pure
  fail line cause := agrees_throw ⟨cause, line⟩
  bind := Agrees.bind
  look hk := agrees_look fun a b hs hc => hk a b ⟨hs ▸ .refl _, hc⟩
  attempt hp := agrees_mark.bind fun m => hp.tryCatch (records_recover m)
  withLoop hp := (agrees_modifyContext _).bind fun _ => hp.bind fun _ => agrees_modifyContext _
  withSwitch _ _ hp :=
    (agrees_modifyContext _).bind fun _ => hp.bind fun _ => agrees_modifyContext _

/-- They compare alike inside a scope and around it. -/
theorem agrees_scoped : Scoped @Agrees @Agrees where
  outer := agrees_compositional
  inner := agrees_compositional
  weaken hp := hp
  define _ := agrees_modifyScopes _
  withScope hp := (agrees_modifyScopes _).bind fun _ => hp.bind fun _ => agrees_modifyScopes _

/-! ## The passes of a check of a program -/

lemma agrees_inScopes (f : Scopes → Typing.Typed α) : Agrees (inScopes f) := by
  refine agrees_look (fun a b hs _ => by rw [hs]) fun a => ?_
  cases f a.scopes with
  | ok x => exact agrees_pure x
  | error e => exact agrees_throw e

lemma agrees_declareClasses (cs : List ClassDecl) : Agrees (declareClasses cs) := by
  induction cs with
  | nil => exact agrees_pure []
  | cons c cs ih =>
    refine agrees_look (fun a b hs _ => by rw [hs]) fun a => ?_
    split
    · exact (agrees_record _).bind fun _ => ih
    · exact (agrees_modifyScopes _).bind fun _ => ih.bind fun _ => agrees_pure _

lemma agrees_defineMember (line : Nat) (className : String) (symbol : Symbol) :
    Agrees (defineMember line className symbol) := by
  refine agrees_look (fun a b hs _ => by rw [hs]) fun a => ?_
  cases a.scopes.defineMember className symbol with
  | none => exact agrees_throw _
  | some scopes => exact agrees_modifyScopes _

lemma agrees_parameters (ps : List Parameter) : Agrees (parameters ps) := by
  induction ps with
  | nil => exact agrees_pure []
  | cons p ps ih =>
    exact (agrees_inScopes _).bind fun _ => ih.bind fun _ => agrees_pure _

lemma agrees_declareMember (className : String) (m : Member) :
    Agrees (declareMember className m) := by
  cases m with
  | field d =>
    refine (agrees_inScopes _).bind fun type => ?_
    refine agrees_look (fun a b hs _ => by rw [hs]) fun a => agrees_compositional.guard fun _ => ?_
    exact (agrees_defineMember _ _ _).bind fun _ => agrees_pure _
  | method d =>
    refine (agrees_inScopes _).bind fun result => (agrees_parameters _).bind fun params => ?_
    refine agrees_look (fun a b hs _ => by rw [hs]) fun a => agrees_compositional.guard fun _ => ?_
    exact (agrees_defineMember _ _ _).bind fun _ => agrees_pure _

/-- An error that is kept in the place of a member. -/
lemma records_record_none (e : SemanticError) :
    Records (record e >>= fun _ => pure (none : Option MemberPlan)) e where
  fast a h := ⟨a, by rw [runFrom_bind, runFrom_record, if_pos h], h, rfl⟩
  full a h := ⟨none, { a with errors := a.errors ++ [e] },
    by rw [runFrom_bind, runFrom_record, if_neg (by simp [h])]; rfl, h, rfl⟩

lemma agrees_some_declareMember (className : String) (m : Member) :
    Agrees (some <$> declareMember className m) := by
  rw [← bind_pure_comp]
  exact (agrees_declareMember className m).bind fun _ => agrees_pure _

lemma agrees_declareMembers (className : String) (ms : List Member) :
    Agrees (declareMembers className ms) := by
  induction ms with
  | nil => exact agrees_pure []
  | cons m ms ih =>
    refine Agrees.bind ?_ fun _ => ih.bind fun _ => agrees_pure _
    exact (agrees_some_declareMember className m).tryCatch records_record_none

lemma agrees_declareAllMembers (cs : List ClassDecl) : Agrees (declareAllMembers cs) := by
  induction cs with
  | nil => exact agrees_pure []
  | cons c cs ih =>
    exact (agrees_declareMembers _ _).bind fun _ => ih.bind fun _ => agrees_pure _

lemma agrees_methodBody (d : MethodDecl) (result : Ty) (params : List (String × Ty)) :
    Agrees (methodBody d result params) := by
  refine (agrees_modifyContext _).bind fun _ => ?_
  refine (agrees_scoped.withScope (agrees_scoped.methodScope d params)).bind fun _ => ?_
  exact (agrees_modifyContext _).bind fun _ => agrees_compositional.failIf _ _

lemma agrees_memberBody (plan : MemberPlan) : Agrees (memberBody plan) := by
  cases plan with
  | method d result params => exact agrees_methodBody d result params
  | field d type =>
    simp only [memberBody]
    cases d.init with
    | none => exact agrees_pure ()
    | some init => exact agrees_inScopes _

lemma agrees_memberBodies (plans : List MemberPlan) : Agrees (memberBodies plans) := by
  induction plans with
  | nil => exact agrees_pure ()
  | cons plan plans ih =>
    refine agrees_mark.bind fun m => Agrees.bind ?_ fun _ => ih
    exact (agrees_memberBody plan).tryCatch fun e => (records_recover m e).modifyContext _

lemma agrees_classBodies (plans : List (ClassDecl × List MemberPlan)) :
    Agrees (classBodies plans) := by
  induction plans with
  | nil => exact agrees_pure ()
  | cons plan plans ih =>
    exact (agrees_modifyScopes _).bind fun _ => (agrees_memberBodies _).bind fun _ =>
      (agrees_modifyScopes _).bind fun _ => ih

/-- The check of a program. -/
theorem agrees_program (p : Program) : Agrees (program p) :=
  (agrees_declareClasses _).bind fun _ => (agrees_declareAllMembers _).bind fun _ =>
    agrees_classBodies _

end Check

/-! ## The errors of a program -/

/-- The errors of a program when failing fast are the first of those that are collected, if there
is one.

**Proof sketch.** Both checks start from the same state with no error kept. If there is no error,
no check reports one. Otherwise the error that ends the check that fails fast is the only one of
the other check, or the first that it keeps. -/
lemma Program.errors_failFast_eq_take (p : Program) : p.errors true = (p.errors false).take 1 := by
  have hcompare := (Check.agrees_program p).compare {}
  have hfast : Analyzer.inMode {} true = { failFast := true } := rfl
  have hfull : Analyzer.inMode {} false = { failFast := false } := rfl
  rw [hfast, hfull] at hcompare
  simp only [Program.errors, Analyzer.analyze]
  generalize (Check.program p).runFrom { failFast := true } = fast at hcompare
  generalize (Check.program p).runFrom { failFast := false } = full at hcompare
  cases hcompare with
  | none x hb =>
    have hnil : ∀ mode, (Analyzer.inMode _ mode).errors = [] := fun _ => hb
    simp only [hnil, List.take_nil]
  | ended e hmode hb hc => simp only [hb, hc, List.nil_append, List.take_succ_cons, List.take_zero]
  | kept e r hmode hb hc =>
    obtain ⟨others, hothers⟩ := hc
    cases r with
    | ok x => simp [hb, ← hothers]
    | error e' => simp [hb, ← hothers]

/-- **Failing fast and collecting agree.** A program is accepted in one mode exactly if it is
accepted in the other; and if it is not, the collected errors start with the one error that is
reported when failing fast. -/
theorem Program.errors_failFast (p : Program) :
    (p.errors true = [] ↔ p.errors false = []) ∧
      (p.errors false ≠ [] →
        ∃ e others, p.errors false = e :: others ∧ p.errors true = [e]) := by
  have htake := p.errors_failFast_eq_take
  cases herrors : p.errors false with
  | nil =>
    rw [herrors] at htake
    exact ⟨by simp [htake], fun h => absurd rfl h⟩
  | cons e others =>
    rw [herrors] at htake
    exact ⟨by simp [htake], fun _ => ⟨e, others, rfl, htake⟩⟩

end ClassLang
