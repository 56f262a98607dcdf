import ClassLang.Proofs.Analysis.ClassTable
import ClassLang.Proofs.Target.Sites

set_option autoImplicit false

/-!
# Expressions at their sites in the check

In an accepted program each expression has a type at its site, and local names that are not hidden
from the generator stand for the same in the check and in the generator.

## Main definitions

* `ClassLang.Target.Site.Follows` — both have the same local names at hand, but for the hidden ones.
* `ClassLang.Target.Site.Reached` — a check has come to a site.

## Main results

* `ClassLang.Target.Site.Reached.stmt` — the expressions of a statement that passes have types at
  their sites.
* `ClassLang.Program.sound_of_mem_occurrences` — so have those of an accepted program.
-/

namespace ClassLang

open Target

/-! ## Local names -/

/-- What a name stands for in the open block scopes. -/
def Scopes.local? (s : Scopes) (name : String) : Option Symbol :=
  s.locals.findSome? fun table => table.get? name

/-- The written type of a name in the open scopes. -/
def Target.Env.local? (env : Env) (name : String) : Option TypeExpr :=
  env.scopes.findSome? fun scope => scope.lookup name

/-- A local name stands for the same in the check and in the generator: for nothing, or for a
variable of one type. -/
inductive Table.Binds (g : Table) : Option Symbol → Option TypeExpr → Prop where
  | none : Binds g none none
  | some {name : String} {t : Ty} {type : TypeExpr} (h : Scopes.Reads { global := g } type t) :
      Binds g (some (.var name t)) (some type)

namespace Scopes

variable {s : Scopes}

@[simp]
lemma local?_push (s : Scopes) (name : String) : s.push.local? name = s.local? name := rfl

lemma bindTyped_of_reads {name : String} {line : Nat} {type : TypeExpr} {t : Ty}
    (h : s.Reads type t) : s.bindTyped name line type = s.define (.var name t) := by
  rw [bindTyped, h line]

/-- Binding a variable in an open block scope changes its name only. -/
lemma local?_define (hopen : s.locals ≠ []) (name n : String) (t : Ty) :
    (s.define (.var name t)).local? n = if name = n then some (.var name t) else s.local? n := by
  obtain ⟨table, outer, hlocals⟩ := List.exists_cons_of_ne_nil hopen
  have hget : (table.insert (.var name t)).get? n =
      if name = n then some (.var name t) else table.get? n := table.get?_insert _ n
  simp only [define, local?, hlocals, List.findSome?_cons, hget]
  by_cases h : name = n
  · rw [if_pos h, if_pos h]
  · rw [if_neg h, if_neg h]

/-- Binding a name in an open block scope leaves the other scopes as they are. -/
lemma define_of_open (hopen : s.locals ≠ []) (symbol : Symbol) :
    (s.define symbol).global = s.global ∧ (s.define symbol).currentClass = s.currentClass ∧
      (s.define symbol).locals ≠ [] := by
  obtain ⟨table, outer, hlocals⟩ := List.exists_cons_of_ne_nil hopen
  simp [define, hlocals]

end Scopes

namespace Target

namespace Env

variable {env : Env}

@[simp]
lemma local?_push (env : Env) (name : String) : env.push.local? name = env.local? name := rfl

lemma lookup_eq (env : Env) (name : String) :
    env.lookup name = (env.local? name <|> env.fields.lookup name) := rfl

/-- Declaring a name in an open scope changes this name only. -/
lemma local?_declare (hopen : env.scopes ≠ []) (name n : String) (type : TypeExpr) :
    (env.declare name type).local? n = if name = n then some type else env.local? n := by
  obtain ⟨scope, outer, hscopes⟩ := List.exists_cons_of_ne_nil hopen
  simp only [declare, local?, hscopes, List.findSome?_cons, List.lookup_cons]
  by_cases h : name = n
  · simp [h]
  · rw [beq_eq_false_iff_ne.2 (Ne.symm h), if_neg h]

lemma declare_of_open (hopen : env.scopes ≠ []) (name : String) (type : TypeExpr) :
    (env.declare name type).scopes ≠ [] := by
  obtain ⟨scope, outer, hscopes⟩ := List.exists_cons_of_ne_nil hopen
  simp [declare, hscopes]

/-- A declaration leaves the members and classes as they are. -/
lemma declare_tables (env : Env) (name : String) (type : TypeExpr) :
    (env.declare name type).fields = env.fields ∧ (env.declare name type).methods = env.methods ∧
      (env.declare name type).classes = env.classes := by
  unfold declare
  cases env.scopes <;> exact ⟨rfl, rfl, rfl⟩

end Env

/-- The generator has the members and classes of a program at hand. -/
structure Env.Of (env : Env) (p : Program) : Prop where
  fields : env.fields = (Env.ofProgram p).fields
  methods : env.methods = (Env.ofProgram p).methods
  classes : env.classes = p.classNames

/-- In a class of a program, the check has the global scope of the program at hand and the generator
its members, and local names that are not hidden stand for the same in both. -/
structure Site.Follows (w : Site) (g : Table) (p : Program) (c : String) : Prop where
  global : w.scopes.global = g
  currentClass : w.scopes.currentClass = some c
  env : w.env.Of p
  locals : ∀ name ∉ w.hidden, g.Binds (w.scopes.local? name) (w.env.local? name)

/-- An expression has a type at its place, where the local names stand for the same in both. -/
structure Sound (g : Table) (p : Program) (c : String) (o : Occurrence) : Prop where
  follows : o.1.Follows g p c
  typed : ∃ t, Typing.typeOf o.1.scopes o.2 = .ok t

/-- A check that fails fast has come to a place in the body of a method. -/
structure Site.Reached (w : Site) (g : Table) (p : Program) (c : String) (a : Analyzer) : Prop
    extends w.Follows g p c where
  scopes : a.scopes = w.scopes
  failFast : a.failFast = true
  openLocals : w.scopes.locals ≠ []
  openScopes : w.env.scopes ≠ []

namespace Site

variable {w : Site} {g : Table} {p : Program} {c : String} {a b : Analyzer}

lemma Follows.push (h : w.Follows g p c) : w.push.Follows g p c :=
  ⟨h.global, h.currentClass, ⟨h.env.fields, h.env.methods, h.env.classes⟩, h.locals⟩

/-- In its own initial value, a variable is hidden. -/
lemma Follows.within (h : w.Follows g p c) (hopen : w.scopes.locals ≠ []) {d : VarDecl} {t : Ty}
    (ht : w.scopes.Reads d.type t) : (w.within d).Follows g p c := by
  obtain ⟨hglobal, hclass, -⟩ := Scopes.define_of_open hopen (.var d.name t)
  refine ⟨?_, ?_, h.env, fun n hn => ?_⟩
  · simp only [Site.within, Scopes.bindTyped_of_reads ht, hglobal, h.global]
  · simp only [Site.within, Scopes.bindTyped_of_reads ht, hclass, h.currentClass]
  · simp only [Site.within, List.mem_cons, not_or] at hn
    simp only [Site.within, Scopes.bindTyped_of_reads ht, Scopes.local?_define hopen]
    rw [if_neg (Ne.symm hn.1)]
    exact h.locals n hn.2

/-- After its declaration, a variable is known to both. -/
lemma Follows.declare (h : w.Follows g p c) (hopen : w.scopes.locals ≠ [])
    (hscopes : w.env.scopes ≠ []) {d : VarDecl} {t : Ty} (ht : w.scopes.Reads d.type t) :
    (w.declare d).Follows g p c := by
  obtain ⟨hglobal, hclass, -⟩ := Scopes.define_of_open hopen (.var d.name t)
  obtain ⟨hfields, hmethods, hclasses⟩ := w.env.declare_tables d.name d.type
  refine ⟨?_, ?_, ⟨hfields.trans h.env.fields, hmethods.trans h.env.methods,
    hclasses.trans h.env.classes⟩, fun n hn => ?_⟩
  · simp only [Site.declare, Scopes.bindTyped_of_reads ht, hglobal, h.global]
  · simp only [Site.declare, Scopes.bindTyped_of_reads ht, hclass, h.currentClass]
  · simp only [Site.declare, Scopes.bindTyped_of_reads ht, Scopes.local?_define hopen,
      Env.local?_declare hscopes]
    by_cases hname : d.name = n
    · rw [if_pos hname, if_pos hname]
      exact .some (ht.of_global h.global)
    · rw [if_neg hname, if_neg hname]
      refine h.locals n fun hmem => hn ?_
      simp [Site.declare, hmem, Ne.symm hname]

namespace Reached

lemma push (h : w.Reached g p c a) :
    w.push.Reached g p c { a with scopes := a.scopes.push } :=
  ⟨h.toFollows.push, by rw [h.scopes]; rfl, h.failFast, List.cons_ne_nil _ _, List.cons_ne_nil _ _⟩

/-- The generator may leave out a scope. -/
lemma otherwise (h : w.Reached g p c a) (ss : List Stmt) :
    (w.otherwise ss).Reached g p c { a with scopes := a.scopes.push } := by
  have hjoined : Reached { w.push with env := w.env } g p c { a with scopes := a.scopes.push } :=
    ⟨⟨h.global, h.currentClass, h.env, h.locals⟩, by rw [h.scopes]; rfl, h.failFast,
      List.cons_ne_nil _ _, h.openScopes⟩
  unfold Site.otherwise
  split
  · split
    · exact hjoined
    · exact h.push
  · exact h.push

lemma setContext (h : w.Reached g p c a) (context : Context) :
    w.Reached g p c { a with context } :=
  ⟨h.toFollows, h.scopes, h.failFast, h.openLocals, h.openScopes⟩

/-- A check that binds no name stays at its place when it passes. -/
lemma of_confined {α : Type} {q : Check α} {x : α} (h : w.Reached g p c a)
    (hq : Check.Confined false q) (hrun : q.runFrom a = (.ok x, b)) : w.Reached g p c b := by
  obtain ⟨table, outer, hopen⟩ := List.exists_cons_of_ne_nil h.openLocals
  rw [← h.scopes] at hopen
  obtain ⟨table', hsame, hends⟩ := hq a table outer hopen
  rw [hsame rfl, Analyzer.withLocals_of_eq hopen, hrun] at hends
  have hkept : a.Kept b := hends
  exact ⟨h.toFollows, hkept.scopes.trans h.scopes, hkept.failFast.trans h.failFast, h.openLocals,
    h.openScopes⟩

/-- Checks one after the other, of which the first one binds no name. -/
lemma bind_confined {α β : Type} {q : Check α} {f : α → Check β} {y : β} {b : Analyzer}
    (h : w.Reached g p c a) (hq : Check.Confined false q)
    (hrun : (q >>= f).runFrom a = (.ok y, b)) :
    ∃ x a', q.runFrom a = (.ok x, a') ∧ w.Reached g p c a' ∧ (f x).runFrom a' = (.ok y, b) := by
  obtain ⟨x, a', hfirst, hrest⟩ := Check.runFrom_bind_eq_ok.1 hrun
  exact ⟨x, a', hfirst, h.of_confined hq hfirst, hrest⟩

end Reached

/-! ## Checks of expressions -/

lemma Reached.typeOf (h : w.Reached g p c a) {e : Expr} {t : Ty}
    (hrun : (Check.typeOf e).runFrom a = (.ok t, b)) : Typing.typeOf w.scopes e = .ok t := by
  rw [Check.typeOf, Check.runFrom_inScopes, h.scopes] at hrun
  exact (Prod.mk.inj hrun).1

lemma Reached.sound_of_typeOf (h : w.Reached g p c a) {e : Expr} {t : Ty}
    (hrun : (Check.typeOf e).runFrom a = (.ok t, b)) : Sound g p c (w, e) :=
  ⟨h.toFollows, t, h.typeOf hrun⟩

lemma Reached.sound_of_condition (h : w.Reached g p c a) {construct : Conditional} {e : Expr}
    (hrun : (Check.condition construct e).runFrom a = (.ok (), b)) : Sound g p c (w, e) := by
  obtain ⟨_, _, htype, -⟩ := Check.runFrom_bind_eq_ok.1 hrun
  exact h.sound_of_typeOf htype

lemma Reached.sound_of_label (h : w.Reached g p c a) {line : Nat} {type : Ty} {e : Expr}
    (hrun : (Check.label line type e).runFrom a = (.ok (), b)) : Sound g p c (w, e) := by
  obtain ⟨_, _, htype, -⟩ := Check.runFrom_bind_eq_ok.1 hrun
  exact h.sound_of_typeOf htype

lemma Reached.sound_of_forCondition (h : w.Reached g p c a) {e : Option Expr}
    (hrun : (Check.forCondition e).runFrom a = (.ok (), b)) :
    ∀ o ∈ w.optional e, Sound g p c o := by
  cases e with
  | none => exact List.forall_mem_nil _
  | some e => exact List.forall_mem_singleton.2 (h.sound_of_condition hrun)

lemma Reached.sound_of_forUpdate (h : w.Reached g p c a) {e : Option Expr}
    (hrun : (Check.forUpdate e).runFrom a = (.ok (), b)) : ∀ o ∈ w.optional e, Sound g p c o := by
  cases e with
  | none => exact List.forall_mem_nil _
  | some e =>
    obtain ⟨_, _, htype, -⟩ := Check.runFrom_bind_eq_ok.1 hrun
    exact List.forall_mem_singleton.2 (h.sound_of_typeOf htype)

lemma Reached.sound_of_ret (h : w.Reached g p c a) {line : Nat} {value : Option Expr}
    (hrun : (Check.ret line value).runFrom a = (.ok (), b)) :
    ∀ o ∈ w.optional value, Sound g p c o := by
  cases value with
  | none => exact List.forall_mem_nil _
  | some e =>
    rw [Check.ret, Check.runFrom_get_bind] at hrun
    obtain ⟨_, _, htype, -⟩ := Check.runFrom_bind_eq_ok.1 hrun
    rw [Check.runFrom_inScopes, h.scopes] at htype
    obtain ⟨t, htype, -⟩ := Typing.bind_eq_ok.1 (Prod.mk.inj htype).1
    exact List.forall_mem_singleton.2 ⟨h.toFollows, t, htype⟩

/-- A name alone stands for no array. -/
lemma isArray_of_names {s : Scopes} {name : String} {args : List TypeExpr} {t : Ty}
    (h : s.Names name args t) : t.isArray = false := by
  cases h with
  | primitive h =>
    have hall : ∀ entry ∈ Builtin.primitives ++ Builtin.boxed, entry.2.isArray = false := by decide
    rw [Builtin.primitive?, List.lookup_eq_some_iff] at h
    obtain ⟨before, after, hsplit, -⟩ := h
    exact hall (name, t) (hsplit ▸ by simp)
  | plain | generic => rfl

/-- The check of an initial value gives it a type, or its elements. -/
lemma sound_of_checkInitializer (h : w.Follows g p c) (slot : Slot) {type : TypeExpr} {t : Ty}
    {init : Option Expr} (ht : w.scopes.Reads type t)
    (hinit : ∀ e, init = some e → Typing.checkInitializer w.scopes t slot e = .ok ()) :
    ∀ o ∈ w.initial type init, Sound g p c o := by
  obtain ⟨name, args, dimensions⟩ := type
  obtain ⟨element, helement, rfl⟩ := Scopes.reads_iff.1 ht
  cases init with
  | none => exact List.forall_mem_nil _
  | some e =>
    have hcheck := hinit e rfl
    -- all but braces for an array is looked at as a whole
    have hwhole : (do
          let found ← Typing.typeExpecting w.scopes e (.arrayOf element dimensions)
          Typing.ensure (found.isCompatibleWith (.arrayOf element dimensions)) e.line
            (.cannotAssign found (.arrayOf element dimensions) slot) : Typing.Typed Unit) = .ok () →
        Sound g p c (w, e) := by
      intro hwhole
      obtain ⟨_, hexpecting, -⟩ := Typing.bind_eq_ok.1 hwhole
      obtain ⟨found, htype, -⟩ := Typing.bind_eq_ok.1 hexpecting
      exact ⟨h, found, htype⟩
    cases e with
    | arrayInit line elements =>
      cases dimensions with
      | zero =>
        refine List.forall_mem_singleton.2 (hwhole ?_)
        rw [← hcheck, Typing.checkInitializer]
        intro element' _ _ heq
        have harray := isArray_of_names helement
        rw [show element = .array element' from heq] at harray
        cases harray
      | succ dimensions =>
        have helements := Typing.checkElements_eq_ok.1 hcheck
        exact List.forall_mem_map.2 fun e he => ⟨h, (helements e he).imp fun _ => And.left⟩
    | _ =>
      refine List.forall_mem_singleton.2 (hwhole ?_)
      rw [← hcheck, Typing.checkInitializer]
      nofun

/-! ## Checks of statements -/

/-- A declaration that passes leads to the place behind it. -/
lemma Reached.declare (h : w.Reached g p c a) {d : VarDecl}
    (hrun : (Check.varDecl d).runFrom a = (.ok (), b)) :
    (w.declare d).Reached g p c b ∧ ∀ o ∈ (w.within d).initial d.type d.init, Sound g p c o := by
  obtain ⟨t, _, htype, hrun⟩ := Check.runFrom_bind_eq_ok.1 hrun
  rw [Check.runFrom_inScopes, h.scopes] at htype
  obtain ⟨hresolve, rfl⟩ := Prod.mk.inj htype
  have ht := Scopes.reads_of_resolveType _ hresolve
  rw [Check.runFrom_get_bind] at hrun
  have hrun := (Check.runFrom_of_guard hrun).2
  rw [Check.runFrom_bind_of_ok (Check.runFrom_modifyScopes _ _), h.scopes] at hrun
  have hbound : w.scopes.define (.var d.name t) = w.scopes.bindTyped d.name d.line d.type :=
    (Scopes.bindTyped_of_reads ht).symm
  obtain ⟨hglobal, -, hopen⟩ := Scopes.define_of_open h.openLocals (.var d.name t)
  have hreached : ∀ a' : Analyzer, a'.scopes = w.scopes.define (.var d.name t) →
      a'.failFast = true → (w.declare d).Reached g p c a' := by
    intro a' hscopes hfast
    refine ⟨h.toFollows.declare h.openLocals h.openScopes ht, hscopes.trans hbound, hfast, ?_,
      Env.declare_of_open h.openScopes _ _⟩
    simp only [Site.declare, ← hbound]
    exact hopen
  have hfollows := h.toFollows.within h.openLocals ht
  have hreads : (w.within d).scopes.Reads d.type t := by
    refine ht.of_global ?_
    simp only [Site.within, ← hbound, hglobal]
  cases hinit : d.init with
  | none =>
    rw [hinit] at hrun
    cases hrun
    exact ⟨hreached _ rfl h.failFast, List.forall_mem_nil _⟩
  | some init =>
    rw [hinit] at hrun
    simp only [Check.runFrom_inScopes, Prod.mk.injEq] at hrun
    obtain ⟨hcheck, rfl⟩ := hrun
    refine ⟨hreached _ rfl h.failFast, sound_of_checkInitializer hfollows .var hreads ?_⟩
    rintro _ ⟨⟩
    rw [hbound] at hcheck
    exact hcheck

/-- The first clause of a `for` loop that passes leads to the place behind it. -/
lemma Reached.afterInit (h : w.Reached g p c a) {init : Option ForInit}
    (hrun : (Check.forInit init).runFrom a = (.ok (), b)) :
    (w.afterInit init).Reached g p c b ∧ ∀ o ∈ w.first init, Sound g p c o := by
  rcases init with _ | d | e
  · cases hrun
    exact ⟨h, List.forall_mem_nil _⟩
  · exact h.declare hrun
  · obtain ⟨_, _, htype, hrun⟩ := Check.runFrom_bind_eq_ok.1 hrun
    cases hrun
    exact ⟨h.of_confined (Check.confined_scoped.outer.typeOf e) htype,
      List.forall_mem_singleton.2 (h.sound_of_typeOf htype)⟩

/-- An arm of a switch that passes leads back to its site, and so the next one is checked there. -/
lemma Reached.bind_arms {type : Ty} {seen : Check.ArmsSeen} {first : SwitchArm}
    {rest : List SwitchArm} (h : w.Reached g p c a)
    (hrun : (Check.arms type seen (first :: rest)).runFrom a = (.ok (), b)) :
    ∃ a', (Check.arm type seen first).runFrom a = (.ok (), a') ∧ w.Reached g p c a' ∧
      (Check.arms type (seen.after w.scopes type first) rest).runFrom a' = (.ok (), b) := by
  obtain ⟨_, a', hfirst, hrest⟩ := Check.runFrom_bind_eq_ok.1 hrun
  have hfirst :=
    Check.runFrom_of_attempt (Check.agrees_scoped.arm type seen first) h.failFast hfirst
  have h' := h.of_confined (Check.confined_scoped.arm type seen first) hfirst
  rw [Check.runFrom_get_bind, h'.scopes] at hrest
  exact ⟨a', hfirst, h', hrest⟩

/-- A statement that passes leads to the site behind it. -/
lemma Reached.after (h : w.Reached g p c a) {s : Stmt}
    (hrun : (Check.stmt s).runFrom a = (.ok (), b)) : (w.after s).Reached g p c b := by
  rcases Check.confined_scoped.varDecl_or_stmt s with ⟨d, rfl⟩ | hconfined
  · exact (h.declare hrun).1
  · cases s with
    | varDecl d => exact (h.declare hrun).1
    | _ => exact h.of_confined hconfined hrun

mutual

/-- The expressions of a statement that passes have types at their sites. -/
theorem Reached.stmt : (s : Stmt) → ∀ {w : Site} {a b : Analyzer}, w.Reached g p c a →
    (Check.stmt s).runFrom a = (.ok (), b) → ∀ o ∈ w.inStmt s, Sound g p c o
  | .varDecl d, _, _, _, h, hrun => (h.declare hrun).2
  | .block body, _, _, _, h, hrun => h.block body hrun
  | .ifThen _ e body, _, _, _, h, hrun => by
    obtain ⟨_, _, he, h', hrun⟩ := h.bind_confined (Check.confined_scoped.outer.condition _ e) hrun
    exact List.forall_mem_cons.2 ⟨h.sound_of_condition he, h'.block body hrun⟩
  | .ifElse _ e body other, _, _, _, h, hrun => by
    obtain ⟨_, _, he, h', hrun⟩ := h.bind_confined (Check.confined_scoped.outer.condition _ e) hrun
    obtain ⟨_, _, hbody, h'', hother⟩ := h'.bind_confined (Check.confined_scoped.block body) hrun
    exact List.forall_mem_cons.2 ⟨h.sound_of_condition he,
      List.forall_mem_append.2 ⟨h'.block body hbody, h''.elseBlock other hother⟩⟩
  | .whileLoop _ e body, _, _, _, h, hrun | .doWhile _ body e, _, _, _, h, hrun => by
    obtain ⟨_, _, he, h', hrun⟩ := h.bind_confined (Check.confined_scoped.outer.condition _ e) hrun
    obtain ⟨_, hbody⟩ := Check.runFrom_of_inContext hrun
    exact List.forall_mem_cons.2 ⟨h.sound_of_condition he, (h'.setContext _).block body hbody⟩
  | .forLoop _ init e update body, _, _, _, h, hrun => by
    obtain ⟨_, hrun⟩ := Check.runFrom_of_withScope hrun
    obtain ⟨_, _, hinit, hrun⟩ := Check.runFrom_bind_eq_ok.1 hrun
    obtain ⟨h₀, hfirst⟩ := h.push.afterInit hinit
    obtain ⟨_, _, he, h₁, hrun⟩ :=
      h₀.bind_confined (Check.confined_scoped.outer.forCondition e) hrun
    obtain ⟨_, _, hupdate, h₂, hrun⟩ :=
      h₁.bind_confined (Check.confined_scoped.outer.forUpdate update) hrun
    obtain ⟨_, hbody⟩ := Check.runFrom_of_inContext hrun
    exact List.forall_mem_append.2 ⟨hfirst,
      List.forall_mem_append.2 ⟨h₀.sound_of_forCondition he,
        List.forall_mem_append.2 ⟨h₁.sound_of_forUpdate hupdate,
          (h₂.setContext _).block body hbody⟩⟩⟩
  | .switch _ e cases, _, _, _, h, hrun => by
    obtain ⟨type, _, he, h', hrun⟩ := h.bind_confined (Check.confined_scoped.outer.typeOf e) hrun
    obtain ⟨_, harms⟩ := Check.runFrom_of_inContext (Check.runFrom_of_guard hrun).2
    exact List.forall_mem_cons.2
      ⟨h.sound_of_typeOf he, (h'.setContext _).arms type {} cases harms⟩
  | .ret _ _, _, _, _, h, hrun => h.sound_of_ret hrun
  | .expr _, _, _, _, h, hrun => by
    obtain ⟨_, _, he, -⟩ := Check.runFrom_bind_eq_ok.1 hrun
    exact List.forall_mem_singleton.2 (h.sound_of_typeOf he)
  | .breakOff _, _, _, _, _, _ | .continueOn _, _, _, _, _, _ => List.forall_mem_nil _

/-- The expressions of statements that pass have types at their sites. -/
theorem Reached.stmts : (ss : List Stmt) → ∀ {w : Site} {a b : Analyzer}, w.Reached g p c a →
    (Check.stmts ss).runFrom a = (.ok (), b) → ∀ o ∈ w.inStmts ss, Sound g p c o
  | [], _, _, _, _, _ => List.forall_mem_nil _
  | s :: ss, _, _, _, h, hrun => by
    obtain ⟨_, _, hfirst, hrest⟩ := Check.runFrom_bind_eq_ok.1 hrun
    have hs := Check.agrees_scoped.stmt_of_or (Check.agrees_scoped.varDecl_or_stmt s)
    have hfirst := Check.runFrom_of_attempt hs h.failFast hfirst
    exact List.forall_mem_append.2 ⟨h.stmt s hfirst, (h.after hfirst).stmts ss hrest⟩

/-- The expressions of a block that passes have types at their sites. -/
theorem Reached.block : (body : Block) → ∀ {w : Site} {a b : Analyzer}, w.Reached g p c a →
    (Check.block body).runFrom a = (.ok (), b) → ∀ o ∈ w.inBlock body, Sound g p c o
  | .mk _ ss, _, _, _, h, hrun => by
    obtain ⟨_, hrun⟩ := Check.runFrom_of_withScope hrun
    exact h.push.stmts ss hrun

/-- So have those of the other side of a branch. -/
theorem Reached.elseBlock : (body : Block) → ∀ {w : Site} {a b : Analyzer}, w.Reached g p c a →
    (Check.block body).runFrom a = (.ok (), b) → ∀ o ∈ w.inElse body, Sound g p c o
  | .mk _ ss, _, _, _, h, hrun => by
    obtain ⟨_, hrun⟩ := Check.runFrom_of_withScope hrun
    exact (h.otherwise ss).stmts ss hrun

/-- So have those of an arm of a switch. -/
theorem Reached.arm (type : Ty) (seen : Check.ArmsSeen) : (arm : SwitchArm) →
    ∀ {w : Site} {a b : Analyzer}, w.Reached g p c a →
      (Check.arm type seen arm).runFrom a = (.ok (), b) → ∀ o ∈ w.inArm arm, Sound g p c o
  | .labelled line e body, _, _, _, h, hrun => by
    obtain ⟨_, _, he, h', hrun⟩ :=
      h.bind_confined (Check.confined_scoped.outer.label line type e) hrun
    obtain ⟨_, _, hbody, -⟩ := Check.runFrom_bind_eq_ok.1 hrun
    exact List.forall_mem_cons.2 ⟨h.sound_of_label he, h'.block body hbody⟩
  | .otherwise _ body, _, _, _, h, hrun => by
    simp only [Check.arm] at hrun
    exact h.block body (Check.runFrom_of_guard hrun).2

/-- So have those of the arms of a switch. -/
theorem Reached.arms (type : Ty) (seen : Check.ArmsSeen) : (cases : List SwitchArm) →
    ∀ {w : Site} {a b : Analyzer}, w.Reached g p c a →
      (Check.arms type seen cases).runFrom a = (.ok (), b) → ∀ o ∈ w.inArms cases, Sound g p c o
  | [], _, _, _, _, _ => List.forall_mem_nil _
  | first :: rest, _, _, _, h, hrun => by
    obtain ⟨_, hfirst, h', hrest⟩ := h.bind_arms hrun
    exact List.forall_mem_append.2 ⟨h.arm type seen first hfirst, h'.arms type _ rest hrest⟩

end

/-! ## Methods -/

/-- Parameters are bound as they are written. -/
lemma bindParameters_eq_ok {ps : List Parameter} {types : List (String × Ty)}
    (hopen : a.scopes.locals ≠ []) (hglobal : a.scopes.global = g)
    (htypes : Check.parameterTypes { global := g } ps = .ok types)
    (hrun : (Check.bindParameters ps types).runFrom a = (.ok (), b)) :
    b = { a with scopes := a.scopes.bindParams ps } := by
  induction ps generalizing a types with
  | nil =>
    cases htypes
    cases hrun
    rfl
  | cons q ps ih =>
    obtain ⟨t, htype, htypes⟩ := Typing.bind_eq_ok.1 htypes
    obtain ⟨types', hrest, ⟨⟩⟩ := Typing.bind_eq_ok.1 htypes
    rw [Check.bindParameters, Check.runFrom_get_bind] at hrun
    have hrun := (Check.runFrom_of_guard hrun).2
    rw [Check.runFrom_bind_of_ok (Check.runFrom_modifyScopes _ _)] at hrun
    obtain ⟨hglobal', -, hopen'⟩ := Scopes.define_of_open hopen (.var q.name t)
    have hreads : a.scopes.Reads q.type t :=
      (Scopes.reads_of_resolveType _ htype).of_global hglobal.symm
    rw [ih hopen' (hglobal'.trans hglobal) hrest hrun, Scopes.bindParams,
      Scopes.bindTyped_of_reads hreads]

/-- Binding parameters changes the innermost block scope only. -/
lemma bindParams_of_open {s : Scopes} {ps : List Parameter} {types : List (String × Ty)}
    (hopen : s.locals ≠ []) (hglobal : s.global = g)
    (htypes : Check.parameterTypes { global := g } ps = .ok types) :
    (s.bindParams ps).global = g ∧ (s.bindParams ps).currentClass = s.currentClass ∧
      ∀ n ∉ ps.map Parameter.name, (s.bindParams ps).local? n = s.local? n := by
  induction ps generalizing s types with
  | nil => exact ⟨hglobal, rfl, fun _ _ => rfl⟩
  | cons q ps ih =>
    obtain ⟨t, htype, htypes⟩ := Typing.bind_eq_ok.1 htypes
    obtain ⟨types', hrest, -⟩ := Typing.bind_eq_ok.1 htypes
    obtain ⟨hglobal', hclass', hopen'⟩ := Scopes.define_of_open hopen (.var q.name t)
    have hreads : s.Reads q.type t := (Scopes.reads_of_resolveType _ htype).of_global hglobal.symm
    obtain ⟨hg, hclass, hlocals⟩ := ih hopen' (hglobal'.trans hglobal) hrest
    rw [Scopes.bindParams, Scopes.bindTyped_of_reads hreads]
    refine ⟨hg, hclass.trans hclass', fun n hn => ?_⟩
    rw [List.map_cons, List.mem_cons, not_or] at hn
    rw [hlocals n hn.2, Scopes.local?_define hopen, if_neg (Ne.symm hn.1)]

/-- A parameter stands for the same in the check and in a list of all parameters, the last one
first. -/
lemma binds_bindParams {s : Scopes} {ps : List Parameter} {types : List (String × Ty)}
    (hopen : s.locals ≠ []) (hglobal : s.global = g)
    (htypes : Check.parameterTypes { global := g } ps = .ok types) (n : String) {names : Names}
    (hbinds : g.Binds (s.local? n) (names.lookup n)) :
    g.Binds ((s.bindParams ps).local? n)
      (((ps.map fun q => (q.name, q.type)).reverse ++ names).lookup n) := by
  induction ps generalizing s types names with
  | nil => exact hbinds
  | cons q ps ih =>
    obtain ⟨t, htype, htypes⟩ := Typing.bind_eq_ok.1 htypes
    obtain ⟨types', hrest, -⟩ := Typing.bind_eq_ok.1 htypes
    obtain ⟨hglobal', -, hopen'⟩ := Scopes.define_of_open hopen (.var q.name t)
    have hreads := Scopes.reads_of_resolveType _ htype
    rw [Scopes.bindParams, Scopes.bindTyped_of_reads (hreads.of_global hglobal.symm), List.map_cons,
      List.reverse_cons, List.append_assoc, List.singleton_append]
    refine ih hopen' (hglobal'.trans hglobal) hrest ?_
    rw [Scopes.local?_define hopen, List.lookup_cons]
    by_cases hname : q.name = n
    · rw [if_pos hname, beq_iff_eq.2 hname.symm]
      exact .some hreads
    · rw [if_neg hname, beq_eq_false_iff_ne.2 (Ne.symm hname)]
      exact hbinds

/-- Inside a method, all local names that are not hidden are those of its parameters. -/
lemma Follows.enter (h : w.Follows g p c) (hlocals : w.scopes.locals = []) {d : MethodDecl}
    {params : List (String × Ty)}
    (hparams : Check.parameterTypes { global := g } d.params = .ok params) :
    (w.enter d).Follows g p c := by
  have hopen : w.scopes.push.locals ≠ [] := List.cons_ne_nil _ _
  have hnone : ∀ n, w.scopes.push.local? n = none := by
    intro n
    simp [Scopes.local?, Scopes.push, hlocals]
  obtain ⟨hg, hclass, hother⟩ := bindParams_of_open hopen h.global hparams
  refine ⟨hg, hclass.trans h.currentClass, ⟨h.env.fields, h.env.methods, h.env.classes⟩,
    fun n hn => ?_⟩
  change g.Binds ((w.scopes.push.bindParams d.params).local? n) _
  by_cases hmain : d.name = entryPoint
  · simp only [Site.enter, if_pos hmain] at hn
    have hscopes : (w.enter d).env.local? n = none := by
      simp [Site.enter, Env.enter, Env.local?, if_pos hmain]
    rw [hscopes, hother n hn, hnone]
    exact .none
  · have hscopes : (w.enter d).env.local? n =
        ((d.params.map fun q : Parameter => (q.name, q.type)).reverse ++ []).lookup n := by
      simp [Site.enter, Env.enter, Env.local?, if_neg hmain]
    rw [hscopes]
    refine binds_bindParams hopen h.global hparams n ?_
    rw [hnone]
    exact .none

/-- Outside of methods there are no local names. -/
lemma follows_ofClass (g : Table) (p : Program) (c : String) :
    (ofClass { global := g } p c).Follows g p c :=
  ⟨rfl, rfl, ⟨rfl, rfl, rfl⟩, fun _ _ => .none⟩

/-- The check of a method that passes binds its parameters, comes to the inside of the method, and
goes through its statements from there. -/
lemma exists_reached_enter {d : MethodDecl} {plan : MemberPlan}
    (hplan : (Member.method d).plan { global := g } = .ok plan)
    (hpasses : Check.BodyPasses g c plan) :
    ∃ params a₀ b₀ a b, a₀.scopes.locals ≠ [] ∧
      Check.parameterTypes { global := g } d.params = .ok params ∧
      (Check.bindParameters d.params params).runFrom a₀ = (.ok (), b₀) ∧
      ((ofClass { global := g } p c).enter d).Reached g p c a ∧
      (Check.stmts d.body.stmts).runFrom a = (.ok (), b) := by
  obtain ⟨result, -, hplan⟩ := Typing.bind_eq_ok.1 hplan
  obtain ⟨params, hparams, ⟨⟩⟩ := Typing.bind_eq_ok.1 hplan
  obtain ⟨b, hrun⟩ := hpasses
  obtain ⟨_, _, ⟨⟩, hrun⟩ := Check.runFrom_bind_eq_ok.1 hrun
  obtain ⟨_, _, hscope, -⟩ := Check.runFrom_bind_eq_ok.1 hrun
  obtain ⟨_, hscope⟩ := Check.runFrom_of_withScope hscope
  obtain ⟨_, _, hbind, hbody⟩ := Check.runFrom_bind_eq_ok.1 hscope
  obtain rfl := bindParameters_eq_ok (List.cons_ne_nil _ _) rfl hparams hbind
  cases hd : d.body with | mk line ss =>
  rw [hd] at hbody
  obtain ⟨_, hss⟩ := Check.runFrom_of_withScope hbody
  refine ⟨params, _, _, _, _, List.cons_ne_nil _ _, hparams, hbind, ?_, hss⟩
  exact ⟨(follows_ofClass g p c).enter rfl hparams, rfl, rfl, List.cons_ne_nil _ _,
    List.cons_ne_nil _ _⟩

/-- The expressions of a member whose body passes have types at their sites. -/
theorem sound_inMember {m : Member} {plan : MemberPlan}
    (hplan : m.plan { global := g } = .ok plan) (hpasses : Check.BodyPasses g c plan) :
    ∀ o ∈ (ofClass { global := g } p c).inMember m, Sound g p c o := by
  cases m with
  | field d =>
    have hfollows := follows_ofClass g p c
    obtain ⟨t, htype, ⟨⟩⟩ := Typing.bind_eq_ok.1 hplan
    have hreads : Scopes.Reads { global := g } d.type t := Scopes.reads_of_resolveType _ htype
    have ht : (ofClass { global := g } p c).scopes.Reads d.type t :=
      hreads.of_global hfollows.global.symm
    refine sound_of_checkInitializer hfollows .field ht fun e he => ?_
    obtain ⟨b, hrun⟩ := hpasses
    simp only [Check.memberBody, he, Check.runFrom_inScopes] at hrun
    exact (Prod.mk.inj hrun).1
  | method d =>
    obtain ⟨_, _, _, _, _, -, -, -, hreached, hss⟩ := exists_reached_enter hplan hpasses
    exact hreached.stmts _ hss

end Site

end Target

/-- **At their sites, the expressions of an accepted program have types, and local names that are
not hidden are the same for the check and for the generator.** -/
theorem Program.sound_of_mem_occurrences {a : Analyzer} {p : Program}
    (haccepted : (a.analyze p).1 = []) {o : Occurrence}
    (ho : o ∈ p.occurrences (a.analyze p).2.scopes) :
    ∃ g c, g.Describes p ∧ c ∈ p.classNames ∧ Sound g p c o := by
  obtain ⟨g, hscopes, hdescribes, hbodies⟩ := Analyzer.exists_describes haccepted
  rw [hscopes] at ho
  obtain ⟨c, hc, ho⟩ := List.mem_flatMap.1 ho
  obtain ⟨m, hm, ho⟩ := List.mem_flatMap.1 ho
  obtain ⟨plan, hplan, hpasses⟩ := hbodies c hc m hm
  exact ⟨g, c.name, hdescribes, List.mem_map_of_mem hc, Site.sound_inMember hplan hpasses o ho⟩

end ClassLang
