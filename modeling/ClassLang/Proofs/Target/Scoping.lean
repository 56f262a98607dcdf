import ClassLang.Proofs.Target.CodeText
import ClassLang.Proofs.Target.StaticTyping

set_option autoImplicit false

/-!
# The scopes of generated code

Fields of all classes become global variables, the entry point gets a head of its own, and the
parameters of a function share a scope with its body. So the scopes of generated code are not those
of the check. Nevertheless all variables that generated code mentions are declared in it, apart from
the parameters of the entry point. A global name is declared twice only for fields of two classes,
and a name in the scope of a function only for a parameter and a variable of the body.

## Main definitions

* `ClassLang.Target.Site.Covered` — the names at hand at a site are declared in generated code.

## Main results

* `ClassLang.Target.Site.knows_of_mem_mentions` — the variables that an expression is written with
  are at hand at its site.
* `ClassLang.Target.Site.Covered.stmt` — what a statement mentions is declared.
* `ClassLang.Target.Site.Reached.fresh_stmts` — the variables of a block have different names.
* `ClassLang.Program.generated_scopes` — the scopes of a program that is accepted and generated.
* `ClassLang.Program.generated_scopes_clash` — generated code whose scopes are not in order.
-/

namespace ClassLang

/-- The name that a statement declares in the scope that it stands in. -/
def Stmt.declares? : Stmt → Option String
  | varDecl d => some d.name
  | _ => none

namespace Target

/-! ## Code -/

variable {code more : List Code} {known missing : List String} {name : String}

@[simp]
lemma declared_append (code more : List Code) :
    declared (code ++ more) = declared code ++ declared more :=
  List.filterMap_append

@[simp]
lemma declared_map_mention (names : List String) : declared (names.map .mention) = [] :=
  List.filterMap_eq_nil_iff.2 fun c hc => by
    obtain ⟨name, -, rfl⟩ := List.mem_map.1 hc
    rfl

@[simp]
lemma declared_map_declare (names : List String) : declared (names.map .declare) = names := by
  simp [declared, List.filterMap_map, Function.comp_def, Code.declares?]

/-- All names that are mentioned are declared, but for some that are missing. -/
def Closed (known missing : List String) (code : List Code) : Prop :=
  ∀ name ∈ undeclared known code, name ∈ missing

lemma undeclared_append (known : List String) (code more : List Code) :
    undeclared known (code ++ more) =
      undeclared known code ++ undeclared (known ++ declared code) more := by
  induction code generalizing known with
  | nil => simp [undeclared, declared]
  | cons c code ih =>
    have hdeclared : declared (c :: code) = c.declares?.toList ++ declared code := by
      rw [declared, List.filterMap_cons]
      cases c.declares? <;> rfl
    rw [List.cons_append, undeclared, undeclared, ih, hdeclared, List.append_assoc,
      List.append_assoc]

lemma closed_append : Closed known missing (code ++ more) ↔
    Closed known missing code ∧ Closed (known ++ declared code) missing more := by
  rw [Closed, undeclared_append]
  exact List.forall_mem_append

lemma closed_nil : Closed known missing [] :=
  List.forall_mem_nil _

lemma closed_scope : Closed known missing [.scope code] ↔ Closed known missing code := by
  simp [Closed, undeclared, Code.undeclaredIn]

lemma closed_mentions {names : List String} (h : ∀ name ∈ names, name ∈ known ∨ name ∈ missing) :
    Closed known missing (names.map .mention) := by
  induction names generalizing known with
  | nil => exact closed_nil
  | cons name names ih =>
    obtain ⟨hname, hrest⟩ := List.forall_mem_cons.1 h
    have hfirst : Closed known missing [.mention name] := by
      simp only [Closed, undeclared, Code.undeclaredIn, List.append_nil]
      split
      · exact List.forall_mem_nil _
      next hunknown => exact List.forall_mem_singleton.2 (hname.resolve_left hunknown)
    have hmore : Closed (known ++ declared [.mention name]) missing (names.map .mention) :=
      ih fun n hn => (hrest n hn).imp_left (List.mem_append_left _)
    exact closed_append.2 ⟨hfirst, hmore⟩

lemma closed_flatMap {α : Type} {xs : List α} {f : α → List Code}
    (h : ∀ x ∈ xs, ∀ more, Closed (known ++ more) missing (f x)) :
    Closed known missing (xs.flatMap f) := by
  induction xs generalizing known with
  | nil => exact closed_nil
  | cons x xs ih =>
    obtain ⟨hx, hxs⟩ := List.forall_mem_cons.1 h
    refine closed_append.2 ⟨by simpa using hx [], ih fun y hy more => ?_⟩
    rw [List.append_assoc]
    exact hxs y hy _

lemma closed_declarations (names : List String) :
    Closed known missing (names.map .declare) := by
  induction names generalizing known with
  | nil => exact closed_nil
  | cons name names ih => exact ih

lemma closed_scopeIf {braces : Bool} :
    Closed known missing (scopeIf braces code) ↔ Closed known missing code := by
  cases braces with
  | false => rfl
  | true => exact closed_scope

/-! ## Mentions -/

namespace Site

variable {w : Site} {g : Table} {p : Program} {c : String}

/-- A name is at hand at a site: it is local, hidden, or that of a field. -/
def Knows (w : Site) (p : Program) (name : String) : Prop :=
  (w.env.local? name).isSome = true ∨ name ∈ w.hidden ∨ name ∈ p.fields.map FieldDecl.name

lemma mem_fields {d : FieldDecl} (h : Member.field d ∈ p.members) :
    d.name ∈ p.fields.map FieldDecl.name := by
  obtain ⟨c, hc, hd⟩ := List.mem_flatMap.1 h
  exact List.mem_map_of_mem (List.mem_flatMap.2 ⟨c, hc, ClassDecl.mem_fields.2 hd⟩)

/-- A name that stands for a variable is at hand. -/
lemma knows_of_namesVar (hd : g.Describes p) (hc : c ∈ p.classNames) (h : w.Follows g p c)
    {name : String} (hvar : w.namesVar name = true) : w.Knows p name := by
  by_cases hvisible : name ∈ w.hidden
  · exact .inr (.inl hvisible)
  · obtain ⟨symbol, hresolve, hsymbol⟩ := (Option.any_eq_true _ _).1 hvar
    have hbinds := h.locals name hvisible
    change (w.scopes.local? name <|> w.scopes.resolveMember name) = some symbol at hresolve
    generalize w.scopes.local? name = found at hbinds hresolve
    generalize hlocal : w.env.local? name = type at hbinds
    cases hbinds with
    | some => exact .inl (by rw [hlocal]; rfl)
    | none =>
      rcases member_or_class hd hc h hresolve with ⟨m, hm, rfl, -, hfield, -⟩ | ⟨hclass, -⟩
      · obtain ⟨d, rfl⟩ := hfield hsymbol
        exact .inr (.inr (mem_fields hm))
      · cases symbol with
        | var => cases hclass
        | _ => cases hsymbol

/-- A field of a class of the program is at hand. -/
lemma knows_of_hasField (hd : g.Describes p) (h : w.Follows g p c) {object : Expr} {name : String}
    (hclass : w.env.isClassName object = true) (hfield : w.hasField object name = true) :
    w.Knows p name := by
  cases object with
  | var line c' =>
    obtain ⟨-, hmem⟩ := Bool.and_eq_true_iff.1 hclass
    rw [List.contains_iff_mem, h.env.classes] at hmem
    obtain ⟨info, hinfo, hany⟩ := (Option.any_eq_true _ _).1 hfield
    obtain ⟨symbol, hsymbol, hvar⟩ := (Option.any_eq_true _ _).1 hany
    obtain ⟨m, hm, rfl, -, hfield, -⟩ := (hd.exists_member h.global hmem hinfo).2 hsymbol
    obtain ⟨d, rfl⟩ := hfield hvar
    exact .inr (.inr (mem_fields hm))
  | _ => cases hclass

mutual

/-- **The variables that an expression is written with are at hand at its site.** -/
theorem knows_of_mem_mentions (hd : g.Describes p) (hc : c ∈ p.classNames) (h : w.Follows g p c) :
    (e : Expr) → ∀ name ∈ w.mentions e, w.Knows p name
  | .literal _ _ | .newObject _ _ _ => List.forall_mem_nil _
  | .var _ name => by
    rw [mentions]
    split
    next hvar => exact List.forall_mem_singleton.2 (knows_of_namesVar hd hc h hvar)
    next => exact List.forall_mem_nil _
  | .binary _ _ left right | .index _ left right | .assign _ left right => by
    rw [mentions]
    exact List.forall_mem_append.2
      ⟨knows_of_mem_mentions hd hc h left, knows_of_mem_mentions hd hc h right⟩
  | .unary _ _ e | .newArray _ _ e _ => knows_of_mem_mentions hd hc h e
  | .call _ _ es | .arrayInit _ es => knows_of_mem_mentionsAll hd hc h es
  | .methodCall _ receiver _ args => by
    rw [mentions]
    split
    · cases args with
      | nil => exact List.forall_mem_nil _
      | cons arg args => exact knows_of_mem_mentions hd hc h arg
    · split
      · exact knows_of_mem_mentionsAll hd hc h args
      · exact List.forall_mem_append.2
          ⟨knows_of_mem_mentions hd hc h receiver, knows_of_mem_mentionsAll hd hc h args⟩
  | .field _ object name => by
    rw [mentions]
    split
    next hclass =>
      split
      next hfield => exact List.forall_mem_singleton.2 (knows_of_hasField hd h hclass hfield)
      next => exact List.forall_mem_nil _
    next => exact knows_of_mem_mentions hd hc h object

theorem knows_of_mem_mentionsAll (hd : g.Describes p) (hc : c ∈ p.classNames)
    (h : w.Follows g p c) : (es : List Expr) → ∀ name ∈ w.mentionsAll es, w.Knows p name
  | [] => List.forall_mem_nil _
  | e :: es => List.forall_mem_append.2
      ⟨knows_of_mem_mentions hd hc h e, knows_of_mem_mentionsAll hd hc h es⟩

end

/-- The variables that an expression is written with are at hand. -/
def Knowing (p : Program) (o : Occurrence) : Prop :=
  ∀ name ∈ o.1.mentions o.2, o.1.Knows p name

lemma exists_of_mem_mentionsAll {es : List Expr} (h : name ∈ w.mentionsAll es) :
    ∃ e ∈ es, name ∈ w.mentions e := by
  induction es with
  | nil => cases h
  | cons e es ih =>
    rcases List.mem_append.1 h with hfirst | hrest
    · exact ⟨e, List.mem_cons_self, hfirst⟩
    · obtain ⟨e', he', hname⟩ := ih hrest
      exact ⟨e', List.mem_cons_of_mem _ he', hname⟩

/-! ## Statements -/

/-- The names at hand at a site are declared in generated code, but for some that are missing. -/
structure Covered (w : Site) (p : Program) (known missing : List String) : Prop where
  locals : ∀ {name : String}, (w.env.local? name).isSome = true → name ∈ known
  hidden : ∀ name ∈ w.hidden, name ∈ known ∨ name ∈ missing
  fields : ∀ name ∈ p.fields.map FieldDecl.name, name ∈ known

namespace Covered

lemma mem_of_knows (h : w.Covered p known missing) (hname : w.Knows p name) :
    name ∈ known ∨ name ∈ missing := by
  rcases hname with hlocal | hhidden | hfield
  · exact .inl (h.locals hlocal)
  · exact h.hidden name hhidden
  · exact .inl (h.fields name hfield)

lemma weaken (h : w.Covered p known missing) (more : List String) :
    w.Covered p (known ++ more) missing where
  locals hname := List.mem_append_left _ (h.locals hname)
  hidden name hname := (h.hidden name hname).imp_left (List.mem_append_left _)
  fields name hname := List.mem_append_left _ (h.fields name hname)

lemma push (h : w.Covered p known missing) : w.push.Covered p known missing :=
  ⟨h.locals, h.hidden, h.fields⟩

lemma otherwise (h : w.Covered p known missing) (ss : List Stmt) :
    (w.otherwise ss).Covered p known missing := by
  unfold Site.otherwise
  split
  · split
    · exact ⟨h.locals, h.hidden, h.fields⟩
    · exact h.push
  · exact h.push

lemma within (h : w.Covered p known missing) (d : VarDecl) :
    (w.within d).Covered p (known ++ [d.name]) missing where
  locals := (h.weaken _).locals
  hidden := List.forall_mem_cons.2 ⟨.inl (by simp), (h.weaken _).hidden⟩
  fields := (h.weaken _).fields

lemma declare (h : w.Covered p known missing) (d : VarDecl) :
    (w.declare d).Covered p (known ++ [d.name]) missing where
  locals {name} hname := by
    by_cases hopen : w.env.scopes = []
    · have hsame : w.env.declare d.name d.type = w.env := by simp [Env.declare, hopen]
      rw [Site.declare, hsame] at hname
      exact (h.weaken _).locals hname
    · rw [Site.declare, Env.local?_declare hopen] at hname
      split at hname
      next heq => simp [heq]
      next => exact (h.weaken _).locals hname
  hidden name hname := (h.weaken _).hidden name (List.mem_of_mem_filter hname)
  fields := (h.weaken _).fields

end Covered

/-! ## Names that statements declare -/

@[simp]
lemma declared_exprCode (w : Site) (e : Expr) : declared (w.exprCode e) = [] :=
  declared_map_mention _

@[simp]
lemma declared_optionalCode (w : Site) (e : Option Expr) : declared (w.optionalCode e) = [] := by
  cases e with
  | none => rfl
  | some e => exact w.declared_exprCode e

@[simp]
lemma declared_declCode (w : Site) (name : String) (init : Option Expr) :
    declared (w.declCode name init) = [name] := by
  have hcons : w.declCode name init = [.declare name] ++ w.optionalCode init := rfl
  rw [hcons, declared_append, declared_optionalCode]
  rfl

/-- A declaration is in order if its initial value is, with the name declared. -/
lemma closed_declCode {init : Option Expr}
    (h : Closed (known ++ [name]) missing (w.optionalCode init)) :
    Closed known missing (w.declCode name init) := by
  have hname : Closed known missing [.declare name] := List.forall_mem_nil _
  exact closed_append.2 ⟨hname, h⟩

lemma declared_scope (code : List Code) : declared [.scope code] = [] := rfl

mutual

/-- Outside of its inner scopes, a statement declares at most the variable that it is for. -/
theorem declared_stmtCode : (s : Stmt) → ∀ w : Site,
    declared (w.stmtCode s) = s.declares?.toList
  | .varDecl d, w => by
    rw [stmtCode, declared_declCode]
    rfl
  | .ifElse _ c _ elseBranch, w => by
    rw [stmtCode, declared_append, declared_append, declared_exprCode, declared_scope,
      declared_elseCode elseBranch w]
    rfl
  | .block _, w | .forLoop _ _ _ _ _, w => by
    rw [stmtCode, declared_scope]
    rfl
  | .ifThen _ _ _, w | .whileLoop _ _ _, w | .switch _ _ _, w => by
    rw [stmtCode, declared_append, declared_exprCode, declared_scope]
    rfl
  | .doWhile _ _ _, w => by
    rw [stmtCode, declared_append, declared_exprCode, declared_scope]
    rfl
  | .ret _ value, w => by
    rw [stmtCode, declared_optionalCode]
    rfl
  | .expr e, w => by
    rw [stmtCode, declared_exprCode]
    rfl
  | .breakOff _, _ | .continueOn _, _ => rfl

theorem declared_elseCode : (body : Block) → ∀ w : Site, declared (w.elseCode body) = []
  | .mk _ [s], w => by
    rw [elseCode, stmtsCode, stmtsCode, List.append_nil]
    cases hbranch : joinsElse [s] with
    | false => rfl
    | true =>
      refine (declared_stmtCode s (w.otherwise [s])).trans ?_
      cases s with
      | ifThen | ifElse => rfl
      | _ => cases hbranch
  | .mk _ [], w => rfl
  | .mk _ (_ :: _ :: _), w => rfl

end

lemma declared_stmtsCode (ss : List Stmt) (w : Site) :
    declared (w.stmtsCode ss) = ss.filterMap Stmt.declares? := by
  induction ss generalizing w with
  | nil => rfl
  | cons s ss ih =>
    rw [stmtsCode, declared_append, declared_stmtCode, ih, List.filterMap_cons]
    cases s.declares? <;> rfl

lemma declared_functionCode (w : Site) (d : MethodDecl) :
    declared (w.functionCode d) = functionParams d ++ d.body.stmts.filterMap Stmt.declares? := by
  rw [functionCode, declared_append, declared_map_declare, declared_stmtsCode]

/-! ## Names that statements mention -/

namespace Covered

lemma after (h : w.Covered p known missing) (s : Stmt) :
    (w.after s).Covered p (known ++ declared (w.stmtCode s)) missing := by
  rw [declared_stmtCode]
  cases s with
  | varDecl d => exact h.declare d
  | _ => exact h.weaken _

lemma afterInit (h : w.Covered p known missing) (init : Option ForInit) :
    (w.afterInit init).Covered p (known ++ declared (w.initCode init)) missing := by
  rcases init with _ | d | e
  · exact h.weaken _
  · rw [initCode, declared_declCode]
    exact h.declare d
  · exact h.weaken _

lemma expr (h : w.Covered p known missing) {e : Expr} (hs : Knowing p (w, e)) :
    Closed known missing (w.exprCode e) :=
  closed_mentions fun name hname =>
    h.mem_of_knows (hs name hname)

lemma optional (h : w.Covered p known missing) {e : Option Expr}
    (hs : ∀ o ∈ w.optional e, Knowing p o) : Closed known missing (w.optionalCode e) := by
  cases e with
  | none => exact closed_nil
  | some e => exact h.expr (hs _ (by simp [Site.optional]))

/-- The initial value of a slot, of which the elements are looked at one by one if the slot is an
array. -/
lemma initial (h : w.Covered p known missing) {type : TypeExpr} {init : Option Expr}
    (hs : ∀ o ∈ w.initial type init, Knowing p o) :
    Closed known missing (w.optionalCode init) := by
  cases init with
  | none => exact closed_nil
  | some e =>
    cases e with
    | arrayInit line es =>
      rw [Site.initial] at hs
      split at hs
      · exact h.expr (List.forall_mem_singleton.1 hs)
      · refine closed_mentions fun name hname => h.mem_of_knows ?_
        obtain ⟨e, he, hname⟩ := exists_of_mem_mentionsAll hname
        exact List.forall_mem_map.1 hs e he name hname
    | _ => exact h.expr (List.forall_mem_singleton.1 hs)

lemma decl (h : w.Covered p known missing) (d : VarDecl)
    (hs : ∀ o ∈ (w.within d).initial d.type d.init, Knowing p o) :
    Closed known missing ((w.within d).declCode d.name d.init) :=
  closed_declCode ((h.within d).initial hs)

/-- A field with the fields around it. -/
lemma field (h : w.Covered p known missing) {d : FieldDecl}
    (hs : ∀ o ∈ w.inMember (.field d), Knowing p o) :
    Closed known missing (w.declCode d.name d.init) :=
  closed_declCode ((h.weaken _).initial hs)

lemma init (h : w.Covered p known missing) {init : Option ForInit}
    (hs : ∀ o ∈ w.first init, Knowing p o) : Closed known missing (w.initCode init) := by
  rcases init with _ | d | e
  · exact closed_nil
  · exact h.decl d hs
  · exact h.expr (List.forall_mem_singleton.1 hs)

/-- An expression with code behind it. -/
lemma expr_append (h : w.Covered p known missing) {e : Expr} (hs : Knowing p (w, e))
    (hmore : Closed known missing more) : Closed known missing (w.exprCode e ++ more) := by
  refine closed_append.2 ⟨h.expr hs, ?_⟩
  simpa using hmore

mutual

/-- **What a statement mentions is declared.** -/
theorem stmt : (s : Stmt) → ∀ {w : Site} {known : List String}, w.Covered p known missing →
    (∀ o ∈ w.inStmt s, Knowing p o) → Closed known missing (w.stmtCode s)
  | .varDecl d, _, _, h, hs => by
    rw [stmtCode]
    exact h.decl d hs
  | .block body, _, _, h, hs => by
    rw [stmtCode]
    exact closed_scope.2 (block body h hs)
  | .ifThen _ _ body, _, _, h, hs | .whileLoop _ _ body, _, _, h, hs => by
    obtain ⟨he, hbody⟩ := List.forall_mem_cons.1 hs
    rw [stmtCode]
    exact h.expr_append he (closed_scope.2 (block body h hbody))
  | .ifElse _ _ body other, _, _, h, hs => by
    obtain ⟨he, hs⟩ := List.forall_mem_cons.1 hs
    obtain ⟨hbody, hother⟩ := List.forall_mem_append.1 hs
    rw [stmtCode]
    refine h.expr_append he (closed_append.2 ⟨closed_scope.2 (block body h hbody), ?_⟩)
    rw [declared_scope, List.append_nil]
    exact elseBlock other h hother
  | .doWhile _ body _, _, _, h, hs => by
    obtain ⟨he, hbody⟩ := List.forall_mem_cons.1 hs
    rw [stmtCode]
    refine closed_append.2 ⟨closed_scope.2 (block body h hbody), ?_⟩
    rw [declared_scope, List.append_nil]
    exact h.expr he
  | .forLoop _ init _ _ body, _, _, h, hs => by
    obtain ⟨hinit, hs⟩ := List.forall_mem_append.1 hs
    obtain ⟨he, hs⟩ := List.forall_mem_append.1 hs
    obtain ⟨hupdate, hbody⟩ := List.forall_mem_append.1 hs
    have hinner := h.push.afterInit init
    rw [stmtCode]
    refine closed_scope.2 (closed_append.2 ⟨h.push.init hinit, ?_⟩)
    refine closed_append.2 ⟨hinner.optional he, ?_⟩
    rw [declared_optionalCode, List.append_nil]
    refine closed_append.2 ⟨hinner.optional hupdate, ?_⟩
    rw [declared_optionalCode, List.append_nil]
    exact block body hinner hbody
  | .switch _ _ cases, _, _, h, hs => by
    obtain ⟨he, hcases⟩ := List.forall_mem_cons.1 hs
    rw [stmtCode]
    exact h.expr_append he (closed_scope.2 (arms cases h hcases))
  | .ret _ _, _, _, h, hs => by
    rw [stmtCode]
    exact h.optional hs
  | .expr _, _, _, h, hs => by
    rw [stmtCode]
    exact h.expr (List.forall_mem_singleton.1 hs)
  | .breakOff _, _, _, _, _ | .continueOn _, _, _, _, _ => closed_nil

theorem stmts : (ss : List Stmt) → ∀ {w : Site} {known : List String}, w.Covered p known missing →
    (∀ o ∈ w.inStmts ss, Knowing p o) → Closed known missing (w.stmtsCode ss)
  | [], _, _, _, _ => closed_nil
  | s :: ss, _, _, h, hs => by
    obtain ⟨hfirst, hrest⟩ := List.forall_mem_append.1 hs
    rw [stmtsCode]
    exact closed_append.2 ⟨stmt s h hfirst, stmts ss (h.after s) hrest⟩

theorem block : (body : Block) → ∀ {w : Site} {known : List String}, w.Covered p known missing →
    (∀ o ∈ w.inBlock body, Knowing p o) → Closed known missing (w.blockCode body)
  | .mk _ ss, _, _, h, hs => stmts ss h.push hs

theorem elseBlock : (body : Block) → ∀ {w : Site} {known : List String},
    w.Covered p known missing → (∀ o ∈ w.inElse body, Knowing p o) →
      Closed known missing (w.elseCode body)
  | .mk _ ss, _, _, h, hs => by
    rw [elseCode]
    exact closed_scopeIf.2 (stmts ss (h.otherwise ss) hs)

theorem arm : (cases : SwitchArm) → ∀ {w : Site} {known : List String}, w.Covered p known missing →
    (∀ o ∈ w.inArm cases, Knowing p o) → Closed known missing (w.armCode cases)
  | .labelled _ _ body, _, _, h, hs => by
    obtain ⟨he, hbody⟩ := List.forall_mem_cons.1 hs
    rw [armCode]
    exact h.expr_append he (closed_scopeIf.2 (block body h hbody))
  | .otherwise _ body, _, _, h, hs => by
    rw [armCode]
    exact closed_scopeIf.2 (block body h hs)

theorem arms : (cases : List SwitchArm) → ∀ {w : Site} {known : List String},
    w.Covered p known missing → (∀ o ∈ w.inArms cases, Knowing p o) →
      Closed known missing (w.armsCode cases)
  | [], _, _, _, _ => closed_nil
  | first :: rest, _, _, h, hs => by
    obtain ⟨hfirst, hrest⟩ := List.forall_mem_append.1 hs
    rw [armsCode]
    exact closed_append.2 ⟨arm first h hfirst, arms rest (h.weaken _) hrest⟩

end

/-- Inside a method, what is missing are the parameters of the entry point. -/
lemma enter (h : w.Covered p known []) (d : MethodDecl) :
    (w.enter d).Covered p (known ++ functionParams d)
      (if d.name = entryPoint then d.params.map Parameter.name else []) where
  locals {name} hname := by
    by_cases hmain : d.name = entryPoint
    · simp [Site.enter, Env.enter, Env.local?, if_pos hmain] at hname
    · have hlocal : (w.enter d).env.local? name =
          (d.params.map fun q : Parameter => (q.name, q.type)).reverse.lookup name := by
        simp [Site.enter, Env.enter, Env.local?, if_neg hmain]
      rw [hlocal, Option.isSome_iff_exists] at hname
      obtain ⟨type, htype⟩ := hname
      obtain ⟨q, hq, hnamed⟩ := exists_of_lookup htype
      obtain ⟨rfl, -⟩ := Prod.mk.inj hnamed
      rw [functionParams, if_neg hmain]
      exact List.mem_append_right _ (List.mem_map_of_mem hq)
  hidden name hname := .inr hname
  fields := (h.weaken _).fields

lemma function (h : w.Covered p known []) {d : MethodDecl}
    (hs : ∀ o ∈ w.inMember (.method d), Knowing p o) :
    Closed known (if d.name = entryPoint then d.params.map Parameter.name else [])
      (w.functionCode d) := by
  refine closed_append.2 ⟨closed_declarations _, ?_⟩
  rw [declared_map_declare]
  exact (h.enter d).stmts d.body.stmts hs

end Covered

end Site

end Target

/-! ## Names that are declared once -/

/-- Different names that are free in the innermost scope. -/
def Scopes.Fresh (s : Scopes) (names : List String) : Prop :=
  names.Nodup ∧ ∀ name ∈ names, s.resolveHere name = none

namespace Scopes

variable {s : Scopes} {names : List String}

lemma resolveHere_define (hopen : s.locals ≠ []) (name n : String) (t : Ty) :
    (s.define (.var name t)).resolveHere n =
      if name = n then some (.var name t) else s.resolveHere n := by
  obtain ⟨table, outer, hlocals⟩ := List.exists_cons_of_ne_nil hopen
  have hget : (table.insert (.var name t)).get? n =
      if name = n then some (.var name t) else table.get? n := table.get?_insert _ n
  simp only [define, resolveHere, currentTable, hlocals, hget]

/-- A name that is free, and names that are free after it is bound. -/
lemma Fresh.cons (hopen : s.locals ≠ []) {name : String} {t : Ty}
    (hname : s.resolveHere name = none) (h : (s.define (.var name t)).Fresh names) :
    s.Fresh (name :: names) := by
  have hfree : ∀ n ∈ names, name ≠ n ∧ s.resolveHere n = none := by
    intro n hn
    have hnone := h.2 n hn
    rw [resolveHere_define hopen] at hnone
    split at hnone
    · cases hnone
    next hne => exact ⟨hne, hnone⟩
  refine ⟨List.nodup_cons.2 ⟨fun hmem => (hfree name hmem).1 rfl, h.1⟩, ?_⟩
  exact List.forall_mem_cons.2 ⟨hname, fun n hn => (hfree n hn).2⟩

end Scopes

namespace Target.Site

variable {w : Site} {g : Table} {p : Program} {c : String} {a b : Analyzer}

/-- Parameters that are bound one after the other have different names. -/
lemma fresh_of_bindParameters {ps : List Parameter} {types : List (String × Ty)}
    (hopen : a.scopes.locals ≠ [])
    (htypes : Check.parameterTypes { global := g } ps = .ok types)
    (hrun : (Check.bindParameters ps types).runFrom a = (.ok (), b)) :
    a.scopes.Fresh (ps.map Parameter.name) := by
  induction ps generalizing a types with
  | nil => exact ⟨.nil, List.forall_mem_nil _⟩
  | cons q ps ih =>
    obtain ⟨t, -, htypes⟩ := Typing.bind_eq_ok.1 htypes
    obtain ⟨types', hrest, ⟨⟩⟩ := Typing.bind_eq_ok.1 htypes
    rw [Check.bindParameters, Check.runFrom_get_bind] at hrun
    obtain ⟨hfree, hrun⟩ := Check.runFrom_of_guard hrun
    rw [Check.runFrom_bind_of_ok (Check.runFrom_modifyScopes _ _)] at hrun
    obtain ⟨-, -, hopen'⟩ := Scopes.define_of_open hopen (.var q.name t)
    exact .cons hopen (Option.not_isSome_iff_eq_none.1 hfree) (ih hopen' hrest hrun)

/-- A declaration that passes is one of a name that was free. -/
lemma Reached.free_of_varDecl (h : w.Reached g p c a) {d : VarDecl}
    (hrun : (Check.varDecl d).runFrom a = (.ok (), b)) :
    w.scopes.resolveHere d.name = none ∧
      ∃ t, (w.declare d).scopes = w.scopes.define (.var d.name t) := by
  obtain ⟨t, _, htype, hrun⟩ := Check.runFrom_bind_eq_ok.1 hrun
  rw [Check.runFrom_inScopes, h.scopes] at htype
  obtain ⟨hresolve, rfl⟩ := Prod.mk.inj htype
  rw [Check.runFrom_get_bind] at hrun
  obtain ⟨hfree, -⟩ := Check.runFrom_of_guard hrun
  rw [h.scopes] at hfree
  exact ⟨Option.not_isSome_iff_eq_none.1 hfree, t,
    Scopes.bindTyped_of_reads (Scopes.reads_of_resolveType _ hresolve)⟩

/-- **Statements that pass declare different names.** -/
theorem Reached.fresh_stmts {ss : List Stmt} (h : w.Reached g p c a)
    (hrun : (Check.stmts ss).runFrom a = (.ok (), b)) :
    w.scopes.Fresh (ss.filterMap Stmt.declares?) := by
  induction ss generalizing w a with
  | nil => exact ⟨.nil, List.forall_mem_nil _⟩
  | cons s ss ih =>
    obtain ⟨_, _, hfirst, hrest⟩ := Check.runFrom_bind_eq_ok.1 hrun
    have hs := Check.agrees_scoped.stmt_of_or (Check.agrees_scoped.varDecl_or_stmt s)
    have hfirst := Check.runFrom_of_attempt hs h.failFast hfirst
    have hfresh := ih (h.after hfirst) hrest
    cases s with
    | varDecl d =>
      obtain ⟨hfree, t, hscopes⟩ := h.free_of_varDecl hfirst
      rw [Site.after, hscopes] at hfresh
      exact .cons h.openLocals hfree hfresh
    | _ => exact hfresh

end Target.Site

open Target

namespace Program

/-- The global scope declares the fields of all classes. -/
lemma declared_globalCode (p : Program) (s : Scopes) :
    declared (p.globalCode s) = p.fields.map FieldDecl.name := by
  rw [fields, ← map_sited p s ClassDecl.fields, globalCode]
  induction p.sited s ClassDecl.fields with
  | nil => rfl
  | cons f fs ih =>
    rw [List.flatMap_cons, declared_append, Site.declared_declCode, ih]
    rfl

section Accepted

variable {a : Analyzer} {p : Program}

/-- The variables that the expressions of an accepted program are written with are at hand. -/
lemma knowing_of_mem_occurrences (haccepted : (a.analyze p).1 = []) {o : Occurrence}
    (ho : o ∈ p.occurrences (a.analyze p).2.scopes) : Site.Knowing p o := by
  obtain ⟨g, c, hdescribes, hc, hsound⟩ := sound_of_mem_occurrences haccepted ho
  exact Site.knows_of_mem_mentions hdescribes hc hsound.follows o.2

/-- Outside of methods, all names at hand are those of fields. -/
lemma covered_ofClass (p : Program) (s : Scopes) (c : String) :
    (Site.ofClass s p c).Covered p (p.fields.map FieldDecl.name) [] where
  locals hname := by cases hname
  hidden := List.forall_mem_nil _
  fields _ hname := hname

/-- The variables of a member of an accepted program are at hand. -/
lemma knowing_inMember (haccepted : (a.analyze p).1 = []) {c : ClassDecl} (hc : c ∈ p.classes)
    {m : Member} (hm : m ∈ c.members) :
    ∀ o ∈ (Site.ofClass (a.analyze p).2.scopes p c.name).inMember m, Site.Knowing p o :=
  fun _ ho => knowing_of_mem_occurrences haccepted
    (List.mem_flatMap.2 ⟨c, hc, List.mem_flatMap.2 ⟨m, hm, ho⟩⟩)

/-- The global variables of an accepted program mention global variables only. -/
lemma closed_globalCode (haccepted : (a.analyze p).1 = []) :
    Closed (p.fields.map FieldDecl.name) [] (p.globalCode (a.analyze p).2.scopes) := by
  refine closed_flatMap fun f hf more => ?_
  obtain ⟨c, hc, hd, hsite⟩ := exists_of_mem_sited hf
  have hknowing := knowing_inMember haccepted hc (ClassDecl.mem_fields.1 hd)
  rw [hsite]
  exact ((covered_ofClass p _ c.name).weaken more).field hknowing

/-- A function of an accepted program mentions what it or the global scope declares, and parameters
of the entry point. -/
lemma closed_functionCode (haccepted : (a.analyze p).1 = []) {c : ClassDecl} (hc : c ∈ p.classes)
    {d : MethodDecl} (hd : d ∈ c.methods) :
    Closed (p.fields.map FieldDecl.name)
      (if d.name = entryPoint then d.params.map Parameter.name else [])
      ((Site.ofClass (a.analyze p).2.scopes p c.name).functionCode d) :=
  (covered_ofClass p _ c.name).function
    (knowing_inMember haccepted hc (ClassDecl.mem_methods.1 hd))

/-- The parameters of a method of an accepted program have different names, and so have the
variables at the top level of its body. -/
lemma nodup_method (haccepted : (a.analyze p).1 = []) {c : ClassDecl} (hc : c ∈ p.classes)
    {d : MethodDecl} (hd : d ∈ c.methods) :
    (d.params.map Parameter.name).Nodup ∧ (d.body.stmts.filterMap Stmt.declares?).Nodup := by
  obtain ⟨g, -, -, hbodies⟩ := Analyzer.exists_describes haccepted
  obtain ⟨plan, hplan, hpasses⟩ := hbodies c hc _ (ClassDecl.mem_methods.1 hd)
  obtain ⟨_, _, _, _, _, hopen, hparams, hbind, hreached, hss⟩ :=
    Site.exists_reached_enter (p := p) hplan hpasses
  exact ⟨(Site.fresh_of_bindParameters hopen hparams hbind).1, (hreached.fresh_stmts hss).1⟩

/-- The fields of one class of an accepted program have different names. -/
lemma nodup_fields (haccepted : (a.analyze p).1 = []) {c : ClassDecl} (hc : c ∈ p.classes) :
    (c.fields.map FieldDecl.name).Nodup := by
  have hmembers := Analyzer.nodup_members haccepted hc
  rw [List.Nodup, List.pairwise_map] at hmembers ⊢
  rw [ClassDecl.fields, List.pairwise_filterMap]
  refine hmembers.imp fun {m m'} hne d hd d' hd' => ?_
  cases m with
  | method => cases hd
  | field =>
    cases m' with
    | method => cases hd'
    | field =>
      cases hd
      cases hd'
      exact hne

end Accepted

end Program

/-- **The scopes of generated code.** Take a program that is accepted and for which a source file is
generated, whatever the layout. The text of the file has the names and scopes of the code of the
program. All variables that are mentioned in the initial value of a global variable are global ones.
A variable that is mentioned in a function is a parameter of the function, a variable that is
declared before in the same scope or around it, or a global one, but for the parameters of the entry
point. The global scope declares a name twice exactly if two classes have fields of one name. The
scope of a function, which holds its parameters and the top level of its body, declares a name twice
exactly if the body declares a variable with the name of a parameter.

**Proof sketch.** A name that the check takes for a variable is local or a field. A local name is
known to the generator unless it is hidden, and the names that are hidden are those of a variable in
its own initial value and those of the parameters of the entry point (`Site.Covered.stmt`). The
check refuses members of a class, parameters of a method, and variables of a block that have one
name. -/
theorem Program.generated_scopes (a : Analyzer) (p : Program) (layout : Layout) (text : String)
    (s : Scopes) (haccepted : (a.analyze p).1 = []) (hscopes : (a.analyze p).2.scopes = s)
    (hgenerated : p.generate layout = .ok text) :
    Spells text (p.code s) ∧
      undeclared (declared (p.globalCode s)) (p.globalCode s) = [] ∧
      ((declared (p.globalCode s)).Nodup ↔ p.classes.Pairwise fun c c' =>
        ∀ d ∈ c.fields, ∀ d' ∈ c'.fields, d.name ≠ d'.name) ∧
      ∀ d code, (d, code) ∈ p.functionCodes s →
        (∀ name ∈ undeclared (declared (p.globalCode s)) code,
          d.name = entryPoint ∧ name ∈ d.params.map Parameter.name) ∧
        ((declared code).Nodup ↔
          ∀ name ∈ functionParams d, name ∉ d.body.stmts.filterMap Stmt.declares?) := by
  subst hscopes
  rw [declared_globalCode]
  refine ⟨spells_code hgenerated _, ?_, ?_, fun d code hcode => ?_⟩
  · exact List.eq_nil_iff_forall_not_mem.2 fun name hname =>
      List.not_mem_nil (closed_globalCode haccepted name hname)
  · rw [fields, List.map_flatMap, List.Nodup, List.pairwise_flatMap]
    refine (and_iff_right fun c hc => nodup_fields haccepted hc).trans (iff_of_eq ?_)
    simp only [List.forall_mem_map]
  · obtain ⟨f, hf, heq⟩ := List.mem_map.1 hcode
    obtain ⟨c, hc, hd, hsite⟩ := exists_of_mem_sited hf
    obtain ⟨rfl, rfl⟩ := Prod.mk.inj heq
    rw [hsite, Site.declared_functionCode]
    refine ⟨fun name hname => ?_, ?_⟩
    · have hmissing := closed_functionCode haccepted hc hd name hname
      split at hmissing
      next hmain => exact ⟨hmain, hmissing⟩
      next => cases hmissing
    · obtain ⟨hparams, hlocals⟩ := nodup_method haccepted hc hd
      have hnodup : (functionParams f.2).Nodup := by
        unfold functionParams
        split
        · decide
        · exact hparams
      rw [List.nodup_append]
      refine ⟨fun h name hparam hlocal => h.2.2 name hparam name hlocal rfl, fun h => ?_⟩
      exact ⟨hnodup, hlocals, fun name hparam _ hlocal heq => h name hparam (heq ▸ hlocal)⟩

/-- A loop, and a block with a variable that has the name of a field. -/
def shadowingMethod : MethodDecl where
  name := "f"
  returnType := .simple "int"
  params := [⟨"x", .simple "int", 1⟩]
  body := .mk 1
    [.forLoop 1 (some (.decl ⟨"i", .simple "int", some (.var 1 "n"), 1⟩))
      (some (.binary 1 (.order .lt) (.var 1 "i") (.var 1 "x")))
      (some (.unary 1 .postInc (.var 1 "i")))
      (.mk 1 [.varDecl ⟨"y", .simple "int", some (.var 1 "i"), 1⟩]),
    .block (.mk 1
      [.varDecl ⟨"n", .simple "int", some (.var 1 "x"), 1⟩, .ret 1 (some (.var 1 "n"))])]
  isStatic := true
  line := 1

/-- A class with this method and the field. -/
def shadowing : Program :=
  ⟨[⟨"A", [.field ⟨"n", .simple "int", none, true, 1⟩, .method shadowingMethod], 1⟩], 1⟩

/-- The scopes of the function are in order. -/
theorem Program.generated_scopes_shadowing :
    (({} : Analyzer).analyze shadowing).1 = [] ∧ ∃ s text,
      (({} : Analyzer).analyze shadowing).2.scopes = s ∧ shadowing.generate {} = .ok text ∧
      Spells text (shadowing.code s) ∧ (declared (shadowing.globalCode s)).Nodup ∧
      ∃ code, (shadowingMethod, code) ∈ shadowing.functionCodes s ∧
        undeclared (declared (shadowing.globalCode s)) code = [] ∧ (declared code).Nodup := by
  have haccepted : (({} : Analyzer).analyze shadowing).1 = [] := by decide +kernel
  have hok : (shadowing.generate {}).toOption.isSome = true := by decide +kernel
  obtain ⟨text, hgenerated⟩ := Option.isSome_iff_exists.1 hok
  have hgenerated := eq_ok_of_toOption hgenerated
  obtain ⟨hspells, -, hglobals, hfunctions⟩ :=
    generated_scopes {} shadowing {} text _ haccepted rfl hgenerated
  obtain ⟨hmentions, hdeclared⟩ := hfunctions shadowingMethod _ (List.mem_singleton.2 rfl)
  refine ⟨haccepted, _, text, rfl, hgenerated, hspells, hglobals.2 (List.pairwise_singleton _ _), _,
    List.mem_singleton.2 rfl, ?_, hdeclared.2 (by decide)⟩
  exact List.eq_nil_iff_forall_not_mem.2 fun name hname =>
    absurd (hmentions name hname).1 (by decide)

/-- A field in each of two classes, a variable with the name of a parameter, and a parameter of the
entry point. -/
def clashingSource : String :=
  "public class A \x7b static int n; static int f(int x) \x7b int x = n; return x; \x7d " ++
    "static void main(String[] args) \x7b n = args.length; \x7d \x7d " ++
    "class B \x7b static int n; \x7d"

/-- **Scopes of generated code that are not in order.** The fields of both classes are declared in
the global scope, the parameter and the variable in the scope of one function, and the parameter of
the entry point is mentioned without being declared. -/
theorem Program.generated_scopes_clash :
    ∃ p text s, Program.ofText clashingSource = .ok p ∧ (({} : Analyzer).analyze p).1 = [] ∧
      (({} : Analyzer).analyze p).2.scopes = s ∧ p.generate {} = .ok text ∧
      declared (p.globalCode s) = ["n", "n"] ∧
      ((p.functionCodes s).map fun f => declared f.2) = [["x", "x"], ["argc", "argv"]] ∧
      ((p.functionCodes s).map fun f => undeclared (declared (p.globalCode s)) f.2) =
        [[], ["args"]] := by
  have hcheck : ((Program.ofText clashingSource).toOption.any fun p =>
      let s := (({} : Analyzer).analyze p).2.scopes
      (({} : Analyzer).analyze p).1.isEmpty && (p.generate {}).toOption.isSome &&
        decide (declared (p.globalCode s) = ["n", "n"] ∧
          ((p.functionCodes s).map fun f => declared f.2) = [["x", "x"], ["argc", "argv"]] ∧
          ((p.functionCodes s).map fun f => undeclared (declared (p.globalCode s)) f.2) =
            [[], ["args"]])) = true := by
    decide +kernel
  obtain ⟨p, hparsed, hcheck⟩ := (Option.any_eq_true _ _).1 hcheck
  simp only [Bool.and_eq_true, decide_eq_true_eq, Option.isSome_iff_exists,
    List.isEmpty_iff] at hcheck
  obtain ⟨⟨haccepted, text, hgenerated⟩, hnames⟩ := hcheck
  exact ⟨p, text, _, eq_ok_of_toOption hparsed, haccepted, rfl, eq_ok_of_toOption hgenerated,
    hnames⟩

end ClassLang
