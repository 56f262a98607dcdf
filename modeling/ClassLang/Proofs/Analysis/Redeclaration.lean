import ClassLang.Proofs.Analysis.ClassTable
import ClassLang.Proofs.Analysis.Frame
import ClassLang.Proofs.Analysis.Visits

set_option autoImplicit false

/-!
# Variables declared twice

A declaration is refused as a second one exactly if the same list of statements has declared the
name before. A declaration whose type stands for nothing declares nothing, and one whose initial
value is refused declares its variable all the same. Whatever else is in the list, in the blocks
around it and in the blocks inside it makes no difference.

## Main definitions

* `ClassLang.Typing.Spares` — a result that does not say that a variable is declared twice.
* `ClassLang.VarDecl.Resolves` — the type of a declaration stands for a type.
* `ClassLang.Check.before`, `ClassLang.Check.found` — the state in which a statement of a list is
  checked, and the errors that its check adds.
* `ClassLang.Check.Between` — what is known of the state between two statements of a list.

## Main results

* `ClassLang.Check.Between.run` — the names that are bound by a list of statements.
* `ClassLang.Program.redeclared_iff` — when a declaration is refused as a second one.
-/

namespace ClassLang

/-! ## Types of expressions -/

namespace Typing

/-- An error, if there is one, is not that a variable is declared twice. -/
def Spares {α : Type} (x : Typed α) : Prop :=
  ∀ e, x = .error e → ∀ name, e.cause ≠ .variableRedefined name

section Spares

variable {α β : Type} {s : Scopes}

lemma spares_ok (x : α) : Spares (.ok x : Typed α) := by
  rintro e ⟨⟩

lemma spares_fail (line : Nat) {cause : SemanticError.Cause}
    (h : ∀ name, cause ≠ .variableRedefined name) : Spares (fail line cause : Typed α) := by
  rintro e ⟨⟩
  exact h

lemma spares_ensure (condition : Bool) (line : Nat) {cause : SemanticError.Cause}
    (h : ∀ name, cause ≠ .variableRedefined name) : Spares (ensure condition line cause) := by
  unfold ensure
  split
  · exact spares_ok ()
  · exact spares_fail line h

lemma Spares.bind {x : Typed α} {f : α → Typed β} (hx : Spares x) (hf : ∀ a, Spares (f a)) :
    Spares (x >>= f) := by
  cases x with
  | error e => exact fun e' he' => hx e' (by cases he'; rfl)
  | ok a => exact hf a

/-- A check in front of the rest. -/
lemma Spares.ensure_bind {f : Unit → Typed β} (condition : Bool) (line : Nat)
    {cause : SemanticError.Cause} (h : ∀ name, cause ≠ .variableRedefined name)
    (hf : ∀ u, Spares (f u)) : Spares (ensure condition line cause >>= f) :=
  (spares_ensure condition line h).bind hf

mutual

theorem spares_resolveType (line : Nat) : (type : TypeExpr) → Spares (resolveType s line type)
  | .mk name args dimensions => by
    rw [resolveType]
    split
    · exact (spares_ok _).bind fun _ => spares_ok _
    · split
      · exact (spares_fail line (by simp)).bind fun _ => spares_ok _
      · split
        · exact (spares_resolveTypes line args).bind fun _ => (spares_ok _).bind fun _ => spares_ok _
        · exact (spares_ok _).bind fun _ => spares_ok _

theorem spares_resolveTypes (line : Nat) :
    (types : List TypeExpr) → Spares (resolveTypes s line types)
  | [] => spares_ok []
  | type :: types =>
    (spares_resolveType line type).bind fun _ => (spares_resolveTypes line types).bind fun _ =>
      spares_ok _

end

lemma spares_nameType (line : Nat) (name : String) : Spares (nameType s line name) := by
  unfold nameType
  split
  · exact spares_fail line (by simp)
  · split
    · exact spares_ok _
    · exact spares_fail line (by simp)

lemma spares_slotType (line : Nat) (name : String) : Spares (slotType s line name) := by
  unfold slotType
  split
  · exact spares_fail line (by simp)
  · split
    · exact spares_ok _
    · exact spares_fail line (by simp)

lemma spares_newObjectType (line : Nat) (type : TypeExpr) : Spares (newObjectType s line type) := by
  refine (spares_resolveType line type).bind fun created => ?_
  split
  · exact .ensure_bind _ line (by simp) fun _ => .ensure_bind _ line (by simp) fun _ => spares_ok _
  · exact spares_fail line (by simp)

lemma spares_binaryType (line : Nat) (op : BinaryOp) (isSlot : Bool) (left right : Ty) :
    Spares (binaryType line op isSlot left right) := by
  unfold binaryType
  split
  · refine .ensure_bind _ line (by simp) fun _ => ?_
    split
    · exact spares_fail line (by simp)
    · exact .ensure_bind _ line (by simp) fun _ => spares_ok _
  · split
    · exact spares_ok _
    · exact spares_fail line (by simp)

lemma spares_unaryType (line : Nat) (op : UnaryOp) (operand : Ty) :
    Spares (unaryType line op operand) := by
  have hcases : ∀ accepted : Bool, Spares
      (if accepted then .ok operand else fail line (.unaryOperandMismatch op.text operand)) := by
    intro accepted
    split
    · exact spares_ok _
    · exact spares_fail line (by simp)
  exact hcases _

lemma spares_memberType (line objectLine : Nat) (object : Ty) (name : String) :
    Spares (memberType s line objectLine object name) := by
  unfold memberType
  split
  · exact spares_fail objectLine (by simp)
  · refine .ensure_bind _ objectLine (by simp) fun _ => ?_
    split
    · exact spares_fail line (by simp)
    · split
      · exact spares_fail line (by simp)
      · exact spares_ok _

lemma spares_fieldType (line objectLine : Nat) (object : Ty) (name : String) :
    Spares (fieldType s line objectLine object name) := by
  unfold fieldType
  split
  · exact spares_ok _
  · exact spares_memberType line objectLine object name

lemma spares_methodSignature (line : Nat) (receiver : Ty) (name : String) :
    Spares (methodSignature s line receiver name) := by
  unfold methodSignature
  split
  · exact spares_fail line (by simp)
  · split
    · exact spares_ok _
    · exact spares_fail line (by simp)

lemma spares_checkPassed (method : String) (position : Nat) (params : List Ty)
    (args : List (Nat × Ty)) : Spares (checkPassed method position params args) := by
  fun_induction checkPassed method position params args with
  | case1 position param params line found rest ih =>
    exact .ensure_bind _ line (by simp) fun _ => ih
  | case2 => exact spares_ok ()

lemma spares_callType (line : Nat) (name : String) (args : List (Nat × Ty)) :
    Spares (callType s line name args) := by
  unfold callType
  split
  · exact spares_fail line (by simp)
  · exact .ensure_bind _ line (by simp) fun _ =>
      (spares_checkPassed name 1 _ args).bind fun _ => spares_ok _
  · exact spares_fail line (by simp)

mutual

/-- No expression declares a variable. -/
theorem spares_typeOf : (e : Expr) → Spares (typeOf s e)
  | .literal _ _ => spares_ok _
  | .var line name => spares_nameType line name
  | .binary line op left right => by
    rw [typeOf]
    exact (spares_typeOf left).bind fun _ => (spares_typeOf right).bind fun _ =>
      spares_binaryType line op _ _ _
  | .unary line op operand => by
    rw [typeOf]
    exact (spares_typeOf operand).bind fun _ => spares_unaryType line op _
  | .call line name args => by
    rw [typeOf]
    exact (spares_typesOf args).bind fun _ => spares_callType line name _
  | .methodCall line receiver name args => by
    rw [typeOf]
    refine (spares_typeOf receiver).bind fun r => ?_
    split
    · exact .ensure_bind _ line (by simp) fun _ => (spares_typesOf args).bind fun _ => spares_ok _
    · exact (spares_methodSignature line r name).bind fun _ => .ensure_bind _ line (by simp) fun _ =>
        (spares_checkArguments _ args).bind fun _ => spares_ok _
  | .index line array place => by
    rw [typeOf]
    refine (spares_typeOf array).bind fun a => Spares.bind ?_ fun _ =>
      (spares_typeOf place).bind fun _ => .ensure_bind _ _ (by simp) fun _ => spares_ok _
    exact .ensure_bind _ line (by simp) fun _ => spares_ok _
  | .field line object name => by
    rw [typeOf]
    exact (spares_typeOf object).bind fun _ => spares_fieldType line _ _ name
  | .newObject line type _ => spares_newObjectType line type
  | .newArray line type size _ => by
    rw [typeOf]
    exact (spares_typeOf size).bind fun _ => .ensure_bind _ _ (by simp) fun _ =>
      spares_resolveType line type
  | .assign line target value => by
    rw [typeOf]
    exact (spares_targetType target).bind fun _ => (spares_typeOf value).bind fun _ =>
      .ensure_bind _ line (by simp) fun _ => spares_ok _
  | .arrayInit line [] => spares_ok _
  | .arrayInit line (first :: rest) => by
    rw [typeOf]
    exact (spares_typeOf first).bind fun t => (spares_checkAlike line t rest).bind fun _ => spares_ok _

theorem spares_targetType : (e : Expr) → Spares (targetType s e)
  | .var line name => spares_slotType line name
  | .index _ array place => by
    rw [targetType]
    exact (spares_typeOf array).bind fun _ => (spares_typeOf place).bind fun _ =>
      .ensure_bind _ _ (by simp) fun _ => .ensure_bind _ _ (by simp) fun _ => spares_ok _
  | .field line object name => by
    rw [targetType]
    exact (spares_typeOf object).bind fun _ => spares_memberType line _ _ name
  | .literal _ _ | .binary _ _ _ _ | .unary _ _ _ | .call _ _ _ | .methodCall _ _ _ _
  | .newObject _ _ _ | .newArray _ _ _ _ | .assign _ _ _ | .arrayInit _ _ =>
    spares_fail _ (by simp)

theorem spares_typesOf : (es : List Expr) → Spares (typesOf s es)
  | [] => spares_ok []
  | e :: es => by
    rw [typesOf]
    exact (spares_typeOf e).bind fun _ => (spares_typesOf es).bind fun _ => spares_ok _

theorem spares_checkArguments (params : List Ty) :
    (es : List Expr) → Spares (checkArguments s params es)
  | [] => spares_ok ()
  | e :: es => by
    cases params with
    | nil => exact spares_ok ()
    | cons expected params =>
      rw [checkArguments]
      exact (spares_typeOf e).bind fun _ => .ensure_bind _ _ (by simp) fun _ =>
        spares_checkArguments params es

theorem spares_checkAlike (line : Nat) (expected : Ty) :
    (es : List Expr) → Spares (checkAlike s line expected es)
  | [] => spares_ok ()
  | e :: es => by
    rw [checkAlike]
    exact (spares_typeOf e).bind fun _ => .ensure_bind _ line (by simp) fun _ =>
      spares_checkAlike line expected es

end

lemma spares_typeExpecting (e : Expr) (expected : Ty) : Spares (typeExpecting s e expected) :=
  (spares_typeOf e).bind fun _ => spares_ok _

lemma spares_checkElements (expected : Ty) (es : List Expr) :
    Spares (checkElements s expected es) := by
  induction es with
  | nil => exact spares_ok ()
  | cons e es ih =>
    exact (spares_typeExpecting e expected).bind fun _ => .ensure_bind _ _ (by simp) fun _ => ih

/-- **No initial value declares a variable.** -/
lemma spares_checkInitializer (declared : Ty) (slot : Slot) (init : Expr) :
    Spares (checkInitializer s declared slot init) := by
  unfold checkInitializer
  split
  · exact spares_checkElements _ _
  · exact (spares_typeExpecting init declared).bind fun _ => spares_ensure _ _ (by simp)

end Spares

end Typing

/-! ## Declarations -/

/-- The type of a declaration stands for a type. -/
def VarDecl.Resolves (s : Scopes) (d : VarDecl) : Prop :=
  ∃ type, Typing.resolveType s d.line d.type = .ok type

lemma VarDecl.resolves_congr {s t : Scopes} (h : s.global = t.global) (d : VarDecl) :
    d.Resolves s ↔ d.Resolves t := by
  rw [Resolves, Resolves, Typing.resolveType_of_sameClasses (Scopes.sameClasses_of_global h)]

namespace Check

/-- How the check of a declaration ends. -/
inductive DeclEnds (d : VarDecl) (a : Analyzer) : Except SemanticError Unit × Analyzer → Prop
  | unresolved {e : SemanticError} (htype : ¬ d.Resolves a.scopes)
      (he : ∀ name, e.cause ≠ .variableRedefined name) : DeclEnds d a (.error e, a)
  | redeclared (htype : d.Resolves a.scopes) (hbound : (a.scopes.resolveHere d.name).isSome = true) :
      DeclEnds d a (.error ⟨.variableRedefined d.name, d.line⟩, a)
  | declared (hnew : (a.scopes.resolveHere d.name).isSome = false) {r : Except SemanticError Unit}
      (hr : Typing.Spares r) (scopes : Scopes) : DeclEnds d a (r, { a with scopes })

/-- The type comes first, then the name, and then the initial value. -/
lemma declEnds_varDecl (d : VarDecl) (a : Analyzer) : DeclEnds d a ((varDecl d).runFrom a) := by
  unfold varDecl
  rw [runFrom_bind, runFrom_inScopes]
  cases htype : Typing.resolveType a.scopes d.line d.type with
  | error e =>
    refine .unresolved ?_ (Typing.spares_resolveType d.line d.type e htype)
    rintro ⟨type, hok⟩
    rw [htype] at hok
    cases hok
  | ok type =>
    simp only [runFrom_get_bind]
    cases hbound : (a.scopes.resolveHere d.name).isSome with
    | true => exact .redeclared ⟨type, htype⟩ hbound
    | false =>
      simp only [Bool.false_eq_true, if_false]
      rw [runFrom_bind_of_ok (runFrom_modifyScopes _ _)]
      cases d.init with
      | none => exact .declared hbound (Typing.spares_ok ()) _
      | some init =>
        rw [runFrom_inScopes]
        exact .declared hbound (Typing.spares_checkInitializer type .var init) _

/-- The errors that the check of a statement, with the recovery from its error, adds. -/
def found (s : Stmt) (a : Analyzer) : List SemanticError :=
  ((attempt (stmt s)).runFrom a).2.errors.drop a.errors.length

lemma errors_append_found (s : Stmt) {a : Analyzer} (ha : a.failFast = false) :
    a.errors ++ found s a = ((attempt (stmt s)).runFrom a).2.errors := by
  obtain ⟨-, more, hmore⟩ := (agrees_compositional.attempt (agrees_stmt s)).collects a ha
  rw [found, ← hmore, List.drop_left]

/-- An error that is recovered from is added to those before. -/
lemma found_of_error {s : Stmt} {a b : Analyzer} {e : SemanticError} (ha : a.failFast = false)
    (hrun : (stmt s).runFrom a = (.error e, b)) (hb : b.errors = a.errors) : found s a = [e] := by
  have hmode := ((agrees_stmt s).collects a ha).1
  rw [hrun] at hmode
  obtain ⟨u, c, hrecover, -, herrors⟩ :=
    (records_recover (a.context.mark a.scopes.depth) e).full b hmode
  have hattempt : (attempt (stmt s)).runFrom a =
      (tryCatch (stmt s) (recover (a.context.mark a.scopes.depth))).runFrom a := rfl
  rw [found, hattempt, runFrom_tryCatch, hrun]
  simp only [hrecover, herrors, hb, List.drop_left]

lemma found_of_ok {s : Stmt} {a b : Analyzer} (hrun : (stmt s).runFrom a = (.ok (), b))
    (hb : b.errors = a.errors) : found s a = [] := by
  have hattempt : (attempt (stmt s)).runFrom a =
      (tryCatch (stmt s) (recover (a.context.mark a.scopes.depth))).runFrom a := rfl
  rw [found, hattempt, runFrom_tryCatch, hrun]
  simp only [hb, List.drop_length]

/-- **A declaration is refused as a second one** exactly if its type stands for a type and its name
is bound in the innermost scope. -/
lemma found_varDecl (d : VarDecl) {a : Analyzer} (ha : a.failFast = false) :
    (found (.varDecl d) a = [⟨.variableRedefined d.name, d.line⟩] ↔
      d.Resolves a.scopes ∧ (a.scopes.resolveHere d.name).isSome = true) ∧
    ∀ e ∈ found (.varDecl d) a, ∀ name, e.cause = .variableRedefined name →
      found (.varDecl d) a = [⟨.variableRedefined d.name, d.line⟩] := by
  have hends := declEnds_varDecl d a
  rcases hrun : (varDecl d).runFrom a with ⟨r, b⟩
  rw [hrun] at hends
  -- The two cases without a second declaration.
  have hspared : (∀ e ∈ found (.varDecl d) a, ∀ name, e.cause ≠ .variableRedefined name) →
      ¬ (d.Resolves a.scopes ∧ (a.scopes.resolveHere d.name).isSome = true) →
      (found (.varDecl d) a = [⟨.variableRedefined d.name, d.line⟩] ↔
        d.Resolves a.scopes ∧ (a.scopes.resolveHere d.name).isSome = true) ∧
      ∀ e ∈ found (.varDecl d) a, ∀ name, e.cause = .variableRedefined name →
        found (.varDecl d) a = [⟨.variableRedefined d.name, d.line⟩] := by
    refine fun herrors hnot => ⟨iff_of_false (fun heq => ?_) hnot, fun e he name hcause => ?_⟩
    · exact herrors _ (heq ▸ List.mem_singleton_self _) d.name rfl
    · exact absurd hcause (herrors e he name)
  cases hends with
  | @unresolved e htype he =>
    refine hspared ?_ fun h => htype h.1
    simpa [found_of_error (s := .varDecl d) ha hrun rfl] using he
  | redeclared htype hbound =>
    have hfound := found_of_error (s := .varDecl d) ha hrun rfl
    exact ⟨iff_of_true hfound ⟨htype, hbound⟩, fun _ _ _ _ => hfound⟩
  | declared hnew hr scopes =>
    refine hspared ?_ (by simp [hnew])
    cases r with
    | ok u => simp [found_of_ok (s := .varDecl d) hrun rfl]
    | error e => simpa [found_of_error (s := .varDecl d) ha hrun rfl] using hr e rfl

/-! ## Lists of statements -/

/-- The list declares the name with a type that stands for one. -/
def DeclaresName (s : Scopes) (ss : List Stmt) (name : String) : Prop :=
  ∃ d, Stmt.varDecl d ∈ ss ∧ d.name = name ∧ d.Resolves s

/-- A state in the middle of the list of statements of a block. The scopes outside the block are
`s`, and the names of the innermost scope are those that the statements `ss` have declared. -/
structure Between (s : Scopes) (ss : List Stmt) (a : Analyzer) : Prop where
  collects : a.failFast = false
  global : a.scopes.global = s.global
  locals : ∃ table, a.scopes.locals = table :: s.locals ∧
    ∀ name, (table.get? name).isSome = true ↔ DeclaresName s ss name

/-- What a statement binds in the innermost scope. -/
lemma isSome_get?_append_binding? {s : Scopes} {table : Table} {outer : List Table}
    (hopen : s.locals = table :: outer) (first : Stmt) (name : String) :
    ((table ++ (first.binding? s).toList : Table).get? name).isSome = true ↔
      (table.get? name).isSome = true ∨ DeclaresName s [first] name := by
  have happend : ∀ more : List Symbol, ((table ++ more : Table).get? name).isSome = true ↔
      (table.get? name).isSome = true ∨ ∃ symbol ∈ more, symbol.name = name := by
    intro more
    simp only [Table.get?, List.find?_append, Option.isSome_or, Bool.or_eq_true]
    simp
  rw [happend]
  by_cases hdecl : ∃ d, first = .varDecl d
  · obtain ⟨d, rfl⟩ := hdecl
    have hhere : s.resolveHere d.name = table.get? d.name := by
      simp only [Scopes.resolveHere, Scopes.currentTable, hopen]
    have hdeclares : DeclaresName s [.varDecl d] name ↔ d.name = name ∧ d.Resolves s := by
      simp only [DeclaresName, List.mem_singleton, Stmt.varDecl.injEq, exists_eq_left]
    rw [hdeclares]
    cases htype : Typing.resolveType s d.line d.type with
    | error e =>
      have hnone : ¬ d.Resolves s := by simp [VarDecl.Resolves, htype]
      simp [Stmt.binding?, htype, hnone]
    | ok type =>
      have hsome : d.Resolves s := ⟨type, htype⟩
      cases hbound : (table.get? d.name).isSome with
      | true =>
        have hbinding : Stmt.binding? s (.varDecl d) = none := by
          simp [Stmt.binding?, htype, hhere, hbound]
        simp only [hbinding, Option.toList_none, List.not_mem_nil, false_and, exists_false,
          or_false, hsome, and_true]
        refine ⟨.inl, ?_⟩
        rintro (hname | rfl)
        · exact hname
        · exact hbound
      | false =>
        have hbinding : Stmt.binding? s (.varDecl d) = some (.var d.name type) := by
          simp [Stmt.binding?, htype, hhere, hbound]
        simp [hbinding, hsome, Symbol.name]
  · have hnone : first.binding? s = none := by
      cases first with
      | varDecl d => exact absurd ⟨d, rfl⟩ hdecl
      | _ => rfl
    have hnot : ¬ DeclaresName s [first] name := by
      rintro ⟨d, hmem, -⟩
      exact hdecl ⟨d, (List.mem_singleton.1 hmem).symm⟩
    simp [hnone, hnot]

/-- A statement with the recovery from its error passes, and goes on to a state in the middle of the
list. -/
lemma Between.step {s : Scopes} {ss : List Stmt} {a : Analyzer} (h : Between s ss a)
    (next : Stmt) :
    ∃ b, (attempt (stmt next)).runFrom a = (.ok (), b) ∧ Between s (ss ++ [next]) b := by
  obtain ⟨table, hopen, hnames⟩ := h.locals
  have hdepth :
      (a.withLocals ((table ++ (next.binding? a.scopes).toList) :: s.locals)).scopes.depth =
        a.scopes.depth := by
    simp only [Scopes.depth, Analyzer.withLocals_scopes_locals, hopen, List.length_cons]
  rcases (endsAbove_stmt hopen next).attempt hdepth rfl with ⟨b, hrun, hkept⟩ | ⟨hfast, -⟩
  · refine ⟨b, hrun, hkept.failFast.trans h.collects, ?_, _, by rw [hkept.scopes]; rfl, ?_⟩
    · rw [hkept.scopes]
      exact h.global
    · intro name
      have hsame : DeclaresName a.scopes [next] name ↔ DeclaresName s [next] name := by
        simp only [DeclaresName, VarDecl.resolves_congr h.global]
      rw [isSome_get?_append_binding? hopen, hnames, hsame]
      simp only [DeclaresName, List.mem_append, or_and_right, exists_or]
  · cases h.collects.symm.trans hfast

/-- **The names that are bound between two statements** are those that the statements before have
declared: the check of a list goes from one state in the middle of the list to another. -/
lemma Between.run {s : Scopes} {ss : List Stmt} {a : Analyzer} (h : Between s ss a)
    (more : List Stmt) :
    ∃ b, (stmts more).runFrom a = (.ok (), b) ∧ Between s (ss ++ more) b := by
  induction more generalizing ss a with
  | nil => exact ⟨a, rfl, by rwa [List.append_nil]⟩
  | cons next more ih =>
    obtain ⟨b, hnext, hb⟩ := h.step next
    obtain ⟨b', hmore, hb'⟩ := ih hb
    refine ⟨b', ?_, by rwa [List.append_assoc] at hb'⟩
    rw [stmts, runFrom_bind_of_ok hnext]
    exact hmore

/-- The state in which the list of a block starts. -/
lemma between_push {a : Analyzer} (ha : a.failFast = false) :
    Between a.scopes [] { a with scopes := a.scopes.push } where
  collects := ha
  global := rfl
  locals := ⟨[], rfl, fun name => by simp [Table.get?, DeclaresName]⟩

lemma stmts_append (ss more : List Stmt) :
    stmts (ss ++ more) = (do stmts ss; stmts more) := by
  induction ss with
  | nil => rw [List.nil_append, stmts, pure_bind]
  | cons s ss ih => rw [List.cons_append, stmts, stmts, ih, bind_assoc]

/-- The state in which the statement at a place of a list is checked. -/
def before (ss : List Stmt) (j : Nat) (a : Analyzer) : Analyzer :=
  ((stmts (ss.take j)).runFrom a).2

/-- What a list declares up to a place. -/
lemma declaresName_take {s : Scopes} {ss : List Stmt} {j : Nat} {name : String} :
    DeclaresName s (ss.take j) name ↔
      ∃ i < j, ∃ d, ss[i]? = some (.varDecl d) ∧ d.name = name ∧ d.Resolves s := by
  simp only [DeclaresName, List.mem_take_iff_getElem, Nat.lt_min, List.getElem?_eq_some_iff]
  constructor
  · rintro ⟨d, ⟨i, hi, hget⟩, hd⟩
    exact ⟨i, hi.1, d, ⟨hi.2, hget⟩, hd⟩
  · rintro ⟨i, hi, d, ⟨hlt, hget⟩, hd⟩
    exact ⟨d, ⟨i, ⟨hi, hlt⟩, hget⟩, hd⟩

end Check

/-- **When a declaration is refused as a second one.** In a block that the check of a program comes
to, the errors up to a declaration and those that its check adds are in the report of the program.
The check says that the variable is declared twice exactly if the type of the declaration stands
for a type and a declaration before it in the block, with a type that stands for one, has the same
name. It then says nothing else, and it says so of no other name. -/
theorem Program.redeclared_iff {p : Program} {line : Nat} {ss : List Stmt} {a : Analyzer}
    (h : p.Visits (.mk line ss) a) {j : Nat} {d : VarDecl} (hj : ss[j]? = some (.varDecl d)) :
    let c := Check.before ss j { a with scopes := a.scopes.push }
    c.errors ++ Check.found (.varDecl d) c <+: p.errors false ∧
    (Check.found (.varDecl d) c = [⟨.variableRedefined d.name, d.line⟩] ↔
      d.Resolves a.scopes ∧ ∃ i < j, ∃ d', ss[i]? = some (.varDecl d') ∧ d'.name = d.name ∧
        d'.Resolves a.scopes) ∧
    ∀ e ∈ Check.found (.varDecl d) c, ∀ name, e.cause = .variableRedefined name →
      Check.found (.varDecl d) c = [⟨.variableRedefined d.name, d.line⟩] := by
  intro c
  obtain ⟨ha, hwithin⟩ := h.within
  obtain ⟨_, hrun, hbetween⟩ := (Check.between_push ha).run (ss.take j)
  obtain rfl : c = _ := congrArg Prod.snd hrun
  obtain ⟨table, hopen, hnames⟩ := hbetween.locals
  have hresolves : d.Resolves c.scopes ↔ d.Resolves a.scopes :=
    VarDecl.resolves_congr hbetween.global d
  have hbound : (c.scopes.resolveHere d.name).isSome = true ↔ ∃ i < j, ∃ d',
      ss[i]? = some (.varDecl d') ∧ d'.name = d.name ∧ d'.Resolves a.scopes := by
    have hhere : c.scopes.resolveHere d.name = table.get? d.name := by
      simp only [Scopes.resolveHere, Scopes.currentTable, hopen]
    rw [hhere, hnames, List.nil_append, Check.declaresName_take]
  refine ⟨?_, ?_⟩
  · obtain ⟨hlt, hget⟩ := List.getElem?_eq_some_iff.1 hj
    have hsplit : ss = ss.take j ++ .varDecl d :: ss.drop (j + 1) := by
      rw [← hget, List.getElem_cons_drop, List.take_append_drop]
    have hagrees := Check.agrees_compositional.attempt (Check.agrees_stmt (.varDecl d))
    have hhere := (Check.Within.refl _ hbetween.collects).bind_left hagrees
      (fun _ => Check.agrees_scoped.stmts (ss.drop (j + 1))) hbetween.collects
    have hlist := Check.Within.bind_right (f := fun _ => Check.stmts (.varDecl d :: ss.drop (j + 1)))
      hrun hhere
    rw [Check.errors_append_found _ hbetween.collects]
    refine (hlist.errors.trans ?_).trans hwithin
    rw [← Check.stmts_append, ← hsplit]
    exact (Check.Part.within (x := .block (.mk line ss)) .stmts ha).errors
  · rw [← hresolves, ← hbound]
    exact Check.found_varDecl d hbetween.collects

namespace Sample

/-- `int n = m;`, where nothing is called `m`. -/
def unknownInit : VarDecl :=
  { name := "n", type := .simple "int", init := some (.var 2 "m"), line := 2 }

/-- `int n;` -/
def again : VarDecl := { name := "n", type := .simple "int", init := none, line := 3 }

/-- A class with a method that declares `n` twice. Its parameter is called `n` as well. -/
def declaresTwice : Program where
  classes :=
    [{ name := "Twice"
       members :=
        [.method
          { name := "run"
            returnType := .simple "void"
            params := [{ name := "n", type := .simple "int", line := 1 }]
            body := .mk 1 [.varDecl unknownInit, .varDecl again]
            isStatic := true
            line := 1 }]
       line := 1 }]
  line := 1

end Sample

/-- The second declaration is refused as one, although the first one has an initial value that is
refused. The first declaration is not, although the name is that of the parameter. -/
theorem Program.redeclared_iff_declaresTwice :
    ∃ a, Sample.declaresTwice.Visits (.mk 1 [.varDecl Sample.unknownInit, .varDecl Sample.again]) a ∧
      (let start := { a with scopes := a.scopes.push }
      let c := Check.before [.varDecl Sample.unknownInit, .varDecl Sample.again] 1 start
      Check.found (.varDecl Sample.again) c = [⟨.variableRedefined "n", 3⟩] ∧
      Check.found (.varDecl Sample.unknownInit) start ≠ [⟨.variableRedefined "n", 2⟩]) := by
  obtain ⟨a, hvisits⟩ : ∃ a, Sample.declaresTwice.Visits
      (.mk 1 [.varDecl Sample.unknownInit, .varDecl Sample.again]) a :=
    ⟨_, .tail (.tail (.tail (.tail .refl (.bodies rfl)) .firstClass) .firstMember)
      (.methodBody rfl)⟩
  have hint : ∀ d : VarDecl, d.type = .simple "int" → ∀ s, d.Resolves s := by
    rintro ⟨_, _, _, _⟩ ⟨⟩ s
    exact ⟨.int, rfl⟩
  refine ⟨a, hvisits, ?_, ?_⟩
  · exact (redeclared_iff hvisits (j := 1) rfl).2.1.2
      ⟨hint _ rfl _, 0, Nat.zero_lt_one, _, rfl, rfl, hint _ rfl _⟩
  · intro htwice
    obtain ⟨-, i, hi, -⟩ := (redeclared_iff hvisits (j := 0) rfl).2.1.1 htwice
    exact absurd hi i.not_lt_zero

end ClassLang
