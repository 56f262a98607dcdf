import ClassLang.Grammar.Program
import ClassLang.Proofs.Grammar.Leaves
import ClassLang.Proofs.Grammar.ProgramRendering

set_option autoImplicit false

/-!
# The leaves of parsed programs

What holds of the leaves of expressions holds of those of statements, members and classes. Declared
names are a class of their own, since their array suffixes go to the type. The labels of cases are
not only made of such leaves: each of them is one literal, with the text of one token.

## Main definitions

* `ClassLang.Stmt.Has`, `ClassLang.Member.Has`, `ClassLang.Program.Has` — all leaves of a statement,
  a member or a program have given properties.
* `ClassLang.Program.leaves` — the leaves of a program in a list.
* `ClassLang.Program.ReadFrom` — all leaves of a program have given properties, and all labels are
  literals of tokens with the property that goes with these.

## Main results

* `ClassLang.Program.readFrom_of_ofTokens` — programs are read from their tokens.
* `ClassLang.Program.has_of_ofTokens` — the leaves of a program come from its tokens.
* `ClassLang.Program.raises_of_ofTokens` — so do syntax errors.
-/

namespace ClassLang

/-- All leaves of a declaration have the properties. -/
def VarDecl.Has (L : Leaves) (d : VarDecl) : Prop :=
  L.line d.line ∧ L.declared d.name ∧ ∀ e ∈ d.init, e.Has L

/-- All leaves of the first clause of a `for` loop have the properties. -/
def ForInit.Has (L : Leaves) : ForInit → Prop
  | .decl d => d.Has L
  | .expr e => e.Has L

mutual

/-- All leaves of a statement have the properties. -/
def Stmt.Has (L : Leaves) : Stmt → Prop
  | .varDecl d => d.Has L
  | .block body => body.Has L
  | .ifThen line condition thenBranch => L.line line ∧ condition.Has L ∧ thenBranch.Has L
  | .ifElse line condition thenBranch elseBranch =>
    L.line line ∧ condition.Has L ∧ thenBranch.Has L ∧ elseBranch.Has L
  | .whileLoop line condition body => L.line line ∧ condition.Has L ∧ body.Has L
  | .doWhile line body condition => L.line line ∧ body.Has L ∧ condition.Has L
  | .forLoop line init condition update body =>
    L.line line ∧ (∀ i ∈ init, i.Has L) ∧ (∀ e ∈ condition, e.Has L) ∧ (∀ e ∈ update, e.Has L) ∧
      body.Has L
  | .switch line condition arms => L.line line ∧ condition.Has L ∧ SwitchArm.AllHave L arms
  | .ret line value => L.line line ∧ ∀ e ∈ value, e.Has L
  | .expr e => e.Has L
  | .breakOff line | .continueOn line => L.line line

/-- All leaves of several statements have the properties. -/
def Stmt.AllHave (L : Leaves) : List Stmt → Prop
  | [] => True
  | s :: ss => s.Has L ∧ Stmt.AllHave L ss

/-- All leaves of a block have the properties. -/
def Block.Has (L : Leaves) : Block → Prop
  | .mk line stmts => L.line line ∧ Stmt.AllHave L stmts

/-- All leaves of an arm of a switch have the properties. -/
def SwitchArm.Has (L : Leaves) : SwitchArm → Prop
  | .labelled line label body => L.line line ∧ label.Has L ∧ body.Has L
  | .otherwise line body => L.line line ∧ body.Has L

/-- All leaves of several arms of a switch have the properties. -/
def SwitchArm.AllHave (L : Leaves) : List SwitchArm → Prop
  | [] => True
  | arm :: arms => arm.Has L ∧ SwitchArm.AllHave L arms

end

/-- All leaves of a parameter have the properties. -/
def Parameter.Has (L : Leaves) (p : Parameter) : Prop :=
  L.line p.line ∧ L.declared p.name

/-- All leaves of a member have the properties. -/
def Member.Has (L : Leaves) : Member → Prop
  | .field f => L.line f.line ∧ L.declared f.name ∧ ∀ e ∈ f.init, e.Has L
  | .method m => L.line m.line ∧ L.declared m.name ∧ (∀ p ∈ m.params, p.Has L) ∧ m.body.Has L

/-- All leaves of a class have the properties. -/
def ClassDecl.Has (L : Leaves) (c : ClassDecl) : Prop :=
  L.line c.line ∧ L.name c.name ∧ ∀ m ∈ c.members, m.Has L

/-- All leaves of a program have the properties. -/
def Program.Has (L : Leaves) (p : Program) : Prop :=
  L.line p.line ∧ ∀ c ∈ p.classes, c.Has L

lemma Program.Has.field {L : Leaves} {p : Program} (hp : p.Has L) {d : FieldDecl}
    (hd : d ∈ p.fields) : (Member.field d).Has L := by
  obtain ⟨c, hc, hd⟩ := List.mem_flatMap.1 hd
  exact (hp.2 c hc).2.2 _ (ClassDecl.mem_fields.1 hd)

lemma Program.Has.method {L : Leaves} {p : Program} (hp : p.Has L) {d : MethodDecl}
    (hd : d ∈ p.methods) : (Member.method d).Has L := by
  obtain ⟨c, hc, hd⟩ := List.mem_flatMap.1 hd
  exact (hp.2 c hc).2.2 _ (ClassDecl.mem_methods.1 hd)

/-! ## Lists of leaves -/

/-- The leaves of a declaration. -/
def VarDecl.leaves (d : VarDecl) : List Leaf :=
  .line d.line :: .declared d.name :: d.init.toList.flatMap Expr.leaves

/-- The leaves of the first clause of a `for` loop. -/
def ForInit.leaves : ForInit → List Leaf
  | .decl d => d.leaves
  | .expr e => e.leaves

mutual

/-- The leaves of a statement. -/
def Stmt.leaves : Stmt → List Leaf
  | .varDecl d => d.leaves
  | .block body => body.leaves
  | .ifThen line condition thenBranch => .line line :: condition.leaves ++ thenBranch.leaves
  | .ifElse line condition thenBranch elseBranch =>
    .line line :: condition.leaves ++ thenBranch.leaves ++ elseBranch.leaves
  | .whileLoop line condition body => .line line :: condition.leaves ++ body.leaves
  | .doWhile line body condition => .line line :: body.leaves ++ condition.leaves
  | .forLoop line init condition update body =>
    .line line :: init.toList.flatMap ForInit.leaves ++ condition.toList.flatMap Expr.leaves ++
      update.toList.flatMap Expr.leaves ++ body.leaves
  | .switch line condition arms => .line line :: condition.leaves ++ SwitchArm.allLeaves arms
  | .ret line value => .line line :: value.toList.flatMap Expr.leaves
  | .expr e => e.leaves
  | .breakOff line | .continueOn line => [.line line]

/-- The leaves of several statements. -/
def Stmt.allLeaves : List Stmt → List Leaf
  | [] => []
  | s :: ss => s.leaves ++ Stmt.allLeaves ss

/-- The leaves of a block. -/
def Block.leaves : Block → List Leaf
  | .mk line stmts => .line line :: Stmt.allLeaves stmts

/-- The leaves of an arm of a switch. -/
def SwitchArm.leaves : SwitchArm → List Leaf
  | .labelled line label body => .line line :: label.leaves ++ body.leaves
  | .otherwise line body => .line line :: body.leaves

/-- The leaves of several arms of a switch. -/
def SwitchArm.allLeaves : List SwitchArm → List Leaf
  | [] => []
  | arm :: arms => arm.leaves ++ SwitchArm.allLeaves arms

end

/-- The leaves of a member. -/
def Member.leaves : Member → List Leaf
  | .field f => .line f.line :: .declared f.name :: f.init.toList.flatMap Expr.leaves
  | .method m => .line m.line :: .declared m.name ::
    m.params.flatMap (fun p => [.line p.line, .declared p.name]) ++ m.body.leaves

/-- The leaves of a program. -/
def Program.leaves (p : Program) : List Leaf :=
  .line p.line :: p.classes.flatMap fun c =>
    .line c.line :: .name c.name :: c.members.flatMap Member.leaves

section Iff

variable {L : Leaves}

lemma Expr.optional_has_iff (o : Option Expr) :
    (∀ e ∈ o, e.Has L) ↔ ∀ x ∈ o.toList.flatMap Expr.leaves, L.Holds x := by
  cases o with
  | none => simp
  | some e => simpa using e.has_iff

lemma VarDecl.has_iff (d : VarDecl) : d.Has L ↔ ∀ x ∈ d.leaves, L.Holds x := by
  rw [VarDecl.Has, VarDecl.leaves, List.forall_mem_cons, List.forall_mem_cons,
    Expr.optional_has_iff]
  rfl

lemma ForInit.has_iff (i : ForInit) : i.Has L ↔ ∀ x ∈ i.leaves, L.Holds x := by
  cases i with
  | decl d => exact d.has_iff
  | expr e => exact e.has_iff

lemma ForInit.optional_has_iff (o : Option ForInit) :
    (∀ i ∈ o, i.Has L) ↔ ∀ x ∈ o.toList.flatMap ForInit.leaves, L.Holds x := by
  cases o with
  | none => simp
  | some i => simpa using i.has_iff

mutual

theorem Stmt.has_iff : (s : Stmt) → (s.Has L ↔ ∀ x ∈ s.leaves, L.Holds x)
  | .varDecl d => d.has_iff
  | .block body => body.has_iff
  | .ifThen _ condition body | .whileLoop _ condition body | .doWhile _ body condition => by
    simp only [Stmt.Has, Stmt.leaves, List.cons_append, List.forall_mem_cons,
      List.forall_mem_append, condition.has_iff, body.has_iff, Leaves.Holds]
  | .ifElse _ condition thenBranch elseBranch => by
    simp only [Stmt.Has, Stmt.leaves, List.cons_append, List.forall_mem_cons,
      List.forall_mem_append, condition.has_iff, thenBranch.has_iff, elseBranch.has_iff,
      Leaves.Holds, and_assoc]
  | .forLoop _ init condition update body => by
    simp only [Stmt.Has, Stmt.leaves, List.cons_append, List.forall_mem_cons,
      List.forall_mem_append, ForInit.optional_has_iff, Expr.optional_has_iff, body.has_iff,
      Leaves.Holds, and_assoc]
  | .switch _ condition arms => by
    simp only [Stmt.Has, Stmt.leaves, List.cons_append, List.forall_mem_cons,
      List.forall_mem_append, condition.has_iff, SwitchArm.allHave_iff arms, Leaves.Holds]
  | .ret _ value => by
    simp only [Stmt.Has, Stmt.leaves, List.forall_mem_cons, Expr.optional_has_iff, Leaves.Holds]
  | .expr e => e.has_iff
  | .breakOff _ | .continueOn _ => by simp [Stmt.Has, Stmt.leaves, Leaves.Holds]

theorem Stmt.allHave_iff :
    (ss : List Stmt) → (Stmt.AllHave L ss ↔ ∀ x ∈ Stmt.allLeaves ss, L.Holds x)
  | [] => by simp [Stmt.AllHave, Stmt.allLeaves]
  | s :: ss => by
    simp only [Stmt.AllHave, Stmt.allLeaves, List.forall_mem_append, s.has_iff,
      Stmt.allHave_iff ss]

theorem Block.has_iff : (b : Block) → (b.Has L ↔ ∀ x ∈ b.leaves, L.Holds x)
  | .mk _ stmts => by
    simp only [Block.Has, Block.leaves, List.forall_mem_cons, Stmt.allHave_iff stmts, Leaves.Holds]

theorem SwitchArm.has_iff : (arm : SwitchArm) → (arm.Has L ↔ ∀ x ∈ arm.leaves, L.Holds x)
  | .labelled _ label body => by
    simp only [SwitchArm.Has, SwitchArm.leaves, List.cons_append, List.forall_mem_cons,
      List.forall_mem_append, label.has_iff, body.has_iff, Leaves.Holds]
  | .otherwise _ body => by
    simp only [SwitchArm.Has, SwitchArm.leaves, List.forall_mem_cons, body.has_iff, Leaves.Holds]

theorem SwitchArm.allHave_iff :
    (arms : List SwitchArm) → (SwitchArm.AllHave L arms ↔ ∀ x ∈ SwitchArm.allLeaves arms, L.Holds x)
  | [] => by simp [SwitchArm.AllHave, SwitchArm.allLeaves]
  | arm :: arms => by
    simp only [SwitchArm.AllHave, SwitchArm.allLeaves, List.forall_mem_append, arm.has_iff,
      SwitchArm.allHave_iff arms]

end

lemma Member.has_iff (m : Member) : m.Has L ↔ ∀ x ∈ m.leaves, L.Holds x := by
  cases m with
  | field f =>
    simp only [Member.Has, Member.leaves, List.forall_mem_cons, Expr.optional_has_iff, Leaves.Holds]
  | method d =>
    simp only [Member.Has, Member.leaves, List.cons_append, List.forall_mem_cons,
      List.forall_mem_append, List.forall_mem_flatMap, List.not_mem_nil, false_imp_iff,
      implies_true, and_true, Parameter.Has, d.body.has_iff, Leaves.Holds]

/-- **All leaves of a program have the properties if each has.** -/
lemma Program.has_iff (p : Program) : p.Has L ↔ ∀ x ∈ p.leaves, L.Holds x := by
  simp only [Program.Has, Program.leaves, ClassDecl.Has, List.forall_mem_cons,
    List.forall_mem_flatMap, Member.has_iff, Leaves.Holds]

instance [DecidablePred L.Holds] (p : Program) : Decidable (p.Has L) :=
  decidable_of_iff _ p.has_iff.symm

end Iff

/-- The conjunction of properties. -/
def Leaves.and (L M : Leaves) : Leaves where
  token t := L.token t ∧ M.token t
  name s := L.name s ∧ M.name s
  declared s := L.declared s ∧ M.declared s
  literal l := L.literal l ∧ M.literal l
  line n := L.line n ∧ M.line n

lemma Program.Has.and {L M : Leaves} {p : Program} (h : p.Has L) (k : p.Has M) :
    p.Has (L.and M) := by
  refine p.has_iff.2 fun x hx => ?_
  have hx' := And.intro (p.has_iff.1 h x hx) (p.has_iff.1 k x hx)
  cases x <;> exact hx'

/-! ## Labels of cases -/

/-- A literal that may label a case, with the text of a token with the property. -/
def Expr.LabelFrom (L : Leaves) (e : Expr) : Prop :=
  e.IsLabel ∧ ∃ t value, L.token t ∧ t.kind = value.kind ∧ e = Grammar.literalExpr t value

mutual

/-- All leaves of a statement have the properties, and all labels are literals. -/
def Stmt.ReadFrom (L : Leaves) : Stmt → Prop
  | .varDecl d => d.Has L
  | .block body => body.ReadFrom L
  | .ifThen line condition thenBranch => L.line line ∧ condition.Has L ∧ thenBranch.ReadFrom L
  | .ifElse line condition thenBranch elseBranch =>
    L.line line ∧ condition.Has L ∧ thenBranch.ReadFrom L ∧ elseBranch.ReadFrom L
  | .whileLoop line condition body => L.line line ∧ condition.Has L ∧ body.ReadFrom L
  | .doWhile line body condition => L.line line ∧ body.ReadFrom L ∧ condition.Has L
  | .forLoop line init condition update body =>
    L.line line ∧ (∀ i ∈ init, i.Has L) ∧ (∀ e ∈ condition, e.Has L) ∧ (∀ e ∈ update, e.Has L) ∧
      body.ReadFrom L
  | .switch line condition arms => L.line line ∧ condition.Has L ∧ SwitchArm.AllReadFrom L arms
  | .ret line value => L.line line ∧ ∀ e ∈ value, e.Has L
  | .expr e => e.Has L
  | .breakOff line | .continueOn line => L.line line

/-- All leaves of several statements have the properties, and all labels are literals. -/
def Stmt.AllReadFrom (L : Leaves) : List Stmt → Prop
  | [] => True
  | s :: ss => s.ReadFrom L ∧ Stmt.AllReadFrom L ss

/-- All leaves of a block have the properties, and all labels are literals. -/
def Block.ReadFrom (L : Leaves) : Block → Prop
  | .mk line stmts => L.line line ∧ Stmt.AllReadFrom L stmts

/-- All leaves of an arm of a switch have the properties, and all labels are literals. -/
def SwitchArm.ReadFrom (L : Leaves) : SwitchArm → Prop
  | .labelled line label body => L.line line ∧ label.LabelFrom L ∧ body.ReadFrom L
  | .otherwise line body => L.line line ∧ body.ReadFrom L

/-- All leaves of several arms of a switch have the properties, and all labels are literals. -/
def SwitchArm.AllReadFrom (L : Leaves) : List SwitchArm → Prop
  | [] => True
  | arm :: arms => arm.ReadFrom L ∧ SwitchArm.AllReadFrom L arms

end

/-- All leaves of a member have the properties, and all labels are literals. -/
def Member.ReadFrom (L : Leaves) : Member → Prop
  | .field f => (Member.field f).Has L
  | .method m => L.line m.line ∧ L.declared m.name ∧ (∀ p ∈ m.params, p.Has L) ∧ m.body.ReadFrom L

/-- All leaves of a class have the properties, and all labels are literals. -/
def ClassDecl.ReadFrom (L : Leaves) (c : ClassDecl) : Prop :=
  L.line c.line ∧ L.name c.name ∧ ∀ m ∈ c.members, m.ReadFrom L

/-- All leaves of a program have the properties, and all labels are literals. -/
def Program.ReadFrom (L : Leaves) (p : Program) : Prop :=
  L.line p.line ∧ ∀ c ∈ p.classes, c.ReadFrom L

section Has

variable {L : Leaves}

lemma Expr.LabelFrom.has (hL : L.Lawful) {e : Expr} (h : e.LabelFrom L) : e.Has L := by
  obtain ⟨-, t, value, ht, hkind, rfl⟩ := h
  exact ⟨hL.line ht, hL.literal ht hkind⟩

mutual

theorem Stmt.has_of_readFrom (hL : L.Lawful) : (s : Stmt) → s.ReadFrom L → s.Has L
  | .varDecl _, h | .ret _ _, h | .expr _, h | .breakOff _, h | .continueOn _, h => h
  | .block body, h => body.has_of_readFrom hL h
  | .ifThen _ _ body, h | .whileLoop _ _ body, h => ⟨h.1, h.2.1, body.has_of_readFrom hL h.2.2⟩
  | .ifElse _ _ thenBranch elseBranch, h =>
    ⟨h.1, h.2.1, thenBranch.has_of_readFrom hL h.2.2.1, elseBranch.has_of_readFrom hL h.2.2.2⟩
  | .doWhile _ body _, h => ⟨h.1, body.has_of_readFrom hL h.2.1, h.2.2⟩
  | .forLoop _ _ _ _ body, h =>
    ⟨h.1, h.2.1, h.2.2.1, h.2.2.2.1, body.has_of_readFrom hL h.2.2.2.2⟩
  | .switch _ _ arms, h => ⟨h.1, h.2.1, SwitchArm.allHave_of_allReadFrom hL arms h.2.2⟩

theorem Stmt.allHave_of_allReadFrom (hL : L.Lawful) :
    (ss : List Stmt) → Stmt.AllReadFrom L ss → Stmt.AllHave L ss
  | [], _ => trivial
  | s :: ss, h => ⟨s.has_of_readFrom hL h.1, Stmt.allHave_of_allReadFrom hL ss h.2⟩

theorem Block.has_of_readFrom (hL : L.Lawful) : (b : Block) → b.ReadFrom L → b.Has L
  | .mk _ stmts, h => ⟨h.1, Stmt.allHave_of_allReadFrom hL stmts h.2⟩

theorem SwitchArm.has_of_readFrom (hL : L.Lawful) : (arm : SwitchArm) → arm.ReadFrom L → arm.Has L
  | .labelled _ _ body, h => ⟨h.1, h.2.1.has hL, body.has_of_readFrom hL h.2.2⟩
  | .otherwise _ body, h => ⟨h.1, body.has_of_readFrom hL h.2⟩

theorem SwitchArm.allHave_of_allReadFrom (hL : L.Lawful) :
    (arms : List SwitchArm) → SwitchArm.AllReadFrom L arms → SwitchArm.AllHave L arms
  | [], _ => trivial
  | arm :: arms, h => ⟨arm.has_of_readFrom hL h.1, SwitchArm.allHave_of_allReadFrom hL arms h.2⟩

end

lemma Member.ReadFrom.has (hL : L.Lawful) {m : Member} (h : m.ReadFrom L) : m.Has L := by
  cases m with
  | field f => exact h
  | method d => exact ⟨h.1, h.2.1, h.2.2.1, d.body.has_of_readFrom hL h.2.2.2⟩

lemma Program.ReadFrom.has (hL : L.Lawful) {p : Program} (h : p.ReadFrom L) : p.Has L :=
  ⟨h.1, fun c hc => ⟨(h.2 c hc).1, (h.2 c hc).2.1, fun m hm => ((h.2 c hc).2.2 m hm).has hL⟩⟩

end Has

lemma Stmt.ReadFrom.line {L : Leaves} {s : Stmt} (h : s.ReadFrom L) : L.line s.line := by
  cases s with
  | block body => cases body with | mk line stmts => exact h.1
  | expr e => exact Expr.Has.line h
  | breakOff line | continueOn line => exact h
  | _ => exact h.1

namespace Grammar

open ClassLang.Parser

variable {L : Leaves}

/-! ## Declarations -/

lemma yields_atDeclaration : Yields L atDeclaration fun _ => True :=
  yields_peek_bind (yields_pure trivial) fun _ _ => .ite (fun _ => yields_pure trivial) fun _ =>
    .ite (fun _ => (yields_hasOperatorAt 1 _).andThen fun _ => yields_pure trivial) fun _ =>
      .ite (fun _ => yields_hasKindAt 1 _) fun _ => yields_pure trivial

section Lawful

variable (hL : L.Lawful)
include hL

lemma yields_optionalInit (budget : Nat) :
    Yields L (optionalInit budget) fun init => ∀ e ∈ init, e.Has L :=
  (yields_acceptOperator _).andThen fun _ => .ite
    (fun _ => (yields_initializerOf hL (yields_exprWithin hL budget) budget).bind fun _ he =>
      yields_pure fun _ h => Option.mem_some.1 h ▸ he)
    fun _ => yields_pure fun _ h => nomatch h

lemma yields_declarator (budget : Nat) :
    Yields L (declarator budget) fun d => L.declared d.1 ∧ L.line d.2.2 :=
  (yields_typeExprWithin hL budget).andThen fun _ => yields_expectIdentifier.bind fun _ ht =>
    yields_pure ⟨hL.declared ht.1 ht.2, hL.line ht.1⟩

lemma yields_varDeclWithin (budget : Nat) : Yields L (varDeclWithin budget) (VarDecl.Has L) :=
  (yields_acceptKeyword _).andThen fun _ => (yields_declarator hL budget).bind fun _ hd =>
    (yields_optionalInit hL budget).bind fun _ hinit => yields_pure ⟨hd.2, hd.1, hinit⟩

/-! ## Parts of statements -/

lemma yields_condition (budget : Nat) :
    Yields L (condition budget) fun x => x.1.Has L ∧ L.line x.2 :=
  (yields_expectOperator _).andThen fun _ => (yields_exprWithin hL budget).bind fun _ he =>
    (yields_expectOperator _).bind fun _ ht => yields_pure ⟨he, hL.line ht⟩

lemma yields_exprUnless (stop : String) (budget : Nat) :
    Yields L (exprUnless stop budget) fun value => ∀ e ∈ value, e.Has L :=
  (yields_hasOperatorAt 0 _).andThen fun _ => .ite
    (fun _ => yields_pure fun _ h => nomatch h)
    fun _ => (yields_exprWithin hL budget).bind fun _ he =>
      yields_pure fun _ h => Option.mem_some.1 h ▸ he

lemma yields_forInit (budget : Nat) :
    Yields L (forInit budget) fun init => ∀ i ∈ init, i.Has L := by
  refine (yields_acceptOperator _).andThen fun _ => .ite
    (fun _ => yields_pure fun _ h => nomatch h) fun _ => ?_
  refine yields_atDeclaration.andThen fun _ => .ite (fun _ => ?_) fun _ => ?_
  · refine (yields_varDeclWithin hL budget).bind fun d hd => ?_
    refine (yields_expectOperator _).andThen fun _ => yields_pure fun i hi => ?_
    obtain rfl := Option.mem_some.1 hi
    exact hd
  · refine (yields_exprWithin hL budget).bind fun e he => ?_
    refine (yields_expectOperator _).andThen fun _ => yields_pure fun i hi => ?_
    obtain rfl := Option.mem_some.1 hi
    exact he

omit hL in
lemma yields_literal_label {t : Token} (ht : L.token t) {value : Option Literal.Value}
    (hvalue : ∀ v ∈ value, t.kind = v.kind ∧ (literalExpr t v).IsLabel)
    (hnone : value = none → t.Unreadable) : Yields L (literal t value) (Expr.LabelFrom L) :=
  yields_next.andThen fun _ => by
    cases value with
    | none => exact yields_throw (.literal ht (hnone rfl))
    | some v => exact yields_pure ⟨(hvalue v rfl).2, t, v, ht, (hvalue v rfl).1, rfl⟩

omit hL in
/-- A token that may label a case is the literal that it is read as. -/
lemma yieldsFrom_primaryOf_label {expr : Parser Expr} {t : Token} (ht : L.token t)
    (hlabel : isLabel t = true) (us : List Token) (budget : Nat) :
    YieldsFrom L (t :: us) (primaryOf expr budget) (Expr.LabelFrom L) := by
  refine yieldsFrom_peekAt_bind 0 ?_
  rw [List.getElem?_cons_zero]
  cases hkind : t.kind <;> simp only [hkind]
  case number =>
    refine yields_literal_label ht (fun v hv => ?_) (fun hnone => ?_) _
    · obtain ⟨n, hn, rfl⟩ := Option.map_eq_some_iff.1 hv
      exact ⟨hkind, hn, by simp⟩
    · exact .inl ⟨hkind, Option.map_eq_none_iff.1 hnone⟩
  case floatNumber =>
    refine yields_literal_label ht (fun v hv => ?_) (fun hnone => .inr ⟨hkind, hnone⟩) _
    have hfloat := kind_of_floatValue? hv
    cases v with
    | float | double => exact ⟨hkind, hv, by simp⟩
    | _ => cases hfloat
  case stringLiteral | charLiteral =>
    refine yields_literal_label ht (fun v hv => ?_) (fun hnone => by cases hnone) _
    obtain rfl := Option.mem_some.1 hv
    exact ⟨hkind, rfl, by simp⟩
  case keyword =>
    have hword : t.lexeme = "true" ∨ t.lexeme = "false" := by
      simpa [isLabel, Token.isKeyword, hkind] using hlabel
    rw [keywordExpr, if_pos (by simpa using hword)]
    refine yields_literal_label ht (fun v hv => ?_) (fun hnone => by cases hnone) _
    obtain rfl := Option.mem_some.1 hv
    refine ⟨hkind, ?_, by simp⟩
    rcases hword with hword | hword <;> simp [Literal.Consistent, hword]
  all_goals simp [isLabel, Token.isKeyword, hkind] at hlabel

omit hL in
lemma yields_caseLabel (budget : Nat) : Yields L (caseLabel budget) (Expr.LabelFrom L) := by
  refine yields_peek_cases (yields_failExpected _ _) fun t us ht => ?_
  rw [Option.any_some]
  split
  next hlabel => exact yieldsFrom_primaryOf_label ht hlabel us budget
  next => exact yields_failExpected _ _

lemma yields_simpleStmt (budget : Nat) : Yields L (simpleStmt budget) (Stmt.ReadFrom L) :=
  yields_atDeclaration.andThen fun _ => .ite
    (fun _ => (yields_varDeclWithin hL budget).bind fun _ hd =>
      (yields_expectOperator _).andThen fun _ => yields_pure hd)
    fun _ => (yields_exprWithin hL budget).bind fun _ he =>
      (yields_expectOperator _).andThen fun _ => yields_pure he

lemma yields_returnStmt {line : Nat} (hline : L.line line) (budget : Nat) :
    Yields L (returnStmt line budget) (Stmt.ReadFrom L) :=
  yields_next.andThen fun _ => (yields_exprUnless hL _ budget).bind fun _ he =>
    (yields_expectOperator _).andThen fun _ => yields_pure ⟨hline, he⟩

omit hL in
lemma yields_jump {s : Stmt} (hs : s.ReadFrom L) : Yields L (jump s) (Stmt.ReadFrom L) :=
  yields_next.andThen fun _ => (yields_expectOperator _).andThen fun _ => yields_pure hs

/-! ## Statements -/

variable {stmt : Parser Stmt} (hstmt : Yields L stmt (Stmt.ReadFrom L))
include hstmt

omit hL in
lemma yields_stmtsToBrace : ∀ budget, Yields L (stmtsToBrace stmt budget) (Stmt.AllReadFrom L)
  | 0 => yields_exhausted
  | budget + 1 =>
    (yields_acceptOperator _).andThen fun _ => .ite (fun _ => yields_pure trivial) fun _ =>
      yields_atEnd.andThen fun _ => .ite (fun _ => yields_failExpected _) fun _ =>
        hstmt.bind fun _ hs => (yields_stmtsToBrace budget).bind fun _ hss => yields_pure ⟨hs, hss⟩

lemma yields_blockOf (budget : Nat) : Yields L (blockOf stmt budget) (Block.ReadFrom L) :=
  (yields_expectOperator _).bind fun _ ht => (yields_stmtsToBrace hstmt budget).bind fun _ hss =>
    yields_pure ⟨hL.line ht, hss⟩

lemma yields_bodyOf (budget : Nat) : Yields L (bodyOf stmt budget) (Block.ReadFrom L) :=
  (yields_hasOperatorAt 0 _).andThen fun _ => .ite
    (fun _ => yields_blockOf hL hstmt budget)
    fun _ => hstmt.bind fun _ hs => yields_pure ⟨hs.line, hs, trivial⟩

lemma yields_ifStmt (budget : Nat) : Yields L (ifStmt stmt budget) (Stmt.ReadFrom L) :=
  (yields_expectKeyword _).andThen fun _ => (yields_condition hL budget).bind fun _ he =>
    (yields_bodyOf hL hstmt budget).bind fun _ hthen => (yields_acceptKeyword _).andThen fun _ =>
      .ite (fun _ => (yields_bodyOf hL hstmt budget).bind fun _ helse =>
        yields_pure ⟨he.2, he.1, hthen, helse⟩)
      fun _ => yields_pure ⟨he.2, he.1, hthen⟩

lemma yields_whileStmt (budget : Nat) : Yields L (whileStmt stmt budget) (Stmt.ReadFrom L) :=
  (yields_expectKeyword _).andThen fun _ => (yields_condition hL budget).bind fun _ he =>
    (yields_bodyOf hL hstmt budget).bind fun _ hbody => yields_pure ⟨he.2, he.1, hbody⟩

lemma yields_doWhileStmt (budget : Nat) : Yields L (doWhileStmt stmt budget) (Stmt.ReadFrom L) :=
  (yields_expectKeyword _).bind fun _ ht => (yields_bodyOf hL hstmt budget).bind fun _ hbody =>
    (yields_expectKeyword _).andThen fun _ => (yields_condition hL budget).bind fun _ he =>
      (yields_expectOperator _).andThen fun _ => yields_pure ⟨hL.line ht, hbody, he.1⟩

lemma yields_forStmt (budget : Nat) : Yields L (forStmt stmt budget) (Stmt.ReadFrom L) := by
  refine (yields_expectKeyword _).bind fun keyword hkeyword => ?_
  refine (yields_expectOperator _).andThen fun _ => (yields_hasOperatorAt 2 _).andThen fun _ => ?_
  refine .ite (fun _ => yields_failUnsupported (.inr ⟨keyword, hkeyword, rfl⟩) _) fun _ => ?_
  refine (yields_forInit hL budget).bind fun _ hinit => ?_
  refine (yields_exprUnless hL _ budget).bind fun _ hcondition => ?_
  refine (yields_expectOperator _).andThen fun _ => ?_
  refine (yields_exprUnless hL _ budget).bind fun _ hupdate => ?_
  refine (yields_expectOperator _).bind fun _ ht => ?_
  exact (yields_bodyOf hL hstmt budget).bind fun _ hbody =>
    yields_pure ⟨hL.line ht, hinit, hcondition, hupdate, hbody⟩

omit hL in
lemma yields_armStmts : ∀ budget, Yields L (armStmts stmt budget) (Stmt.AllReadFrom L)
  | 0 => yields_exhausted
  | budget + 1 =>
    yields_peek_bind (yields_failExpected _) fun _ _ => .ite (fun _ => yields_pure trivial) fun _ =>
      hstmt.bind fun _ hs => (yields_armStmts budget).bind fun _ hss => yields_pure ⟨hs, hss⟩

lemma yields_switchArms : ∀ budget, Yields L (switchArms stmt budget) (SwitchArm.AllReadFrom L)
  | 0 => yields_exhausted
  | budget + 1 => by
    refine (yields_acceptOperator _).andThen fun _ => .ite
      (fun _ => yields_pure trivial) fun _ => ?_
    refine yields_peek_bind (yields_failExpected _) fun t ht => ?_
    have hline := hL.line ht
    refine .ite (fun _ => ?_) fun _ => .ite (fun _ => ?_) fun _ => yields_failUnexpected ht _
    · refine yields_next.andThen fun _ => (yields_caseLabel (budget + 1)).bind fun _ hlabel => ?_
      refine (yields_expectOperator _).andThen fun _ => ?_
      refine (yields_armStmts hstmt (budget + 1)).bind fun _ hss => ?_
      exact (yields_switchArms budget).bind fun _ harms =>
        yields_pure ⟨⟨hline, hlabel, hline, hss⟩, harms⟩
    · refine yields_next.andThen fun _ => (yields_expectOperator _).andThen fun _ => ?_
      refine (yields_armStmts hstmt (budget + 1)).bind fun _ hss => ?_
      exact (yields_switchArms budget).bind fun _ harms =>
        yields_pure ⟨⟨hline, hline, hss⟩, harms⟩

lemma yields_switchStmt (budget : Nat) : Yields L (switchStmt stmt budget) (Stmt.ReadFrom L) :=
  (yields_expectKeyword _).andThen fun _ => (yields_condition hL budget).bind fun _ he =>
    (yields_expectOperator _).andThen fun _ =>
      (yields_switchArms hL hstmt budget).bind fun _ harms => yields_pure ⟨he.2, he.1, harms⟩

lemma yields_keywordStmt {t : Token} (ht : L.token t) (budget : Nat) :
    Yields L (keywordStmt stmt budget t) (Stmt.ReadFrom L) :=
  .ite (fun _ => yields_ifStmt hL hstmt budget) fun _ =>
  .ite (fun _ => yields_whileStmt hL hstmt budget) fun _ =>
  .ite (fun _ => yields_doWhileStmt hL hstmt budget) fun _ =>
  .ite (fun _ => yields_forStmt hL hstmt budget) fun _ =>
  .ite (fun _ => yields_switchStmt hL hstmt budget) fun _ =>
  .ite (fun _ => yields_jump (hL.line ht)) fun _ =>
  .ite (fun _ => yields_jump (hL.line ht)) fun _ =>
  .ite (fun _ => yields_returnStmt hL (hL.line ht) budget) fun _ =>
  .ite (fun _ => yields_failUnexpected ht _) fun _ => yields_simpleStmt hL budget

lemma yields_stmtOf (budget : Nat) : Yields L (stmtOf stmt budget) (Stmt.ReadFrom L) :=
  yields_peek_bind (yields_failExpected _) fun _ ht =>
    .ite (fun _ => (yields_blockOf hL hstmt budget).bind fun _ hbody => yields_pure hbody) fun _ =>
    .ite (fun _ => yields_next.andThen fun _ => yields_pure ⟨hL.line ht, trivial⟩) fun _ =>
    .ite (fun _ => yields_keywordStmt hL hstmt ht budget) fun _ => yields_simpleStmt hL budget

omit hstmt in
lemma yields_stmtWithin : ∀ budget, Yields L (stmtWithin budget) (Stmt.ReadFrom L)
  | 0 => yields_exhausted
  | budget + 1 => yields_stmtOf hL (yields_stmtWithin budget) _

omit hstmt

/-! ## Members and classes -/

omit hL in
lemma yields_skipModifiers : ∀ budget, Yields L (skipModifiers budget) fun _ => True
  | 0 => yields_exhausted
  | budget + 1 =>
    yields_peek_bind (yields_pure trivial) fun _ _ => .ite
      (fun _ => yields_next.andThen fun _ =>
        (yields_skipModifiers budget).andThen fun _ => yields_pure trivial)
      fun _ => yields_pure trivial

lemma yields_parameterList :
    ∀ budget, Yields L (parameterList budget) fun params => ∀ p ∈ params, p.Has L
  | 0 => yields_exhausted
  | budget + 1 => by
    refine (yields_acceptKeyword _).andThen fun _ => ?_
    refine (yields_declarator hL (budget + 1)).bind fun d hd => ?_
    have hparam : Parameter.Has L { name := d.1, type := d.2.1, line := d.2.2 } := ⟨hd.2, hd.1⟩
    refine (yields_acceptOperator _).andThen fun _ => .ite (fun _ => ?_) fun _ => ?_
    · exact yields_pure (List.forall_mem_singleton.2 hparam)
    · exact (yields_expectOperator _).andThen fun _ => (yields_parameterList budget).bind
        fun _ hparams => yields_pure (List.forall_mem_cons.2 ⟨hparam, hparams⟩)

lemma yields_parameters (budget : Nat) :
    Yields L (parameters budget) fun params => ∀ p ∈ params, p.Has L :=
  (yields_expectOperator _).andThen fun _ => (yields_acceptOperator _).andThen fun _ => .ite
    (fun _ => yields_pure (List.forall_mem_nil _)) fun _ => yields_parameterList hL budget

lemma yields_memberWithin (budget : Nat) : Yields L (memberWithin budget) (Member.ReadFrom L) := by
  refine (yields_skipModifiers budget).andThen fun _ => (yields_declarator hL budget).bind ?_
  intro d hd
  refine (yields_hasOperatorAt 0 _).andThen fun _ => .ite (fun _ => ?_) fun _ => ?_
  · exact (yields_parameters hL budget).bind fun _ hparams =>
      (yields_blockOf hL (yields_stmtWithin hL budget) budget).bind fun _ hbody =>
        yields_pure ⟨hd.2, hd.1, hparams, hbody⟩
  · exact (yields_optionalInit hL budget).bind fun _ hinit =>
      (yields_expectOperator _).andThen fun _ => yields_pure ⟨hd.2, hd.1, hinit⟩

lemma yields_membersToBrace :
    ∀ budget, Yields L (membersToBrace budget) fun members => ∀ m ∈ members, m.ReadFrom L
  | 0 => yields_exhausted
  | budget + 1 =>
    (yields_acceptOperator _).andThen fun _ => .ite
      (fun _ => yields_pure (List.forall_mem_nil _)) fun _ =>
      yields_atEnd.andThen fun _ => .ite (fun _ => yields_failExpected _) fun _ =>
        (yields_memberWithin hL (budget + 1)).bind fun _ hm =>
          (yields_membersToBrace budget).bind fun _ hms =>
            yields_pure (List.forall_mem_cons.2 ⟨hm, hms⟩)

lemma yields_classDeclWithin (budget : Nat) :
    Yields L (classDeclWithin budget) (ClassDecl.ReadFrom L) := by
  refine (yields_skipModifiers budget).andThen fun _ => (yields_expectKeyword _).andThen fun _ => ?_
  refine yields_expectIdentifier.bind fun t ⟨ht, hkind⟩ => ?_
  have hword : t.isWord = true := by simp [Token.isWord, hkind]
  refine (yields_hasKeyword _).andThen fun _ => (yields_hasKeyword _).andThen fun _ => ?_
  refine .ite (fun _ => ?_) fun _ => ?_
  · exact yields_currentLine.bind fun _ hline => yields_failUnsupported hline _
  · exact (yields_expectOperator _).andThen fun _ => (yields_membersToBrace hL budget).bind
      fun _ hms => yields_pure ⟨hL.line ht, hL.name ht hword, hms⟩

lemma yields_classesToEnd :
    ∀ budget, Yields L (classesToEnd budget) fun classes => ∀ c ∈ classes, c.ReadFrom L
  | 0 => yields_exhausted
  | budget + 1 =>
    yields_atEnd.andThen fun _ => .ite (fun _ => yields_pure (List.forall_mem_nil _)) fun _ =>
      (yields_classDeclWithin hL (budget + 1)).bind fun _ hc =>
        (yields_classesToEnd budget).bind fun _ hcs =>
          yields_pure (List.forall_mem_cons.2 ⟨hc, hcs⟩)

/-! ## Programs -/

omit hL in
lemma yields_skipToPublic : ∀ budget, Yields L (skipToPublic budget) fun _ => True
  | 0 => yields_exhausted
  | budget + 1 =>
    yields_peek_bind (yields_pure trivial) fun _ _ => .ite (fun _ => yields_pure trivial) fun _ =>
      yields_next.andThen fun _ => yields_skipToPublic budget

/-- The line of a program is that of its first token. -/
lemma yields_programWithin (budget : Nat) : Yields L (programWithin budget) (Program.ReadFrom L) := by
  refine (yields_skipToPublic budget).andThen fun _ => ?_
  refine yields_atEnd_cases (yields_failExpected _ _) fun t us ht => ?_
  refine (yieldsFrom_currentLine t us).bind ?_
  rintro _ rfl
  refine (yields_classesToEnd hL budget).bind fun _ hcs => yields_takeFailure.bind ?_
  rintro _ rfl
  exact yields_pure ⟨hL.line ht, hcs⟩

end Lawful

end Grammar

/-- How the parse of a program from tokens with a property ends. -/
lemma Program.ends_of_ofTokens {L : Leaves} (hL : L.Lawful) {ts : List Token}
    (hts : ∀ t ∈ ts, L.token t) : ∃ c, L.Ends (Program.ReadFrom L) (Program.ofTokens ts, c) := by
  refine ⟨(Grammar.program.runFrom (.ofTokens ts)).2, ?_⟩
  change L.Ends _ (Grammar.program.runFrom (.ofTokens ts))
  rw [Grammar.program, Parser.runFrom_withBudget]
  exact Grammar.yields_programWithin hL _ ts ⟨hts, .inl rfl, rfl⟩ rfl

/-- **Programs are read from their tokens**: if all tokens have a property that the scanner and the
parser preserve, the leaves have the properties that go with it, and the labels of cases are
literals. -/
lemma Program.readFrom_of_ofTokens {L : Leaves} (hL : L.Lawful) {ts : List Token}
    (hts : ∀ t ∈ ts, L.token t) {p : Program} (h : Program.ofTokens ts = .ok p) : p.ReadFrom L := by
  obtain ⟨c, hends⟩ := ends_of_ofTokens hL hts
  rw [h] at hends
  cases hends with
  | ok hp => exact hp

/-- The leaves of a program come from its tokens. -/
lemma Program.has_of_ofTokens {L : Leaves} (hL : L.Lawful) {ts : List Token}
    (hts : ∀ t ∈ ts, L.token t) {p : Program} (h : Program.ofTokens ts = .ok p) : p.Has L :=
  (readFrom_of_ofTokens hL hts h).has hL

/-- **So are syntax errors**: if the parse fails, tokens with the property have given rise to it. -/
lemma Program.raises_of_ofTokens {L : Leaves} (hL : L.Lawful) {ts : List Token}
    (hts : ∀ t ∈ ts, L.token t) {e : SyntaxError} (h : Program.ofTokens ts = .error e) :
    L.Raises e := by
  obtain ⟨c, hends⟩ := ends_of_ofTokens hL hts
  rw [h] at hends
  cases hends with
  | error he => exact he

lemma eq_ok_of_toOption {ε α : Type} {r : Except ε α} {x : α} (h : r.toOption = some x) :
    r = .ok x := by
  cases r with
  | ok y => exact congrArg Except.ok (Option.some.inj h)
  | error e => cases h

end ClassLang
