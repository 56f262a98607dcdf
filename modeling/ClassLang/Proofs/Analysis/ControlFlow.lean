import ClassLang.Proofs.Analysis.Order

set_option autoImplicit false

/-!
# How methods end

An execution of a statement goes on behind it, jumps out of a construct around it, or ends the
method. Which of these happens depends on conditions, rounds of loops and labels of switches; here
all of them are left open, so that an execution may take every branch, go round every loop any
number of times, and enter every switch at any arm.

A check that passes has looked at every jump and every `return` with the constructs around it at
hand. So the jumps of an accepted method stay inside it, its returns have a value exactly if the
method has a result, and one that has a result always comes to a return.

## Main definitions

* `ClassLang.Outcome` — how an execution ends.
* `ClassLang.Stmt.Ends`, `ClassLang.Block.Ends` — the executions of statements and blocks.
* `ClassLang.Stmt.Disciplined` — jumps have something to leave, and returns have a value if they
  should.

## Main results

* `ClassLang.Check.disciplined_of_block` — a block whose check passes is disciplined.
* `ClassLang.Block.Ends.permitted` — how a disciplined block may end.
* `ClassLang.Block.Ends.ne_normal` — a block that has a return does not go on behind itself.
* `ClassLang.Analyzer.accepted_method_never_falls_off` — how the methods of an accepted program end.
-/

namespace ClassLang

/-! ## Executions -/

/-- How an execution of statements ends. -/
inductive Outcome where
  /-- It goes on behind them. -/
  | normal
  /-- It leaves the innermost loop or switch around them. -/
  | broke
  /-- It goes on with the next round of the innermost loop around them. -/
  | continued
  /-- It ends the method, with or without a value. -/
  | returned (hasValue : Bool)
  deriving DecidableEq

namespace Outcome

/-- Whether a loop may go on with another round when its body ends in this way. -/
def goesRound : Outcome → Bool
  | normal | continued => true
  | broke | returned _ => false

/-- How a construct ends that a `break` leaves, when what stands in it ends in this way. -/
def outside : Outcome → Outcome
  | broke => normal
  | o => o

end Outcome

mutual

/-- The executions of a statement. -/
inductive Stmt.Ends : Stmt → Outcome → Prop
  | varDecl (d : VarDecl) : Stmt.Ends (.varDecl d) .normal
  | expr (e : Expr) : Stmt.Ends (.expr e) .normal
  | block {body : Block} {o : Outcome} (h : Block.Ends body o) : Stmt.Ends (.block body) o
  | ifThen {line : Nat} {c : Expr} {body : Block} {o : Outcome} (h : Block.Ends body o) :
      Stmt.Ends (.ifThen line c body) o
  | ifPassed {line : Nat} {c : Expr} {body : Block} : Stmt.Ends (.ifThen line c body) .normal
  | thenBranch {line : Nat} {c : Expr} {body other : Block} {o : Outcome} (h : Block.Ends body o) :
      Stmt.Ends (.ifElse line c body other) o
  | elseBranch {line : Nat} {c : Expr} {body other : Block} {o : Outcome} (h : Block.Ends other o) :
      Stmt.Ends (.ifElse line c body other) o
  | whileLoop {line : Nat} {c : Expr} {body : Block} {o : Outcome} (h : Rounds body true o) :
      Stmt.Ends (.whileLoop line c body) o
  | doWhile {line : Nat} {c : Expr} {body : Block} {o : Outcome} (h : Rounds body false o) :
      Stmt.Ends (.doWhile line body c) o
  | forLoop {line : Nat} {init : Option ForInit} {c update : Option Expr} {body : Block}
      {o : Outcome} (h : Rounds body true o) : Stmt.Ends (.forLoop line init c update body) o
  /-- The arms `entered` are gone through one after the other; there may be none of them. -/
  | switch {line : Nat} {c : Expr} {passed entered : List SwitchArm} {o : Outcome}
      (h : ArmsEnd entered o) : Stmt.Ends (.switch line c (passed ++ entered)) o.outside
  | ret (line : Nat) (value : Option Expr) : Stmt.Ends (.ret line value) (.returned value.isSome)
  | breakOff (line : Nat) : Stmt.Ends (.breakOff line) .broke
  | continueOn (line : Nat) : Stmt.Ends (.continueOn line) .continued

/-- The executions of a block. -/
inductive Block.Ends : Block → Outcome → Prop
  | mk {line : Nat} {ss : List Stmt} {o : Outcome} (h : StmtsEnd ss o) : Block.Ends (.mk line ss) o

/-- The executions of statements one after the other. -/
inductive StmtsEnd : List Stmt → Outcome → Prop
  | nil : StmtsEnd [] .normal
  | next {s : Stmt} {ss : List Stmt} {o : Outcome} (hfirst : Stmt.Ends s .normal)
      (hrest : StmtsEnd ss o) : StmtsEnd (s :: ss) o
  | stop {s : Stmt} {ss : List Stmt} {o : Outcome} (hfirst : Stmt.Ends s o) (ho : o ≠ .normal) :
      StmtsEnd (s :: ss) o

/-- The executions of the rounds of a loop. Unless it `mayStop` there is at least one. -/
inductive Rounds : Block → Bool → Outcome → Prop
  | stop {body : Block} : Rounds body true .normal
  | again {body : Block} {mayStop : Bool} {o o' : Outcome} (hbody : Block.Ends body o)
      (ho : o.goesRound = true) (hrest : Rounds body true o') : Rounds body mayStop o'
  | leave {body : Block} {mayStop : Bool} {o : Outcome} (hbody : Block.Ends body o)
      (ho : o.goesRound = false) : Rounds body mayStop o.outside

/-- The executions of the arms of a switch, from the first one on. -/
inductive ArmsEnd : List SwitchArm → Outcome → Prop
  | nil : ArmsEnd [] .normal
  | next {arm : SwitchArm} {arms : List SwitchArm} {o : Outcome}
      (hfirst : Block.Ends arm.body .normal) (hrest : ArmsEnd arms o) : ArmsEnd (arm :: arms) o
  | stop {arm : SwitchArm} {arms : List SwitchArm} {o : Outcome} (hfirst : Block.Ends arm.body o)
      (ho : o ≠ .normal) : ArmsEnd (arm :: arms) o

end

/-! ## Jumps and returns in their places -/

mutual

/-- Inside the constructs `around`, and in a method with the result type `result`, all jumps have
something to leave, and exactly the returns of a method with a result have a value. -/
def Stmt.Disciplined (around : List Enclosure) (result : Ty) : Stmt → Prop
  | .varDecl _ | .expr _ => True
  | .block body | .ifThen _ _ body => body.Disciplined around result
  | .ifElse _ _ body other => body.Disciplined around result ∧ other.Disciplined around result
  | .whileLoop _ _ body | .doWhile _ body _ | .forLoop _ _ _ _ body =>
    body.Disciplined (.loop :: around) result
  | .switch _ _ arms => ArmsDisciplined (.switch :: around) result arms
  | .ret _ value => value.isSome = true ↔ result ≠ .void
  | .breakOff _ => around ≠ []
  | .continueOn _ => .loop ∈ around

/-- The same of all the statements of a block. -/
def Block.Disciplined (around : List Enclosure) (result : Ty) : Block → Prop
  | .mk _ ss => StmtsDisciplined around result ss

/-- The same of several statements. -/
def StmtsDisciplined (around : List Enclosure) (result : Ty) : List Stmt → Prop
  | [] => True
  | s :: ss => s.Disciplined around result ∧ StmtsDisciplined around result ss

/-- The same of an arm of a switch. -/
def SwitchArm.Disciplined (around : List Enclosure) (result : Ty) : SwitchArm → Prop
  | .labelled _ _ body | .otherwise _ body => body.Disciplined around result

/-- The same of several arms. -/
def ArmsDisciplined (around : List Enclosure) (result : Ty) : List SwitchArm → Prop
  | [] => True
  | arm :: arms => arm.Disciplined around result ∧ ArmsDisciplined around result arms

end

/-- How a disciplined statement may end. -/
def Outcome.Permitted (around : List Enclosure) (result : Ty) : Outcome → Prop
  | normal => True
  | broke => around ≠ []
  | continued => .loop ∈ around
  | returned hasValue => hasValue = true ↔ result ≠ .void

section Permitted

variable {around : List Enclosure} {result : Ty}

/-- A loop takes in the jumps that its body may end with. -/
lemma Outcome.Permitted.leaveLoop {o : Outcome} (h : o.Permitted (.loop :: around) result)
    (ho : o.goesRound = false) : o.outside.Permitted around result := by
  cases o with
  | broke => trivial
  | returned hasValue => exact h
  | normal | continued => cases ho

/-- A switch takes in a `break` and lets a `continue` through to the loop around it. -/
lemma Outcome.Permitted.leaveSwitch {o : Outcome} (h : o.Permitted (.switch :: around) result) :
    o.outside.Permitted around result := by
  cases o with
  | normal | broke => trivial
  | continued => simpa [Outcome.outside, Outcome.Permitted] using h
  | returned hasValue => exact h

lemma SwitchArm.Disciplined.body {arm : SwitchArm} (h : arm.Disciplined around result) :
    arm.body.Disciplined around result := by
  cases arm <;> exact h

/-- The arms behind some others are as they are. -/
lemma ArmsDisciplined.of_append {passed entered : List SwitchArm}
    (h : ArmsDisciplined around result (passed ++ entered)) :
    ArmsDisciplined around result entered := by
  induction passed with
  | nil => exact h
  | cons arm passed ih => exact ih h.2

end Permitted

mutual

/-- A disciplined statement ends in a way that is permitted. -/
theorem Stmt.Ends.permitted {around : List Enclosure} {result : Ty} {s : Stmt} {o : Outcome} :
    s.Ends o → s.Disciplined around result → o.Permitted around result
  | .varDecl _, _ | .expr _, _ | .ifPassed, _ => trivial
  | .block h, hs | .ifThen h, hs => h.permitted hs
  | .thenBranch h, hs => h.permitted hs.1
  | .elseBranch h, hs => h.permitted hs.2
  | .whileLoop h, hs | .doWhile h, hs | .forLoop h, hs => h.permitted hs
  | .switch h, hs => (h.permitted (ArmsDisciplined.of_append hs)).leaveSwitch
  | .ret _ _, hs | .breakOff _, hs | .continueOn _, hs => hs

/-- So does a block. -/
theorem Block.Ends.permitted {around : List Enclosure} {result : Ty} {body : Block} {o : Outcome} :
    body.Ends o → body.Disciplined around result → o.Permitted around result
  | .mk h, hbody => h.permitted hbody

/-- So do several statements. -/
theorem StmtsEnd.permitted {around : List Enclosure} {result : Ty} {ss : List Stmt} {o : Outcome} :
    StmtsEnd ss o → StmtsDisciplined around result ss → o.Permitted around result
  | .nil, _ => trivial
  | .next _ hrest, hss => hrest.permitted hss.2
  | .stop hfirst _, hss => hfirst.permitted hss.1

/-- So does a loop with a disciplined body. -/
theorem Rounds.permitted {around : List Enclosure} {result : Ty} {body : Block} {mayStop : Bool}
    {o : Outcome} : Rounds body mayStop o → body.Disciplined (.loop :: around) result →
      o.Permitted around result
  | .stop, _ => trivial
  | .again _ _ hrest, hbody => hrest.permitted hbody
  | .leave h ho, hbody => (h.permitted hbody).leaveLoop ho

/-- So do several arms. -/
theorem ArmsEnd.permitted {around : List Enclosure} {result : Ty} {arms : List SwitchArm}
    {o : Outcome} : ArmsEnd arms o → ArmsDisciplined around result arms → o.Permitted around result
  | .nil, _ => trivial
  | .next _ hrest, harms => hrest.permitted harms.2
  | .stop hfirst _, harms => hfirst.permitted harms.1.body

end

/-! ## Returns -/

mutual

/-- A statement that has a return on every way through it does not go on behind itself. -/
theorem Stmt.Ends.ne_normal {s : Stmt} {o : Outcome} :
    s.Ends o → s.hasReturn = true → o ≠ .normal
  | .ret _ _, _ => by simp
  | .block h, hs => h.ne_normal (by simpa only [Stmt.hasReturn] using hs)
  | .thenBranch h, hs => h.ne_normal (Bool.and_eq_true_iff.1 hs).1
  | .elseBranch h, hs => h.ne_normal (Bool.and_eq_true_iff.1 hs).2
  | .varDecl _, hs | .expr _, hs | .ifThen _, hs | .ifPassed, hs | .whileLoop _, hs
  | .doWhile _, hs | .forLoop _, hs | .switch _, hs | .breakOff _, hs | .continueOn _, hs => by
    simp [Stmt.hasReturn] at hs

/-- Neither does such a block. -/
theorem Block.Ends.ne_normal {body : Block} {o : Outcome} :
    body.Ends o → body.hasReturn = true → o ≠ .normal
  | .mk h, hbody => h.ne_normal hbody

/-- Neither do statements one of which has a return. -/
theorem StmtsEnd.ne_normal {ss : List Stmt} {o : Outcome} :
    StmtsEnd ss o → anyHasReturn ss = true → o ≠ .normal
  | .next hfirst hrest, hss => by
    rcases Bool.or_eq_true_iff.1 hss with hs | hss
    · exact absurd rfl (hfirst.ne_normal hs)
    · exact hrest.ne_normal hss
  | .stop _ ho, _ => ho

end

/-! ## Checks that pass -/

/-- A state of a check that fails fast, with a block scope open, inside the constructs `around` of a
method with the result type `result`. -/
structure Analyzer.Inside (around : List Enclosure) (result : Ty) (a : Analyzer) : Prop where
  failFast : a.failFast = true
  isOpen : a.scopes.locals ≠ []
  enclosures : a.context.enclosures = around
  returnType : a.context.returnType.getD .void = result

namespace Analyzer.Inside

variable {around : List Enclosure} {result : Ty} {a : Analyzer}

lemma push (ha : a.Inside around result) :
    Inside around result { a with scopes := a.scopes.push } :=
  ⟨ha.failFast, List.cons_ne_nil _ _, ha.enclosures, ha.returnType⟩

lemma enterLoop (ha : a.Inside around result) :
    Inside (.loop :: around) result { a with context := a.context.push .loop } :=
  ⟨ha.failFast, ha.isOpen, congrArg (Enclosure.loop :: ·) ha.enclosures, ha.returnType⟩

lemma enterSwitch (ha : a.Inside around result) (type : Ty) :
    Inside (.switch :: around) result { a with context := a.context.pushSwitch type } :=
  ⟨ha.failFast, ha.isOpen, congrArg (Enclosure.switch :: ·) ha.enclosures, ha.returnType⟩

end Analyzer.Inside

namespace Check

variable {α β : Type} {around : List Enclosure} {result : Ty} {a b c : Analyzer}

/-- A confined check that passes leads to a state inside the same constructs. -/
lemma Confined.inside {defines : Bool} {p : Check α} {x : α} (hp : Confined defines p)
    (ha : a.Inside around result) (hrun : p.runFrom a = (.ok x, b)) : b.Inside around result := by
  obtain ⟨table, outer, hopen⟩ := List.exists_cons_of_ne_nil ha.isOpen
  obtain ⟨table', -, hends⟩ := hp a table outer hopen
  rw [hrun] at hends
  have hcontext : b.context = a.context := hends.context
  refine ⟨hends.failFast.trans ha.failFast, ?_, hcontext ▸ ha.enclosures, hcontext ▸ ha.returnType⟩
  simp [hends.scopes]

/-- Checks one after the other, of which the first one is confined. -/
lemma Confined.inside_bind {defines : Bool} {p : Check α} {f : α → Check β} {y : β}
    (hp : Confined defines p) (ha : a.Inside around result)
    (hrun : (p >>= f).runFrom a = (.ok y, c)) :
    ∃ x b, b.Inside around result ∧ (f x).runFrom b = (.ok y, c) := by
  obtain ⟨x, b, hfirst, hrest⟩ := runFrom_bind_eq_ok.1 hrun
  exact ⟨x, b, hp.inside ha hfirst, hrest⟩

/-- A check that passes in a scope of its own passes inside that scope. -/
lemma runFrom_of_withScope {p : Check Unit} (hrun : (withScope p).runFrom a = (.ok (), c)) :
    ∃ b, p.runFrom { a with scopes := a.scopes.push } = (.ok (), b) := by
  obtain ⟨_, _, ⟨⟩, hrun⟩ := runFrom_bind_eq_ok.1 hrun
  obtain ⟨_, b, hbody, -⟩ := runFrom_bind_eq_ok.1 hrun
  exact ⟨b, hbody⟩

/-- A check that passes between two changes of the context passes after the first one. -/
lemma runFrom_of_inContext {enter leave : Context → Context} {p : Check Unit}
    (hrun : (do modifyContext enter; p; modifyContext leave : Check Unit).runFrom a = (.ok (), c)) :
    ∃ b, p.runFrom { a with context := enter a.context } = (.ok (), b) := by
  obtain ⟨_, _, ⟨⟩, hrun⟩ := runFrom_bind_eq_ok.1 hrun
  obtain ⟨_, b, hbody, -⟩ := runFrom_bind_eq_ok.1 hrun
  exact ⟨b, hbody⟩

/-- When failing fast, a check that would be recovered from has to pass. -/
lemma runFrom_of_attempt {p : Check Unit} (hp : Agrees p) (ha : a.failFast = true)
    (hrun : (attempt p).runFrom a = (.ok (), b)) : p.runFrom a = (.ok (), b) := by
  obtain ⟨m, _, ⟨⟩, hrun⟩ := runFrom_bind_eq_ok.1 hrun
  exact (hp.tryCatch_eq_ok (records_recover _) ha).1 hrun

/-- A guard that has passed was not needed. -/
lemma runFrom_of_failIf {cond : Prop} [Decidable cond] {line : Nat} {cause : SemanticError.Cause}
    (hrun : (if cond then fail line cause else pure () : Check Unit).runFrom a = (.ok (), b)) :
    ¬ cond := by
  intro hcond
  rw [if_pos hcond] at hrun
  cases hrun

/-- A guard that has passed in front of a check. -/
lemma runFrom_of_guard {cond : Prop} [Decidable cond] {line : Nat} {cause : SemanticError.Cause}
    {p : Unit → Check α} {x : α}
    (hrun : (if cond then fail line cause >>= p else p ()).runFrom a = (.ok x, b)) :
    ¬ cond ∧ (p ()).runFrom a = (.ok x, b) := by
  split at hrun
  · cases hrun
  · exact ⟨by assumption, hrun⟩

/-- A `return` that passes has a value exactly if the method has a result. -/
lemma isSome_iff_of_ret {line : Nat} {value : Option Expr} (ha : a.Inside around result)
    (hrun : (ret line value).runFrom a = (.ok (), b)) : value.isSome = true ↔ result ≠ .void := by
  rw [ret, runFrom_get_bind, ha.returnType] at hrun
  cases value with
  | none => simpa using runFrom_of_failIf hrun
  | some e =>
    obtain ⟨_, _, -, hrun⟩ := runFrom_bind_eq_ok.1 hrun
    simpa using (runFrom_of_guard hrun).1

mutual

/-- A statement whose check passes is disciplined. -/
theorem disciplined_of_stmt : (s : Stmt) → ∀ {around : List Enclosure} {result : Ty}
    {a b : Analyzer}, a.Inside around result → (stmt s).runFrom a = (.ok (), b) →
      s.Disciplined around result
  | .varDecl _, _, _, _, _, _, _ | .expr _, _, _, _, _, _, _ => trivial
  | .block body, _, _, _, _, ha, hrun => disciplined_of_block body ha hrun
  | .ifThen _ c body, _, _, _, _, ha, hrun => by
    obtain ⟨_, _, ha, hrun⟩ := (confined_scoped.outer.condition .ifStmt c).inside_bind ha hrun
    exact disciplined_of_block body ha hrun
  | .ifElse _ c body other, _, _, _, _, ha, hrun => by
    obtain ⟨_, _, ha, hrun⟩ := (confined_scoped.outer.condition .ifStmt c).inside_bind ha hrun
    obtain ⟨_, b, hbody, hother⟩ := runFrom_bind_eq_ok.1 hrun
    exact ⟨disciplined_of_block body ha hbody,
      disciplined_of_block other ((confined_scoped.block body).inside ha hbody) hother⟩
  | .whileLoop _ c body, _, _, _, _, ha, hrun | .doWhile _ body c, _, _, _, _, ha, hrun => by
    obtain ⟨_, _, ha, hrun⟩ := (confined_scoped.outer.condition .whileLoop c).inside_bind ha hrun
    obtain ⟨_, hrun⟩ := runFrom_of_inContext hrun
    exact disciplined_of_block body ha.enterLoop hrun
  | .forLoop _ init c update body, _, _, _, _, ha, hrun => by
    obtain ⟨_, hrun⟩ := runFrom_of_withScope hrun
    obtain ⟨_, _, ha, hrun⟩ := (confined_scoped.forInit init).inside_bind ha.push hrun
    obtain ⟨_, _, ha, hrun⟩ := (confined_scoped.inner.forCondition c).inside_bind ha hrun
    obtain ⟨_, _, ha, hrun⟩ := (confined_scoped.inner.forUpdate update).inside_bind ha hrun
    obtain ⟨_, hrun⟩ := runFrom_of_inContext hrun
    exact disciplined_of_block body ha.enterLoop hrun
  | .switch _ c cases, _, _, _, _, ha, hrun => by
    obtain ⟨type, _, ha, hrun⟩ := (confined_scoped.outer.typeOf c).inside_bind ha hrun
    obtain ⟨_, hrun⟩ := runFrom_of_inContext (runFrom_of_guard hrun).2
    exact disciplined_of_arms type {} cases (ha.enterSwitch type) hrun
  | .ret _ _, _, _, _, _, ha, hrun => isSome_iff_of_ret ha hrun
  | .breakOff _, _, _, a, _, ha, hrun => by
    have hbreak : ¬ (!a.context.canBreak) = true := runFrom_of_failIf hrun
    simpa [Stmt.Disciplined, Context.canBreak, ha.enclosures] using hbreak
  | .continueOn _, _, _, a, _, ha, hrun => by
    have hcontinue : ¬ (!a.context.canContinue) = true := runFrom_of_failIf hrun
    simpa [Stmt.Disciplined, Context.canContinue, ha.enclosures] using hcontinue

/-- Statements whose check passes are disciplined. -/
theorem disciplined_of_stmts : (ss : List Stmt) → ∀ {around : List Enclosure} {result : Ty}
    {a b : Analyzer}, a.Inside around result → (stmts ss).runFrom a = (.ok (), b) →
      StmtsDisciplined around result ss
  | [], _, _, _, _, _, _ => trivial
  | s :: ss, _, _, _, _, ha, hrun => by
    obtain ⟨_, b, hfirst, hrest⟩ := runFrom_bind_eq_ok.1 hrun
    have hs := confined_scoped.stmt_of_or (confined_scoped.varDecl_or_stmt s)
    have hfirst := runFrom_of_attempt
      (agrees_scoped.stmt_of_or (agrees_scoped.varDecl_or_stmt s)) ha.failFast hfirst
    exact ⟨disciplined_of_stmt s ha hfirst, disciplined_of_stmts ss (hs.inside ha hfirst) hrest⟩

/-- A block whose check passes is disciplined. -/
theorem disciplined_of_block : (body : Block) → ∀ {around : List Enclosure} {result : Ty}
    {a b : Analyzer}, a.Inside around result → (block body).runFrom a = (.ok (), b) →
      body.Disciplined around result
  | .mk _ ss, _, _, _, _, ha, hrun => by
    obtain ⟨_, hrun⟩ := runFrom_of_withScope hrun
    exact disciplined_of_stmts ss ha.push hrun

/-- An arm of a switch whose check passes is disciplined. -/
theorem disciplined_of_arm (type : Ty) (seen : ArmsSeen) : (arm : SwitchArm) →
    ∀ {around : List Enclosure} {result : Ty} {a b : Analyzer}, a.Inside around result →
      (Check.arm type seen arm).runFrom a = (.ok (), b) → arm.Disciplined around result
  | .labelled line e body, _, _, _, _, ha, hrun => by
    obtain ⟨_, _, ha, hrun⟩ := (confined_scoped.outer.label line type e).inside_bind ha hrun
    obtain ⟨_, _, hbody, -⟩ := runFrom_bind_eq_ok.1 hrun
    exact disciplined_of_block body ha hbody
  | .otherwise _ body, _, _, _, _, ha, hrun => by
    simp only [Check.arm] at hrun
    exact disciplined_of_block body ha (runFrom_of_guard hrun).2

/-- Arms of a switch whose check passes are disciplined. -/
theorem disciplined_of_arms (type : Ty) (seen : ArmsSeen) : (cases : List SwitchArm) →
    ∀ {around : List Enclosure} {result : Ty} {a b : Analyzer}, a.Inside around result →
      (arms type seen cases).runFrom a = (.ok (), b) → ArmsDisciplined around result cases
  | [], _, _, _, _, _, _ => trivial
  | first :: rest, _, _, _, _, ha, hrun => by
    obtain ⟨_, b, hfirst, hrest⟩ := runFrom_bind_eq_ok.1 hrun
    have hfirst := runFrom_of_attempt (agrees_scoped.arm type seen first) ha.failFast hfirst
    rw [runFrom_get_bind] at hrest
    exact ⟨disciplined_of_arm type seen first ha hfirst,
      disciplined_of_arms type _ rest ((confined_scoped.arm type seen first).inside ha hfirst)
        hrest⟩

end

/-- The body of a method that passes is disciplined, and has a return if the method has a result. -/
lemma BodyPasses.disciplined {g : Table} {name : String} {d : MethodDecl} {result : Ty}
    {params : List (String × Ty)} (hpasses : BodyPasses g name (.method d result params)) :
    d.body.Disciplined [] result ∧ (result ≠ .void → d.body.hasReturn = true) := by
  obtain ⟨_, hrun⟩ := hpasses
  obtain ⟨_, _, ⟨⟩, hrun⟩ := runFrom_bind_eq_ok.1 hrun
  obtain ⟨_, _, hscope, hrun⟩ := runFrom_bind_eq_ok.1 hrun
  obtain ⟨_, _, ⟨⟩, hreturn⟩ := runFrom_bind_eq_ok.1 hrun
  obtain ⟨_, hscope⟩ := runFrom_of_withScope hscope
  constructor
  · obtain ⟨_, _, ha, hbody⟩ := (confined_scoped.bindParameters d.params params).inside_bind
      ⟨rfl, List.cons_ne_nil _ _, rfl, rfl⟩ hscope
    exact disciplined_of_block d.body ha hbody
  · have hguard := runFrom_of_failIf hreturn
    simpa using hguard

/-- Declaring members leaves the classes that are known as they are. -/
lemma Chain.sameClasses {ms : List (String × Member)} {ks : List (String × MemberPlan)}
    {g h : Table} (hchain : Chain Declares ms ks g h) :
    Scopes.SameClasses { global := h } { global := g } := by
  induction hchain with
  | nil g => exact fun _ => rfl
  | cons hfirst _ ih =>
    obtain ⟨-, -, c, hc, -, rfl⟩ := hfirst
    exact fun n => (ih n).trans (sameClasses_insert hc _ n)

/-- After all declarations a member still has the types that it was declared with. -/
lemma Chain.exists_plan {ms : List (String × Member)} {ks : List (String × MemberPlan)}
    {g h : Table} (hchain : Chain Declares ms ks g h) {item : String × Member} (hitem : item ∈ ms) :
    ∃ plan, (item.1, plan) ∈ ks ∧ item.2.plan { global := h } = .ok plan := by
  induction hchain with
  | nil g => cases hitem
  | cons hfirst hrest ih =>
    rcases List.mem_cons.1 hitem with rfl | hitem
    · have hclasses := (hrest.cons hfirst).sameClasses
      obtain ⟨hname, hplan, -⟩ := hfirst
      rw [hname, plan_of_sameClasses hclasses]
      exact ⟨_, List.mem_cons_self, hplan⟩
    · obtain ⟨plan, hmem, hplan⟩ := ih hitem
      exact ⟨plan, List.mem_cons_of_mem _ hmem, hplan⟩

end Check

/-! ## Accepted programs -/

/-- The plan of a method has the result type that is written at it. -/
lemma Member.plan_method_eq_ok {s : Scopes} {d : MethodDecl} {plan : MemberPlan}
    (h : (Member.method d).plan s = .ok plan) :
    ∃ result params, plan = .method d result params ∧
      Typing.resolveType s d.line d.returnType = .ok result := by
  simp only [Member.plan] at h
  cases hresult : Typing.resolveType s d.line d.returnType with
  | error e =>
    rw [hresult] at h
    cases h
  | ok result =>
    rw [hresult] at h
    cases hparams : Check.parameterTypes s d.params with
    | error e =>
      rw [hparams] at h
      cases h
    | ok params =>
      rw [hparams] at h
      cases h
      exact ⟨result, params, rfl, rfl⟩

/-- An analysis without errors leaves behind what the check leaves that fails fast. -/
lemma Analyzer.passes_of_accepted {a : Analyzer} {p : Program} (haccepted : (a.analyze p).1 = []) :
    ∃ b, (Check.program p).runFrom (.resting Builtin.globals) = (.ok (), b) ∧
      (a.analyze p).2.scopes = b.scopes := by
  have hfast : p.errors true = [] := (p.errors_eq_nil_iff_failFast a.failFast).1 haccepted
  obtain ⟨b, hrun⟩ := p.errors_failFast_eq_nil_iff.1 hfast
  refine ⟨b, hrun, ?_⟩
  have hcompare := (Check.agrees_program p).compare {}
  have hstart : Analyzer.inMode {} true = .resting Builtin.globals := rfl
  rw [hstart, hrun] at hcompare
  have hfull : Analyzer.inMode {} false = { failFast := false } := rfl
  rw [hfull] at hcompare
  have hboth : ∃ c : Analyzer, c.scopes = b.scopes ∧
      (Check.program p).runFrom { failFast := a.failFast } = (.ok (), c) := by
    cases a.failFast with
    | true => exact ⟨b, rfl, hrun⟩
    | false =>
      generalize (Check.program p).runFrom { failFast := false } = full at hcompare
      cases hcompare with
      | none _ _ => exact ⟨Analyzer.inMode _ false, rfl, rfl⟩
  obtain ⟨c, hc, hrun⟩ := hboth
  rw [analyze, hrun]
  exact hc

/-- The methods of an accepted program passed their checks with the result types that are written
at them. -/
lemma Analyzer.exists_bodyPasses {a : Analyzer} {p : Program} (haccepted : (a.analyze p).1 = [])
    {d : MethodDecl} (hd : d ∈ p.methods) :
    ∃ result params g name,
      Typing.resolveType (a.analyze p).2.scopes d.line d.returnType = .ok result ∧
        Check.BodyPasses g name (.method d result params) := by
  obtain ⟨b, hrun, hscopes⟩ := passes_of_accepted haccepted
  obtain ⟨ks, items, g', g, rfl, -, hdeclares, hbodies⟩ := (Check.program_eq_ok p _).1 hrun
  obtain ⟨c, hc, hd⟩ := List.mem_flatMap.1 hd
  have hitem : (c.name, Member.method d) ∈ Check.memberItems p.classes :=
    List.mem_flatMap.2 ⟨c, hc, List.mem_map_of_mem (ClassDecl.mem_methods.1 hd)⟩
  obtain ⟨_, hplanned, hplan⟩ := hdeclares.exists_plan hitem
  obtain ⟨result, params, rfl, hresult⟩ := Member.plan_method_eq_ok hplan
  refine ⟨result, params, g, c.name, ?_, hbodies _ hplanned⟩
  rw [hscopes]
  exact hresult

/-- **A method with a result never falls off its end.** The result type of each method of an
accepted program is known. No execution of the method jumps out of it. If the type is not `void`,
every execution that ends does so by returning a value, and if it is, none returns one.

**Proof sketch.** The check of the body passed with no construct around it, so that every jump stays
inside, and every return fits the result type. A method with a result has a return on each way
through it besides, so that no execution goes on behind it. -/
theorem Analyzer.accepted_method_never_falls_off (a : Analyzer) (p : Program)
    (haccepted : (a.analyze p).1 = []) (d : MethodDecl) (hd : d ∈ p.methods) :
    ∃ result, Typing.resolveType (a.analyze p).2.scopes d.line d.returnType = .ok result ∧
      ∀ o, d.body.Ends o → o ≠ .broke ∧ o ≠ .continued ∧
        (result ≠ .void → o = .returned true) ∧ (result = .void → o ≠ .returned true) := by
  obtain ⟨result, params, g, name, hresult, hpasses⟩ := exists_bodyPasses haccepted hd
  obtain ⟨hdisciplined, hreturn⟩ := hpasses.disciplined
  refine ⟨result, hresult, fun o ho => ?_⟩
  have hpermitted := ho.permitted hdisciplined
  cases o with
  | normal =>
    have hvoid : result = .void := by
      by_contra hne
      exact ho.ne_normal (hreturn hne) rfl
    simp [hvoid]
  | broke => exact absurd rfl hpermitted
  | continued => cases hpermitted
  | returned hasValue =>
    have hfits : hasValue = true ↔ result ≠ .void := hpermitted
    refine ⟨by simp, by simp, fun hne => by rw [hfits.2 hne], ?_⟩
    rintro hvoid ⟨⟩
    exact hfits.1 rfl hvoid

namespace Sample

/-- A loop around a switch that leaves the one, the other and the method. -/
def search : Stmt :=
  .whileLoop 2 (.literal 2 ⟨.boolean true, "true"⟩) <| .mk 2
    [.switch 3 (.var 3 "n")
      [.labelled 4 (.literal 4 ⟨.int 0, "0"⟩) (.mk 4 [.continueOn 4]),
        .labelled 5 (.literal 5 ⟨.int 1, "1"⟩) (.mk 5 [.ret 5 (some (.var 5 "n"))]),
        .otherwise 6 (.mk 6 [.breakOff 6])],
      .breakOff 7]

/-- A method with a result that returns behind a loop, on either branch. -/
def find : MethodDecl :=
  { name := "find"
    returnType := .simple "int"
    params := [{ name := "n", type := .simple "int", line := 1 }]
    body := .mk 1 [search,
      .ifElse 8 (.literal 8 ⟨.boolean true, "true"⟩) (.mk 8 [.ret 8 (some (.var 8 "n"))])
        (.mk 9 [.ret 9 (some (.literal 9 ⟨.int 0, "0"⟩))])]
    isStatic := false
    line := 1 }

/-- A program with this method. -/
def finder : Program :=
  { classes := [{ name := "Finder", members := [.method find], line := 1 }], line := 1 }

end Sample

/-- A method with a loop, a switch and a return on either branch behind them is accepted, and always
comes to a return with a value. -/
theorem Analyzer.accepted_method_never_falls_off_sample :
    (Analyzer.analyze {} Sample.finder).1 = [] ∧ Sample.find ∈ Sample.finder.methods ∧
      ∃ result, Typing.resolveType (Analyzer.analyze {} Sample.finder).2.scopes 1 (.simple "int") =
          .ok result ∧
        ∀ o, Sample.find.body.Ends o → o ≠ .broke ∧ o ≠ .continued ∧
          (result ≠ .void → o = .returned true) ∧ (result = .void → o ≠ .returned true) := by
  have haccepted : (Analyzer.analyze {} Sample.finder).1 = [] := by rfl
  have hfind : Sample.find ∈ Sample.finder.methods := List.mem_singleton.2 rfl
  exact ⟨haccepted, hfind, accepted_method_never_falls_off {} _ haccepted _ hfind⟩

end ClassLang
