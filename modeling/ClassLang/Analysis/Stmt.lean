import ClassLang.Analysis.Checker
import ClassLang.Syntax.Stmt

/-!
# Checks of statements

## Main definitions

* `ClassLang.Check.stmt`, `ClassLang.Check.stmts`, `ClassLang.Check.block`: the checks of a
  statement, of a list of them, each recovered from, and of a block in a scope of its own.
* `ClassLang.Block.hasReturn`: whether a block returns on every way through its blocks and
  branches.
-/

set_option autoImplicit false

namespace ClassLang

mutual

/-- Whether a statement returns. A branch does if both its sides do; loops and switches never
do. -/
def Stmt.hasReturn : Stmt → Bool
  | .ret _ _ => true
  | .block body => body.hasReturn
  | .ifElse _ _ thenBranch elseBranch => thenBranch.hasReturn && elseBranch.hasReturn
  | _ => false

/-- Whether some statement of a block returns. -/
def Block.hasReturn : Block → Bool
  | .mk _ stmts => anyHasReturn stmts

/-- Whether some statement of a list returns. -/
def anyHasReturn : List Stmt → Bool
  | [] => false
  | s :: ss => s.hasReturn || anyHasReturn ss

end

namespace Check

/-- The type of an expression in the scopes at hand. -/
def typeOf (e : Expr) : Check Ty :=
  inScopes fun s => Typing.typeOf s e

/-- Checks a declaration. The variable is known in its own initial value. -/
def varDecl (d : VarDecl) : Check Unit := do
  let type ← inScopes fun s => Typing.resolveType s d.line d.type
  if ((← get).scopes.resolveHere d.name).isSome then fail d.line (.variableRedefined d.name)
  modifyScopes fun s => s.define (.var d.name type)
  match d.init with
  | none => return
  | some init => inScopes fun s => Typing.checkInitializer s type .var init

/-- Checks the condition of a statement. -/
def condition (construct : Conditional) (e : Expr) : Check Unit := do
  let found ← typeOf e
  if found ≠ .boolean then fail e.line (.nonBooleanCondition construct found)

/-- Checks the first clause of a `for` loop. -/
def forInit : Option ForInit → Check Unit
  | none => return
  | some (.decl d) => varDecl d
  | some (.expr e) => do
    let _ ← typeOf e

/-- Checks the second clause of a `for` loop. -/
def forCondition : Option Expr → Check Unit
  | none => return
  | some e => condition .forLoop e

/-- Checks the third clause of a `for` loop. -/
def forUpdate : Option Expr → Check Unit
  | none => return
  | some e => do
    let _ ← typeOf e

/-- Checks a `return` against the result type of the method at hand. -/
def ret (line : Nat) (value : Option Expr) : Check Unit := do
  let expected := (← get).context.returnType.getD .void
  match value with
  | some e =>
    let found ← inScopes fun s => Typing.typeExpecting s e expected
    if expected = .void then fail e.line .returnValueFromVoid
    if !found.isCompatibleWith expected then fail e.line (.returnTypeMismatch found expected)
  | none =>
    if expected ≠ .void then fail line (.missingReturnValue expected)

/-- What is known of the arms of a switch before the next one. -/
structure ArmsSeen where
  /-- The texts of the labels. -/
  labels : List String := []
  hasDefault : Bool := false

/-- Whether a label may stand in a switch over values of type `type`. -/
def acceptsLabel (s : Scopes) (type : Ty) (label : Expr) : Bool :=
  match Typing.typeOf s label with
  | .ok found => found.isCompatibleWith type
  | .error _ => false

/-- What is known after an arm. A label that is not accepted leaves no trace. -/
def ArmsSeen.after (seen : ArmsSeen) (s : Scopes) (type : Ty) : SwitchArm → ArmsSeen
  | .labelled _ label _ =>
    match label with
    | .literal _ l =>
      if acceptsLabel s type label then { seen with labels := l.text :: seen.labels } else seen
    | _ => seen
  | .otherwise _ _ => { seen with hasDefault := true }

/-- Checks that a label has a type that goes with the switch. -/
def label (line : Nat) (type : Ty) (e : Expr) : Check Unit := do
  let found ← typeOf e
  if !found.isCompatibleWith type then fail line (.incompatibleCase found type)

/-- Checks that the text of a label is new. -/
def freshLabel (line : Nat) (seen : ArmsSeen) : Expr → Check Unit
  | .literal _ l => if l.text ∈ seen.labels then fail line (.duplicateCase l.text) else return
  | _ => return

mutual

/-- Checks a statement. -/
def stmt : Stmt → Check Unit
  | .varDecl d => varDecl d
  | .block body => block body
  | .ifThen _ c thenBranch => do
    condition .ifStmt c
    block thenBranch
  | .ifElse _ c thenBranch elseBranch => do
    condition .ifStmt c
    block thenBranch
    block elseBranch
  | .whileLoop _ c body | .doWhile _ body c => do
    condition .whileLoop c
    withLoop (block body)
  | .forLoop _ init c update body =>
    withScope do
      forInit init
      forCondition c
      forUpdate update
      withLoop (block body)
  | .switch line c cases => do
    let type ← typeOf c
    if type ≠ .int && type ≠ .char then fail line .invalidSwitchType
    withSwitch type (arms type {} cases)
  | .ret line value => ret line value
  | .expr e => do
    let _ ← typeOf e
  | .breakOff line => do
    if !(← get).context.canBreak then fail line .breakOutsideLoop
  | .continueOn line => do
    if !(← get).context.canContinue then fail line .continueOutsideLoop

/-- Checks statements one after the other, recovering from the errors of each. -/
def stmts : List Stmt → Check Unit
  | [] => return
  | s :: ss => do
    attempt (stmt s)
    stmts ss

/-- Checks a block in a scope of its own. -/
def block : Block → Check Unit
  | .mk _ ss => withScope (stmts ss)

/-- Checks an arm of a switch. -/
def arm (type : Ty) (seen : ArmsSeen) : SwitchArm → Check Unit
  | .labelled line e body => do
    label line type e
    block body
    freshLabel line seen e
  | .otherwise line body => do
    if seen.hasDefault then fail line .multipleDefaults
    block body

/-- Checks the arms of a switch, recovering from the errors of each. -/
def arms (type : Ty) (seen : ArmsSeen) : List SwitchArm → Check Unit
  | [] => return
  | first :: rest => do
    attempt (arm type seen first)
    arms type (seen.after (← get).scopes type first) rest

end

end Check

end ClassLang
