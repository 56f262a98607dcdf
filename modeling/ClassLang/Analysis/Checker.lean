import ClassLang.Analysis.Context
import ClassLang.Analysis.Typing

/-!
# The state of a check

A check of a program goes through its statements with the open scopes and the enclosing
constructs at hand. In the usual mode an error ends the statement in which it is met: the scopes
and constructs that it had opened are closed, the error is kept, and the check goes on. When
failing fast, the first error ends the whole check.

## Main definitions

* `ClassLang.Analyzer`: the state.
* `ClassLang.Check`: computations on the state that may end with an error.
* `ClassLang.Check.attempt`: runs a check of which errors are recovered from.
-/

set_option autoImplicit false

namespace ClassLang

/-- The state of a check. -/
structure Analyzer where
  scopes : Scopes := { global := Builtin.globals }
  context : Context := {}
  /-- The errors kept so far, the oldest first. -/
  errors : List SemanticError := []
  failFast : Bool := false

/-- Computations on the state of a check. An error keeps the state in which it was met. -/
abbrev Check (α : Type) := ExceptT SemanticError (StateM Analyzer) α

namespace Check

/-- The result of a check from a state, and the state after it. -/
def runFrom {α : Type} (p : Check α) (a : Analyzer) : Except SemanticError α × Analyzer :=
  p.run.run a

/-- An error under a line. -/
def fail {α : Type} (line : Nat) (cause : SemanticError.Cause) : Check α :=
  throw ⟨cause, line⟩

/-- Evaluates a function of the scopes at hand. -/
def inScopes {α : Type} (f : Scopes → Typing.Typed α) : Check α := do
  match f (← get).scopes with
  | .ok value => return value
  | .error e => throw e

/-- Changes the scopes. -/
def modifyScopes (f : Scopes → Scopes) : Check Unit :=
  modify fun a => { a with scopes := f a.scopes }

/-- Changes the context. -/
def modifyContext (f : Context → Context) : Check Unit :=
  modify fun a => { a with context := f a.context }

/-- Keeps an error for the report, or ends the check with it when failing fast. -/
def record (e : SemanticError) : Check Unit := do
  if (← get).failFast then throw e
  modify fun a => { a with errors := a.errors ++ [e] }

/-- The depths at hand. -/
def mark : Check Mark := do
  let a ← get
  return a.context.mark a.scopes.depth

/-- Goes back to earlier depths and records an error. -/
def recover (m : Mark) (e : SemanticError) : Check Unit := do
  modifyScopes fun s => s.truncate m.scopeDepth
  modifyContext fun c => c.restore m
  record e

/-- Runs a check; if it ends with an error, recovers from it. -/
def attempt (p : Check Unit) : Check Unit := do
  let m ← mark
  tryCatch p (recover m)

/-- Runs a check in a block scope of its own. -/
def withScope (p : Check Unit) : Check Unit := do
  modifyScopes Scopes.push
  p
  modifyScopes Scopes.pop

/-- Runs a check inside a loop. -/
def withLoop (p : Check Unit) : Check Unit := do
  modifyContext fun c => c.push .loop
  p
  modifyContext Context.pop

/-- Runs a check inside a switch over values of a type. -/
def withSwitch (type : Ty) (p : Check Unit) : Check Unit := do
  modifyContext fun c => c.pushSwitch type
  p
  modifyContext Context.popSwitch

end Check

end ClassLang
