import ClassLang.Scope.Stack
import ClassLang.Ty.Basic

/-!
# Control context

Which loops and switches enclose the statement at hand, and what the method around it returns.

## Main definitions

* `ClassLang.Context`: the enclosing constructs.
* `ClassLang.Context.canBreak`, `ClassLang.Context.canContinue`: what they allow.
* `ClassLang.Mark`: the depths to which a failed statement is undone.
-/

set_option autoImplicit false

namespace ClassLang

/-- Constructs that a jump may leave or continue. -/
inductive Enclosure where
  | loop
  | switch
  deriving DecidableEq

/-- The constructs around a statement, the innermost first. -/
structure Context where
  enclosures : List Enclosure := []
  /-- The types of the conditions of the enclosing switches. -/
  switchTypes : List Ty := []
  /-- The result type of the method at hand. -/
  returnType : Option Ty := none
  deriving DecidableEq

/-- Depths of the scopes and of the context at some point of a check. -/
structure Mark where
  scopeDepth : Nat
  enclosures : Nat
  switchTypes : Nat
  deriving DecidableEq

namespace Context

/-- Enters a construct. -/
def push (c : Context) (enclosure : Enclosure) : Context :=
  { c with enclosures := enclosure :: c.enclosures }

/-- Leaves the innermost construct. -/
def pop (c : Context) : Context :=
  { c with enclosures := c.enclosures.tail }

/-- Enters a switch over values of a type. -/
def pushSwitch (c : Context) (type : Ty) : Context :=
  { c.push .switch with switchTypes := type :: c.switchTypes }

/-- Leaves the innermost switch. -/
def popSwitch (c : Context) : Context :=
  { c.pop with switchTypes := c.switchTypes.tail }

/-- The type of the condition of the innermost switch. -/
def switchType? (c : Context) : Option Ty :=
  c.switchTypes.head?

/-- Whether a `break` has something to leave. -/
def canBreak (c : Context) : Bool :=
  !c.enclosures.isEmpty

/-- Whether a `continue` has a loop to go on with. -/
def canContinue (c : Context) : Bool :=
  c.enclosures.contains .loop

/-- The depths of the context, with a depth of scopes. -/
def mark (c : Context) (scopeDepth : Nat) : Mark :=
  { scopeDepth, enclosures := c.enclosures.length, switchTypes := c.switchTypes.length }

/-- Goes back to the depths of a mark. -/
def restore (c : Context) (m : Mark) : Context :=
  { c with
    enclosures := Stack.truncate m.enclosures c.enclosures
    switchTypes := Stack.truncate m.switchTypes c.switchTypes }

end Context

end ClassLang
