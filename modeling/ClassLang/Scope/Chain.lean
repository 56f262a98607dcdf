import ClassLang.Scope.Stack
import ClassLang.Scope.Symbol

/-!
# Scope chains

A name is looked up in the open block scopes from the innermost one outwards, then among the
members of the class at hand, then in the global scope.

## Main definitions

* `ClassLang.Scopes`: the chain.
* `ClassLang.Scopes.resolve`, `ClassLang.Scopes.resolveMember`, `ClassLang.Scopes.resolveHere`:
  looking up a name, with and without the block scopes, and in the innermost scope only.
* `ClassLang.Scopes.define`, `ClassLang.Scopes.defineMember`: binding a name.
-/

set_option autoImplicit false

namespace ClassLang

/-- Scopes from the global one to the innermost block. -/
structure Scopes where
  global : Table
  /-- The name of the class at hand. -/
  currentClass : Option String := none
  /-- The open block scopes, the innermost first. -/
  locals : List Table := []

namespace Scopes

/-- Opens a block scope. -/
def push (s : Scopes) : Scopes :=
  { s with locals := [] :: s.locals }

/-- Closes the innermost block scope. -/
def pop (s : Scopes) : Scopes :=
  { s with locals := s.locals.tail }

/-- The number of open block scopes. -/
def depth (s : Scopes) : Nat :=
  s.locals.length

/-- Closes block scopes until at most `depth` are open. -/
def truncate (s : Scopes) (depth : Nat) : Scopes :=
  { s with locals := Stack.truncate depth s.locals }

/-- Enters a class. -/
def enterClass (s : Scopes) (name : String) : Scopes :=
  { s with currentClass := some name }

/-- Leaves the class at hand with all its block scopes. -/
def leaveClass (s : Scopes) : Scopes :=
  { s with currentClass := none, locals := [] }

/-- The class of a given name. -/
def class? (s : Scopes) (name : String) : Option ClassInfo :=
  s.global.get? name >>= Symbol.class?

/-- The members of the class at hand. -/
def currentMembers? (s : Scopes) : Option Table := do
  let name ← s.currentClass
  let c ← s.class? name
  return c.members

/-- The innermost scope: a block, else the class at hand, else the global scope. -/
def currentTable (s : Scopes) : Table :=
  match s.locals with
  | table :: _ => table
  | [] => s.currentMembers?.getD s.global

/-- Looks up a name in the innermost scope only. -/
def resolveHere (s : Scopes) (name : String) : Option Symbol :=
  s.currentTable.get? name

/-- Looks up a name among the members of the class at hand, then globally. -/
def resolveMember (s : Scopes) (name : String) : Option Symbol :=
  (s.currentMembers?.bind fun members => members.get? name) <|> s.global.get? name

/-- Looks up a name from the innermost scope outwards. -/
def resolve (s : Scopes) (name : String) : Option Symbol :=
  (s.locals.findSome? fun table => table.get? name) <|> s.resolveMember name

/-- Binds a name globally. -/
def defineGlobal (s : Scopes) (symbol : Symbol) : Scopes :=
  { s with global := s.global.insert symbol }

/-- Binds a name in the innermost block scope, or globally if none is open. -/
def define (s : Scopes) (symbol : Symbol) : Scopes :=
  match s.locals with
  | table :: outer => { s with locals := table.insert symbol :: outer }
  | [] => s.defineGlobal symbol

/-- What a definition of the name would replace. -/
def replacedBy (s : Scopes) (symbol : Symbol) : Option Symbol :=
  (s.locals.headD s.global).get? symbol.name

/-- Binds a member of a class. There is no result if the class is unknown. -/
def defineMember (s : Scopes) (className : String) (symbol : Symbol) : Option Scopes := do
  let c ← s.class? className
  return s.defineGlobal (.classDef className c.typeParams (c.members.insert symbol))

end Scopes

end ClassLang
