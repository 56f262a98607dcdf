import ClassLang.Analysis.Stmt
import ClassLang.Syntax.Program

/-!
# Checks of programs

A program is checked in three passes: all classes are declared, then all members of all classes,
then the initial values of fields and the bodies of methods are checked. So classes and members
may be used before they are declared.

## Main definitions

* `ClassLang.Analyzer.analyze`: the errors of a program, and the state left by its check.
* `ClassLang.Program.errors`: the errors of a program.
-/

set_option autoImplicit false

namespace ClassLang

/-- A member whose declaration is in order and whose body is still to be checked. -/
inductive MemberPlan where
  | field (decl : FieldDecl) (type : Ty)
  | method (decl : MethodDecl) (result : Ty) (params : List (String × Ty))

namespace Check

/-- Declares classes. The result are those of them whose names were free. -/
def declareClasses : List ClassDecl → Check (List ClassDecl)
  | [] => return []
  | c :: cs => do
    if ((← get).scopes.global.get? c.name).isSome then
      record ⟨.classRedefined c.name, c.line⟩
      declareClasses cs
    else
      modifyScopes fun s => s.defineGlobal (.classDef c.name [] [])
      return c :: (← declareClasses cs)

/-- Whether a class has a member of a given name. -/
def hasMember (s : Scopes) (className name : String) : Bool :=
  (s.class? className).any fun c => (c.members.get? name).isSome

/-- Binds a member of a class. -/
def defineMember (line : Nat) (className : String) (symbol : Symbol) : Check Unit := do
  match (← get).scopes.defineMember className symbol with
  | some scopes => modifyScopes fun _ => scopes
  | none => fail line (.classNotFound className)

/-- The names and types of parameters. -/
def parameters : List Parameter → Check (List (String × Ty))
  | [] => return []
  | p :: ps => do
    let type ← inScopes fun s => Typing.resolveType s p.line p.type
    return (p.name, type) :: (← parameters ps)

/-- Declares a member of a class. -/
def declareMember (className : String) : Member → Check MemberPlan
  | .field d => do
    let type ← inScopes fun s => Typing.resolveType s d.line d.type
    if hasMember (← get).scopes className d.name then fail d.line (.fieldRedefined d.name)
    defineMember d.line className (.var d.name type)
    return .field d type
  | .method d => do
    let result ← inScopes fun s => Typing.resolveType s d.line d.returnType
    let params ← parameters d.params
    if hasMember (← get).scopes className d.name then
      fail d.line (.methodRedefined d.name className)
    defineMember d.line className (.function d.name result params d.isStatic)
    return .method d result params

/-- Declares members of a class. The result are those of them that are in order. -/
def declareMembers (className : String) : List Member → Check (List MemberPlan)
  | [] => return []
  | m :: ms => do
    let plan ← tryCatch (some <$> declareMember className m) fun e => do
      record e
      return none
    return plan.toList ++ (← declareMembers className ms)

/-- Declares the members of classes. -/
def declareAllMembers : List ClassDecl → Check (List (ClassDecl × List MemberPlan))
  | [] => return []
  | c :: cs => do
    let plans ← declareMembers c.name c.members
    return (c, plans) :: (← declareAllMembers cs)

/-- Binds the parameters of a method in the innermost scope. -/
def bindParameters : List Parameter → List (String × Ty) → Check Unit
  | p :: ps, (name, type) :: rest => do
    if ((← get).scopes.resolveHere name).isSome then fail p.line (.variableRedefined name)
    modifyScopes fun s => s.define (.var name type)
    bindParameters ps rest
  | _, _ => return

/-- Checks the body of a method. Its parameters have a scope of their own around it. -/
def methodBody (d : MethodDecl) (result : Ty) (params : List (String × Ty)) : Check Unit := do
  modifyContext fun c => { c with returnType := some result }
  withScope do
    bindParameters d.params params
    block d.body
  modifyContext fun c => { c with returnType := none }
  if result ≠ .void && !d.body.hasReturn then fail d.line (.missingReturn d.name)

/-- Checks the initial value of a field, or the body of a method. -/
def memberBody : MemberPlan → Check Unit
  | .field d type =>
    match d.init with
    | none => return
    | some init => inScopes fun s => Typing.checkInitializer s type .field init
  | .method d result params => methodBody d result params

/-- Checks the bodies of members, recovering from the errors of each. -/
def memberBodies : List MemberPlan → Check Unit
  | [] => return
  | plan :: plans => do
    let m ← mark
    tryCatch (memberBody plan) fun e => do
      modifyContext fun c => { c with returnType := none }
      recover m e
    memberBodies plans

/-- Checks the bodies of the members of classes. -/
def classBodies : List (ClassDecl × List MemberPlan) → Check Unit
  | [] => return
  | (c, plans) :: rest => do
    modifyScopes fun s => s.enterClass c.name
    memberBodies plans
    modifyScopes Scopes.leaveClass
    classBodies rest

/-- Checks a program. -/
def program (p : Program) : Check Unit := do
  let classes ← declareClasses p.classes
  let plans ← declareAllMembers classes
  classBodies plans

end Check

/-- Checks a program from scratch: the errors in the order in which they were met, and the state
after the check. -/
def Analyzer.analyze (a : Analyzer) (p : Program) : List SemanticError × Analyzer :=
  match (Check.program p).runFrom { failFast := a.failFast } with
  | (.ok _, after) => (after.errors, { after with errors := [] })
  | (.error e, after) => (after.errors ++ [e], { after with errors := [] })

/-- The errors of a program; at most one when failing fast. -/
def Program.errors (p : Program) (failFast : Bool) : List SemanticError :=
  (Analyzer.analyze { failFast } p).1

end ClassLang
