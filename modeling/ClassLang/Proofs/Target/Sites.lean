import ClassLang.Analysis.Program
import ClassLang.Target.SourceUnit

set_option autoImplicit false

/-!
# Where expressions stand

The check and the generator go through the bodies of a program with names in scope, and each keeps
them in its own way. A site is what both of them have at hand at one point of a program. The sites
of expressions are found by going through the program as both do: opening a scope for each block,
and declaring each variable in both. There are two differences. The check knows a variable in its
own initial value already, and it knows the parameters of the entry point. At such sites these names
are hidden from the generator.

## Main definitions

* `ClassLang.Target.Site` — what the check and the generator have at hand.
* `ClassLang.Program.occurrences` — the expressions of a program with their sites.
-/

namespace ClassLang

/-- Binds a name to what a written type stands for. -/
def Scopes.bindTyped (s : Scopes) (name : String) (line : Nat) (type : TypeExpr) : Scopes :=
  match Typing.resolveType s line type with
  | .ok t => s.define (.var name t)
  | .error _ => s

/-- Binds parameters. -/
def Scopes.bindParams (s : Scopes) : List Parameter → Scopes
  | [] => s
  | q :: qs => (s.bindTyped q.name q.line q.type).bindParams qs

namespace Target

/-- A point of a program, with the scopes of the check and the names of the generator. -/
structure Site where
  scopes : Scopes
  env : Env
  /-- Local names of the check that the generator does not know, or takes for other names. -/
  hidden : List String := []

/-- An expression with its site. -/
abbrev Occurrence := Site × Expr

namespace Site

/-- Inside a class of a program, from the scopes that the check leaves behind. -/
def ofClass (s : Scopes) (p : Program) (c : String) : Site where
  scopes := s.enterClass c
  env := .ofProgram p

/-- Inside a block. -/
def push (w : Site) : Site :=
  { w with scopes := w.scopes.push, env := w.env.push }

/-- Inside a declaration: the check knows the variable already. -/
def within (w : Site) (d : VarDecl) : Site :=
  { w with
    scopes := w.scopes.bindTyped d.name d.line d.type
    hidden := d.name :: w.hidden }

/-- After a declaration: both know the variable. -/
def declare (w : Site) (d : VarDecl) : Site where
  scopes := w.scopes.bindTyped d.name d.line d.type
  env := w.env.declare d.name d.type
  hidden := w.hidden.filter (· ≠ d.name)

/-- After a statement. -/
def after (w : Site) : Stmt → Site
  | .varDecl d => w.declare d
  | _ => w

/-- After the first clause of a `for` loop. -/
def afterInit (w : Site) : Option ForInit → Site
  | some (.decl d) => w.declare d
  | _ => w

/-- On the other side of a branch. The generator opens no scope for a branch alone in its block. -/
def otherwise (w : Site) : List Stmt → Site
  | [s] => if isBranch s then { w.push with env := w.env } else w.push
  | _ => w.push

/-- Inside the body of a method. Its parameters are in a scope around it, but the generator declares
them in one scope with the body, and those of the entry point in none. -/
def enter (w : Site) (d : MethodDecl) : Site where
  scopes := (w.scopes.push.bindParams d.params).push
  env := w.env.enter d
  hidden := if d.name = entryPoint then d.params.map Parameter.name else []

/-- The initial value of a slot. The elements in braces for an array are looked at one by one, as
the braces have no type of their own. -/
def initial (w : Site) (type : TypeExpr) : Option Expr → List Occurrence
  | none => []
  | some (.arrayInit line elements) =>
    if type.dimensions = 0 then [(w, .arrayInit line elements)] else elements.map fun e => (w, e)
  | some e => [(w, e)]

/-- An expression that may be missing. -/
def optional (w : Site) (e : Option Expr) : List Occurrence :=
  e.toList.map fun e => (w, e)

/-- The first clause of a `for` loop. -/
def first (w : Site) : Option ForInit → List Occurrence
  | none => []
  | some (.decl d) => (w.within d).initial d.type d.init
  | some (.expr e) => [(w, e)]

mutual

/-- The expressions of a statement. -/
def inStmt (w : Site) : Stmt → List Occurrence
  | .varDecl d => (w.within d).initial d.type d.init
  | .block body => w.inBlock body
  | .ifThen _ c thenBranch => (w, c) :: w.inBlock thenBranch
  | .ifElse _ c thenBranch elseBranch => (w, c) :: (w.inBlock thenBranch ++ w.inElse elseBranch)
  | .whileLoop _ c body | .doWhile _ body c => (w, c) :: w.inBlock body
  | .forLoop _ init c update body =>
    let inner := w.push.afterInit init
    w.push.first init ++ (inner.optional c ++ (inner.optional update ++ inner.inBlock body))
  | .switch _ c arms => (w, c) :: w.inArms arms
  | .ret _ value => w.optional value
  | .expr e => [(w, e)]
  | .breakOff _ | .continueOn _ => []

/-- The expressions of statements one after the other. -/
def inStmts (w : Site) : List Stmt → List Occurrence
  | [] => []
  | s :: ss => w.inStmt s ++ (w.after s).inStmts ss

/-- The expressions of a block. -/
def inBlock (w : Site) : Block → List Occurrence
  | .mk _ ss => w.push.inStmts ss

/-- The expressions of the other side of a branch. -/
def inElse (w : Site) : Block → List Occurrence
  | .mk _ ss => (w.otherwise ss).inStmts ss

/-- The expressions of an arm of a switch. -/
def inArm (w : Site) : SwitchArm → List Occurrence
  | .labelled _ label body => (w, label) :: w.inBlock body
  | .otherwise _ body => w.inBlock body

/-- The expressions of the arms of a switch. -/
def inArms (w : Site) : List SwitchArm → List Occurrence
  | [] => []
  | arm :: arms => w.inArm arm ++ w.inArms arms

end

/-- The expressions of a member of a class. -/
def inMember (w : Site) : Member → List Occurrence
  | .field d => w.initial d.type d.init
  | .method d => (w.enter d).inStmts d.body.stmts

end Site

end Target

open Target

/-- The expressions of a program with their sites, from the scopes that its check leaves behind. -/
def Program.occurrences (p : Program) (s : Scopes) : List Occurrence :=
  p.classes.flatMap fun c => c.members.flatMap (Site.ofClass s p c.name).inMember

end ClassLang
