import ClassLang.Syntax.Expr

/-!
# Statements

## Main definitions

* `ClassLang.Stmt`, `ClassLang.Block`, `ClassLang.SwitchArm`: statements, blocks of statements and
  the arms of a switch.
-/

set_option autoImplicit false

namespace ClassLang

/-- The declaration of a local variable. -/
structure VarDecl where
  name : String
  type : TypeExpr
  init : Option Expr
  line : Nat

/-- The first clause of a `for` loop. -/
inductive ForInit where
  | decl (decl : VarDecl)
  | expr (value : Expr)

mutual

/-- Statements. -/
inductive Stmt where
  | varDecl (decl : VarDecl)
  | block (body : Block)
  | ifThen (line : Nat) (condition : Expr) (thenBranch : Block)
  | ifElse (line : Nat) (condition : Expr) (thenBranch elseBranch : Block)
  | whileLoop (line : Nat) (condition : Expr) (body : Block)
  | doWhile (line : Nat) (body : Block) (condition : Expr)
  | forLoop (line : Nat) (init : Option ForInit) (condition update : Option Expr) (body : Block)
  | switch (line : Nat) (condition : Expr) (arms : List SwitchArm)
  | ret (line : Nat) (value : Option Expr)
  | expr (value : Expr)
  | breakOff (line : Nat)
  | continueOn (line : Nat)

/-- A block of statements. -/
inductive Block where
  | mk (line : Nat) (stmts : List Stmt)

/-- An arm of a switch: a case with its label, or the default. -/
inductive SwitchArm where
  | labelled (line : Nat) (label : Expr) (body : Block)
  | otherwise (line : Nat) (body : Block)

end

namespace Block

/-- The line of a block. -/
def line : Block → Nat
  | mk line _ => line

/-- The statements of a block. -/
def stmts : Block → List Stmt
  | mk _ stmts => stmts

end Block

namespace SwitchArm

/-- The line of an arm. -/
def line : SwitchArm → Nat
  | labelled line _ _ | otherwise line _ => line

/-- The label of a case; the default arm has none. -/
def label? : SwitchArm → Option Expr
  | labelled _ label _ => some label
  | otherwise _ _ => none

/-- The statements of an arm. -/
def body : SwitchArm → Block
  | labelled _ _ body | otherwise _ body => body

end SwitchArm

namespace Stmt

/-- The line under which a statement is reported. -/
def line : Stmt → Nat
  | varDecl decl => decl.line
  | block body => body.line
  | expr value => value.line
  | ifThen line _ _ | ifElse line _ _ _ | whileLoop line _ _ | doWhile line _ _
  | forLoop line _ _ _ _ | switch line _ _ | ret line _ | breakOff line | continueOn line => line

/-- Whether the statement declares a variable. -/
def isVarDecl : Stmt → Bool
  | varDecl _ => true
  | _ => false

end Stmt

end ClassLang
