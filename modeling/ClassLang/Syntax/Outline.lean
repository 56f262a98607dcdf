import ClassLang.Syntax.Program

/-!
# Outlines of syntax trees

An outline shows a syntax tree as nodes of one shape: a kind, a line, named attributes and
children. It can be printed as an indented drawing.

## Main definitions

* `ClassLang.NodeKind`: the kinds of node.
* `ClassLang.Outline`: outlines, with `ClassLang.Outline.nodes` in pre-order and
  `ClassLang.Outline.render` as a drawing.
* `ClassLang.Program.outline`: the outline of a program.
-/

set_option autoImplicit false

namespace ClassLang

/-- The kinds of node of a syntax tree. -/
inductive NodeKind where
  | program
  | classDecl
  | methodDecl
  | parameterList
  | parameter
  | fieldDecl
  | variableDecl
  | arrayInit
  | block
  | ifStmt
  | whileStmt
  | doWhileStmt
  | forStmt
  | switchStmt
  | labelledArm
  | defaultArm
  | returnStmt
  | expressionStmt
  | binaryExpr
  | unaryExpr
  | breakStmt
  | continueStmt
  | literal
  | var
  | methodCall
  | arrayAccess
  | fieldAccess
  | newExpr
  | assignment
  deriving DecidableEq, Repr

/-- The name of a kind of node. -/
def NodeKind.name : NodeKind → String
  | program => "Program"
  | classDecl => "ClassDecl"
  | methodDecl => "MethodDecl"
  | parameterList => "ParameterList"
  | parameter => "Parameter"
  | fieldDecl => "FieldDecl"
  | variableDecl => "VariableDecl"
  | arrayInit => "ArrayInit"
  | block => "Block"
  | ifStmt => "IfStmt"
  | whileStmt => "WhileStmt"
  | doWhileStmt => "DoWhileStmt"
  | forStmt => "ForStmt"
  | switchStmt => "SwitchStmt"
  | labelledArm => "Case"
  | defaultArm => "Default"
  | returnStmt => "ReturnStmt"
  | expressionStmt => "ExpressionStmt"
  | binaryExpr => "BinaryExpr"
  | unaryExpr => "UnaryExpr"
  | breakStmt => "BreakStmt"
  | continueStmt => "ContinueStmt"
  | literal => "Literal"
  | var => "Variable"
  | methodCall => "MethodCall"
  | arrayAccess => "ArrayAccess"
  | fieldAccess => "FieldAccess"
  | newExpr => "NewExpr"
  | assignment => "Assignment"

/-- A node with its attributes and children. -/
inductive Outline where
  | node (kind : NodeKind) (line : Nat) (attributes : List (String × String))
      (children : List Outline)

namespace Outline

/-- The kind of the root. -/
def kind : Outline → NodeKind
  | node kind _ _ _ => kind

/-- The line of the root. -/
def line : Outline → Nat
  | node _ line _ _ => line

/-- The attributes of the root. -/
def attributes : Outline → List (String × String)
  | node _ _ attributes _ => attributes

/-- The children of the root. -/
def children : Outline → List Outline
  | node _ _ _ children => children

/-- The attribute of the root with a given name. -/
def attribute? (o : Outline) (name : String) : Option String :=
  o.attributes.lookup name

mutual

/-- All nodes in pre-order. -/
def nodes : Outline → List Outline
  | node kind line attributes children =>
    node kind line attributes children :: forestNodes children

/-- The nodes of several outlines in pre-order. -/
def forestNodes : List Outline → List Outline
  | [] => []
  | o :: os => nodes o ++ forestNodes os

end

/-- The kinds of all nodes in pre-order. -/
def kinds (o : Outline) : List NodeKind :=
  o.nodes.map kind

/-- The line that shows a node itself. -/
def caption (kind : NodeKind) (line : Nat) (attributes : List (String × String)) : String :=
  kind.name ++ String.join (attributes.map fun a => " " ++ a.1 ++ "=" ++ a.2) ++
    " (line " ++ toString line ++ ")"

mutual

/-- Draws a node that stands below another one. `indent` is the drawing to the left of it, and
`isLast` tells whether it is the last child. -/
def renderChild (indent : String) (isLast : Bool) : Outline → String
  | node kind line attributes children =>
    indent ++ (if isLast then "└── " else "├── ") ++ caption kind line attributes ++ "\n" ++
      renderChildren (indent ++ if isLast then "    " else "│   ") children

/-- Draws the children of a node. -/
def renderChildren (indent : String) : List Outline → String
  | [] => ""
  | o :: os => renderChild indent os.isEmpty o ++ renderChildren indent os

end

/-- The drawing of an outline, one node on each line. -/
def render : Outline → String
  | node kind line attributes children =>
    caption kind line attributes ++ "\n" ++ renderChildren "" children

end Outline

open Outline (node)

/-! ## Outlines of the parts of a program -/

mutual

/-- The outline of an expression. -/
def Expr.outline : Expr → Outline
  | .literal line value =>
    node .literal line [("literalType", value.value.typeName), ("value", value.text)] []
  | .var line name => node .var line [("name", name)] []
  | .binary line op left right =>
    node .binaryExpr line [("operator", op.text)] [left.outline, right.outline]
  | .unary line op operand =>
    let position := if op.standsBehind then "postfix" else "prefix"
    node .unaryExpr line [("operator", op.text), ("position", position)] [operand.outline]
  | .call line name args => node .methodCall line [("name", name)] (outlines args)
  | .methodCall line receiver name args =>
    node .methodCall line [("name", name)] (receiver.outline :: outlines args)
  | .index line array place => node .arrayAccess line [] [array.outline, place.outline]
  | .field line object name => node .fieldAccess line [("field", name)] [object.outline]
  | .newObject line type _ => node .newExpr line [("type", type.text)] []
  | .newArray line type size _ => node .newExpr line [("type", type.text)] [size.outline]
  | .assign line target value => node .assignment line [] [target.outline, value.outline]
  | .arrayInit line elements => node .arrayInit line [] (outlines elements)

/-- The outlines of several expressions. -/
def Expr.outlines : List Expr → List Outline
  | [] => []
  | e :: es => e.outline :: outlines es

end

/-- The outline of a declared name with its type and its initial value. -/
def declarationOutline (kind : NodeKind) (line : Nat) (name : String) (type : TypeExpr)
    (init : Option Expr) : Outline :=
  node kind line [("name", name), ("type", type.text)] (init.map Expr.outline).toList

/-- The outline of a local variable. -/
def VarDecl.outline (decl : VarDecl) : Outline :=
  declarationOutline .variableDecl decl.line decl.name decl.type decl.init

/-- The outline of an expression that stands as a statement. -/
def Expr.stmtOutline (e : Expr) : Outline :=
  node .expressionStmt e.line [] [e.outline]

/-- The outline of the first clause of a `for` loop. -/
def ForInit.outline : ForInit → Outline
  | .decl d => d.outline
  | .expr value => value.stmtOutline

mutual

/-- The outline of a statement. -/
def Stmt.outline : Stmt → Outline
  | .varDecl decl => decl.outline
  | .block body => body.outline
  | .ifThen line condition thenBranch =>
    node .ifStmt line [] [condition.outline, thenBranch.outline]
  | .ifElse line condition thenBranch elseBranch =>
    node .ifStmt line [] [condition.outline, thenBranch.outline, elseBranch.outline]
  | .whileLoop line condition body =>
    node .whileStmt line [] [condition.outline, body.outline]
  | .doWhile line body condition =>
    node .doWhileStmt line [] [body.outline, condition.outline]
  | .forLoop line init condition update body =>
    node .forStmt line []
      ((init.map ForInit.outline).toList ++ (condition.map Expr.outline).toList ++
        (update.map Expr.outline).toList ++ [body.outline])
  | .switch line condition arms =>
    node .switchStmt line [] (condition.outline :: armOutlines arms)
  | .ret line value => node .returnStmt line [] (value.map Expr.outline).toList
  | .expr value => value.stmtOutline
  | .breakOff line => node .breakStmt line [] []
  | .continueOn line => node .continueStmt line [] []

/-- The outlines of several statements. -/
def stmtOutlines : List Stmt → List Outline
  | [] => []
  | s :: ss => s.outline :: stmtOutlines ss

/-- The outline of a block. -/
def Block.outline : Block → Outline
  | .mk line stmts => node .block line [] (stmtOutlines stmts)

/-- The outline of an arm of a switch. -/
def SwitchArm.outline : SwitchArm → Outline
  | .labelled line label body => node .labelledArm line [] [label.outline, body.outline]
  | .otherwise line body => node .defaultArm line [] [body.outline]

/-- The outlines of the arms of a switch. -/
def armOutlines : List SwitchArm → List Outline
  | [] => []
  | arm :: arms => arm.outline :: armOutlines arms

end

/-- The outline of a parameter. -/
def Parameter.outline (p : Parameter) : Outline :=
  node .parameter p.line [("name", p.name), ("type", p.type.text)] []

/-- The outline of a member of a class. -/
def Member.outline : Member → Outline
  | .field decl => declarationOutline .fieldDecl decl.line decl.name decl.type decl.init
  | .method decl =>
    node .methodDecl decl.line [("name", decl.name), ("type", decl.returnType.text)]
      [node .parameterList decl.line [] (decl.params.map Parameter.outline), decl.body.outline]

/-- The outline of a class. -/
def ClassDecl.outline (c : ClassDecl) : Outline :=
  node .classDecl c.line [("name", c.name)] (c.members.map Member.outline)

/-- The outline of a program. -/
def Program.outline (p : Program) : Outline :=
  node .program p.line [] (p.classes.map ClassDecl.outline)

end ClassLang
