import ClassLang.Number.Binary64
import ClassLang.Syntax.Operator
import ClassLang.Syntax.TypeExpr

/-!
# Expressions

## Main definitions

* `ClassLang.Literal`: a literal with its value and its text.
* `ClassLang.Expr`: expressions, each with the line it is reported under.
* `ClassLang.Expr.isLValue`: the expressions that name a slot that can be assigned to.
-/

set_option autoImplicit false

namespace ClassLang

/-- The value of a literal. Escapes in characters and strings are not resolved. -/
inductive Literal.Value where
  | int (value : Int)
  | float (value : Number.Binary64)
  | double (value : Number.Binary64)
  | boolean (value : Bool)
  | char (text : String)
  | string (text : String)
  | null
  deriving DecidableEq

/-- The name of the type of a literal. -/
def Literal.Value.typeName : Literal.Value → String
  | int _ => "int"
  | float _ => "float"
  | double _ => "double"
  | boolean _ => "boolean"
  | char _ => "char"
  | string _ => "String"
  | null => "null"

/-- A literal: its value, and its text with quotes and suffix. -/
structure Literal where
  value : Literal.Value
  text : String
  deriving DecidableEq

/-- Expressions. -/
inductive Expr where
  | literal (line : Nat) (value : Literal)
  | var (line : Nat) (name : String)
  | binary (line : Nat) (op : BinaryOp) (left right : Expr)
  | unary (line : Nat) (op : UnaryOp) (operand : Expr)
  /-- A call of a method of the class at hand. -/
  | call (line : Nat) (name : String) (args : List Expr)
  /-- A call of a method of `receiver`. -/
  | methodCall (line : Nat) (receiver : Expr) (name : String) (args : List Expr)
  | index (line : Nat) (array index : Expr)
  | field (line : Nat) (object : Expr) (name : String)
  /-- A new object; `diamond` marks empty type arguments `<>`. -/
  | newObject (line : Nat) (type : TypeExpr) (diamond : Bool)
  /-- A new array of type `type` with `size` elements. -/
  | newArray (line : Nat) (type : TypeExpr) (size : Expr) (diamond : Bool)
  | assign (line : Nat) (target value : Expr)
  /-- The elements of an array in braces. -/
  | arrayInit (line : Nat) (elements : List Expr)

namespace Expr

/-- The line under which an expression is reported. -/
def line : Expr → Nat
  | literal line _ | var line _ | binary line _ _ _ | unary line _ _ | call line _ _
  | methodCall line _ _ _ | index line _ _ | field line _ _ | newObject line _ _
  | newArray line _ _ _ | assign line _ _ | arrayInit line _ => line

/-- Whether the expression names a slot: a variable, an element or a field. -/
def isLValue : Expr → Bool
  | var _ _ | index _ _ _ | field _ _ _ => true
  | _ => false

end Expr

end ClassLang
