/-!
# Operators

## Main definitions

* `ClassLang.BinaryOp`: operators with two operands, compound assignments included.
* `ClassLang.UnaryOp`: operators with one operand.
-/

set_option autoImplicit false

namespace ClassLang

/-- Arithmetic operators. -/
inductive Arith where
  | add
  | sub
  | mul
  | div
  | mod
  deriving DecidableEq, Repr

/-- The text of an arithmetic operator. -/
def Arith.text : Arith → String
  | add => "+"
  | sub => "-"
  | mul => "*"
  | div => "/"
  | mod => "%"

/-- Comparisons of size. -/
inductive Comparison where
  | lt
  | gt
  | le
  | ge
  deriving DecidableEq, Repr

/-- The text of a comparison. -/
def Comparison.text : Comparison → String
  | lt => "<"
  | gt => ">"
  | le => "<="
  | ge => ">="

/-- Operators with two operands. -/
inductive BinaryOp where
  | arith (op : Arith)
  | equal
  | notEqual
  | order (op : Comparison)
  | and
  | or
  /-- The compound assignment of an arithmetic operator. -/
  | assign (op : Arith)
  deriving DecidableEq, Repr

namespace BinaryOp

/-- The text of an operator. -/
def text : BinaryOp → String
  | arith op => op.text
  | equal => "=="
  | notEqual => "!="
  | order op => op.text
  | and => "&&"
  | or => "||"
  | assign op => op.text ++ "="

/-- All operators with two operands. -/
def all : List BinaryOp :=
  [arith .add, arith .sub, arith .mul, arith .div, arith .mod, equal, notEqual, order .lt,
    order .gt, order .le, order .ge, and, or, assign .add, assign .sub, assign .mul, assign .div,
    assign .mod]

/-- The operator of a given text. -/
def ofText? (text : String) : Option BinaryOp :=
  all.find? fun op => op.text = text

/-- Whether the operator assigns to its left operand. -/
def isAssignment : BinaryOp → Bool
  | assign _ => true
  | _ => false

/-- The text of an operator is read back as that operator. -/
@[simp]
theorem ofText?_text (op : BinaryOp) : ofText? op.text = some op := by
  rcases op with op | _ | _ | op | _ | _ | op <;> first | decide | (cases op <;> decide)

end BinaryOp

/-- Operators with one operand. -/
inductive UnaryOp where
  | neg
  | not
  | preInc
  | preDec
  | postInc
  | postDec
  deriving DecidableEq, Repr

namespace UnaryOp

/-- The text of an operator. -/
def text : UnaryOp → String
  | neg => "-"
  | not => "!"
  | preInc | postInc => "++"
  | preDec | postDec => "--"

/-- Whether the operator stands behind its operand. -/
def standsBehind : UnaryOp → Bool
  | postInc | postDec => true
  | _ => false

/-- Whether the operator changes its operand. -/
def isStep : UnaryOp → Bool
  | neg | not => false
  | _ => true

end UnaryOp

end ClassLang
