import ClassLang.Ty.Basic

/-!
# Semantic errors

Why a program that parses is not accepted.

## Main definitions

* `ClassLang.SemanticError`: a cause and a line.
* `ClassLang.SemanticError.message`, `ClassLang.SemanticError.text`: the wording, without and with
  the line.
-/

set_option autoImplicit false

namespace ClassLang

/-- The kind of slot that an initial value goes to. -/
inductive Slot where
  | var
  | field
  deriving DecidableEq

/-- The word for a slot. -/
def Slot.text : Slot → String
  | var => "variable"
  | field => "field"

/-- Statements with a condition. A loop that tests last counts as a `while` loop. -/
inductive Conditional where
  | ifStmt
  | whileLoop
  | forLoop
  deriving DecidableEq

/-- The word for a statement with a condition. -/
def Conditional.text : Conditional → String
  | ifStmt => "If"
  | whileLoop => "While"
  | forLoop => "For"

/-- Causes of a semantic error. -/
inductive SemanticError.Cause where
  | unknownType (name : String)
  | classRedefined (name : String)
  | methodRedefined (method className : String)
  | fieldRedefined (name : String)
  | variableRedefined (name : String)
  | missingReturn (method : String)
  | cannotAssign (source target : Ty) (slot : Slot)
  | arrayElementMismatch (expected found : Ty)
  | inconsistentArrayElements
  | nonBooleanCondition (construct : Conditional) (found : Ty)
  | invalidSwitchType
  | duplicateCase (value : String)
  | multipleDefaults
  | incompatibleCase (label switch : Ty)
  | breakOutsideLoop
  | continueOutsideLoop
  | returnValueFromVoid
  | returnTypeMismatch (found expected : Ty)
  | missingReturnValue (expected : Ty)
  | undefinedVariable (name : String)
  | notAVariable (name : String)
  | invalidAssignmentTarget
  /-- The type is named only where an element is assigned to. -/
  | nonArrayAccess (found : Option Ty)
  /-- The type is named only where an element is assigned to. -/
  | nonNumericIndex (found : Option Ty)
  | fieldOnNonClass (found : Ty)
  | classNotFound (name : String)
  | fieldNotFound (field className : String)
  | binaryOperandMismatch (op : String) (left right : Ty)
  | notAssignable
  | compoundMismatch (op : String) (left right : Ty)
  | invalidOperation
  | unaryOperandMismatch (op : String) (operand : Ty)
  | receiverClassNotFound (name : String)
  | receiverMethodNotFound (method className : String)
  | receiverArity (expected found : Nat)
  | parameterMismatch (expected found : Ty)
  | printArity
  | undefinedMethod (name : String)
  | notAMethod (name : String)
  | callArity (method : String) (expected found : Nat)
  | argumentMismatch (position : Nat) (method : String)
  | arraySizeNotInt (found : Ty)
  | newNonClass (name : String)
  deriving DecidableEq

/-- A cause and the line under which it is reported. -/
structure SemanticError where
  cause : SemanticError.Cause
  line : Nat
  deriving DecidableEq

namespace SemanticError

/-- The wording of a cause. -/
def Cause.message : Cause → String
  | unknownType name => "Unknown type: " ++ name
  | classRedefined name => "Class " ++ name ++ " is already defined"
  | methodRedefined method className =>
    "Method " ++ method ++ " is already defined in class " ++ className
  | fieldRedefined name => "Field " ++ name ++ " is already defined in this class"
  | variableRedefined name => "Variable " ++ name ++ " is already defined in this scope"
  | missingReturn method => "Missing return statement in method " ++ method
  | cannotAssign source target slot =>
    "Cannot assign " ++ source.text ++ " to " ++ slot.text ++ " of type " ++ target.text
  | arrayElementMismatch expected found =>
    "Array element type mismatch. Expected " ++ expected.text ++ ", got " ++ found.text
  | inconsistentArrayElements => "Inconsistent array element types"
  | nonBooleanCondition construct found =>
    construct.text ++ " condition must be boolean, found " ++ found.text
  | invalidSwitchType => "Switch condition must be integer or char"
  | duplicateCase value => "Duplicate case value: " ++ value
  | multipleDefaults => "Multiple default cases"
  | incompatibleCase label switch =>
    "Case type " ++ label.text ++ " is incompatible with switch type " ++ switch.text
  | breakOutsideLoop => "Break outside loop or switch"
  | continueOutsideLoop => "Continue outside loop"
  | returnValueFromVoid => "Cannot return a value from a void method"
  | returnTypeMismatch found expected =>
    "Cannot return " ++ found.text ++ " from method with return type " ++ expected.text
  | missingReturnValue expected =>
    "Missing return value in method with return type " ++ expected.text
  | undefinedVariable name => "Undefined variable: " ++ name
  | notAVariable name => name ++ " is not a variable"
  | invalidAssignmentTarget => "Invalid assignment target"
  | nonArrayAccess (some found) => "Array access on non-array type: " ++ found.text
  | nonArrayAccess none => "Array access on non-array type"
  | nonNumericIndex (some found) => "Array index must be numeric, found: " ++ found.text
  | nonNumericIndex none => "Array index must be numeric"
  | fieldOnNonClass found => "Cannot access field on non-class type: " ++ found.text
  | classNotFound name => "Class not found: " ++ name
  | fieldNotFound field className => "Field " ++ field ++ " not found in class " ++ className
  | binaryOperandMismatch op left right =>
    "Operator " ++ op ++ " cannot be applied to types " ++ left.text ++ " and " ++ right.text
  | notAssignable => "Left operand must be assignable"
  | compoundMismatch op left right =>
    "Cannot apply '" ++ op ++ "' to " ++ left.text ++ " and " ++ right.text
  | invalidOperation => "Invalid operation for types"
  | unaryOperandMismatch op operand =>
    "Operator " ++ op ++ " cannot be applied to type " ++ operand.text
  | receiverClassNotFound name => "Class '" ++ name ++ "' not found"
  | receiverMethodNotFound method className =>
    "Method '" ++ method ++ "' not found in class " ++ className
  | receiverArity expected found =>
    "Method expects " ++ toString expected ++ " parameters, got " ++ toString found
  | parameterMismatch expected found =>
    "Parameter type mismatch: expected " ++ expected.text ++ ", got " ++ found.text
  | printArity => "System.out.println requires exactly less than two arguments"
  | undefinedMethod name => "Undefined method: " ++ name
  | notAMethod name => name ++ " is not a method"
  | callArity method expected found =>
    "Method " ++ method ++ " expects " ++ toString expected ++ " arguments, but got " ++
      toString found
  | argumentMismatch position method =>
    "Argument type mismatch for parameter " ++ toString position ++ " of method " ++ method
  | arraySizeNotInt found => "Array size must be int, found: " ++ found.text
  | newNonClass name => "Cannot create an instance of non-class type: " ++ name

/-- The wording of an error, without its line. -/
def message (e : SemanticError) : String :=
  e.cause.message

/-- The wording of an error with its line. -/
def text (e : SemanticError) : String :=
  e.message ++ " at line " ++ toString e.line

end SemanticError

end ClassLang
