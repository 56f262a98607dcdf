/-!
# Types

The types of values and of declared names, as opposed to types as written. An array of two
dimensions is an array of arrays.

## Main definitions

* `ClassLang.Primitive`, `ClassLang.Ty`: the types.
* `ClassLang.Ty.text`: the text of a type.
* `ClassLang.Ty.arrayOf`: an array of a given number of dimensions.
* `ClassLang.Ty.className?`: the class in which the members of a type are looked up.
-/

set_option autoImplicit false

namespace ClassLang

/-- Primitive types. Strings count as one of them. -/
inductive Primitive where
  | boolean
  | char
  | int
  | float
  | double
  | string
  deriving DecidableEq, Repr

namespace Primitive

/-- The name of a primitive type. -/
def name : Primitive → String
  | boolean => "boolean"
  | char => "char"
  | int => "int"
  | float => "float"
  | double => "double"
  | string => "String"

/-- The place of a numeric type in the order of widening. Characters are not numeric. -/
def rank? : Primitive → Option Nat
  | int => some 0
  | float => some 1
  | double => some 2
  | _ => none

end Primitive

/-- Types. -/
inductive Ty where
  | void
  | primitive (kind : Primitive)
  | array (element : Ty)
  /-- The type of the objects of a class. -/
  | named (name : String)
  /-- A type parameter of a generic class. -/
  | param (name : String)
  /-- A generic class with type arguments. -/
  | generic (base : Ty) (args : List Ty)
  deriving Repr

namespace Ty

mutual

/-- Equality of types is decidable. -/
def decEq : (a b : Ty) → Decidable (a = b)
  | void, void => isTrue rfl
  | primitive p, primitive q =>
    if h : p = q then isTrue (h ▸ rfl) else isFalse (by simpa using h)
  | array a, array b =>
    match decEq a b with
    | isTrue h => isTrue (h ▸ rfl)
    | isFalse h => isFalse (by simpa using h)
  | named a, named b => if h : a = b then isTrue (h ▸ rfl) else isFalse (by simpa using h)
  | param a, param b => if h : a = b then isTrue (h ▸ rfl) else isFalse (by simpa using h)
  | generic a as, generic b bs =>
    match decEq a b, decEqList as bs with
    | isTrue h, isTrue hs => isTrue (h ▸ hs ▸ rfl)
    | isFalse h, _ => isFalse (by simp [h])
    | _, isFalse hs => isFalse (by simp [hs])
  | void, primitive _ | void, array _ | void, named _ | void, param _ | void, generic _ _
  | primitive _, void | primitive _, array _ | primitive _, named _ | primitive _, param _
  | primitive _, generic _ _
  | array _, void | array _, primitive _ | array _, named _ | array _, param _
  | array _, generic _ _
  | named _, void | named _, primitive _ | named _, array _ | named _, param _
  | named _, generic _ _
  | param _, void | param _, primitive _ | param _, array _ | param _, named _
  | param _, generic _ _
  | generic _ _, void | generic _ _, primitive _ | generic _ _, array _ | generic _ _, named _
  | generic _ _, param _ => isFalse (by simp)

/-- Equality of lists of types is decidable. -/
def decEqList : (as bs : List Ty) → Decidable (as = bs)
  | [], [] => isTrue rfl
  | a :: as, b :: bs =>
    match decEq a b, decEqList as bs with
    | isTrue h, isTrue hs => isTrue (h ▸ hs ▸ rfl)
    | isFalse h, _ => isFalse (by simp [h])
    | _, isFalse hs => isFalse (by simp [hs])
  | [], _ :: _ | _ :: _, [] => isFalse (by simp)

end

instance : DecidableEq Ty := decEq

/-- Truth values. -/
abbrev boolean : Ty := primitive .boolean

/-- Characters. -/
abbrev char : Ty := primitive .char

/-- Integers. -/
abbrev int : Ty := primitive .int

/-- Floating-point numbers of single precision. -/
abbrev float : Ty := primitive .float

/-- Floating-point numbers of double precision. -/
abbrev double : Ty := primitive .double

/-- Strings. -/
abbrev string : Ty := primitive .string

/-- The type of the literal `null`. -/
abbrev null : Ty := named "null"

/-- An array with `dimensions` more dimensions than `element`. -/
def arrayOf (element : Ty) : Nat → Ty
  | 0 => element
  | dimensions + 1 => array (arrayOf element dimensions)

/-- A type without its array dimensions, and their number. -/
def splitArray : Ty → Ty × Nat
  | array element =>
    let (base, dimensions) := splitArray element
    (base, dimensions + 1)
  | other => (other, 0)

/-- Whether values of the type do not exist. -/
def isVoid (t : Ty) : Bool := t = void

/-- Whether the type is primitive. -/
def isPrimitive : Ty → Bool
  | primitive _ => true
  | _ => false

/-- Whether the type is an array. -/
def isArray : Ty → Bool
  | array _ => true
  | _ => false

/-- Whether the type is a class, possibly with type arguments. -/
def isClass : Ty → Bool
  | named _ | generic _ _ => true
  | _ => false

/-- Whether the type is a type parameter. -/
def isParam : Ty → Bool
  | param _ => true
  | _ => false

/-- Whether the type is a generic class with type arguments. -/
def isGeneric : Ty → Bool
  | generic _ _ => true
  | _ => false

/-- The place of the type in the order of widening. -/
def rank? : Ty → Option Nat
  | primitive kind => kind.rank?
  | _ => none

/-- Whether the type is numeric. -/
def isNumeric (t : Ty) : Bool := t.rank?.isSome

/-- The type of the elements of an array; any other type is its own. -/
def elementType : Ty → Ty
  | array element => element
  | other => other

/-- The generic class of a type with type arguments. -/
def genericBase? : Ty → Option Ty
  | generic base _ => some base
  | _ => none

/-- The type arguments of a type. -/
def genericArgs : Ty → List Ty
  | generic _ args => args
  | _ => []

/-- The name of the class in which the members of a type are looked up. -/
def className? : Ty → Option String
  | named name => some name
  | generic base _ => base.className?
  | primitive .string => some "String"
  | _ => none

mutual

/-- The text of a type. -/
def text : Ty → String
  | void => "void"
  | primitive kind => kind.name
  | array element => text element ++ "[]"
  | named name => name
  | param name => name
  | generic base args =>
    match args with
    | [] => text base
    | _ :: _ => text base ++ "<" ++ ", ".intercalate (texts args) ++ ">"

/-- The texts of several types. -/
def texts : List Ty → List String
  | [] => []
  | t :: ts => text t :: texts ts

end

end Ty

end ClassLang
