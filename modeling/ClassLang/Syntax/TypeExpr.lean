import ClassLang.Token.Words

/-!
# Types as written

## Main definitions

* `ClassLang.TypeExpr`: a type as a program writes it: a name, type arguments and a number of
  array dimensions.
* `ClassLang.TypeExpr.ofWord`: the type that a single word names.
* `ClassLang.TypeExpr.text`: the text of a type.
-/

set_option autoImplicit false

namespace ClassLang

/-- A type as written: `int`, `String[]`, `HashMap<String, Integer>`. -/
inductive TypeExpr where
  | mk (name : String) (args : List TypeExpr) (dimensions : Nat)
  deriving Inhabited

namespace TypeExpr

/-- The name of the type. -/
def name : TypeExpr → String
  | mk name _ _ => name

/-- The type arguments. -/
def args : TypeExpr → List TypeExpr
  | mk _ args _ => args

/-- The number of array dimensions. -/
def dimensions : TypeExpr → Nat
  | mk _ _ dimensions => dimensions

/-- A type that is only a name. -/
def simple (name : String) : TypeExpr :=
  mk name [] 0

/-- An array of `dimensions` more dimensions. -/
def arrayOf (type : TypeExpr) (dimensions : Nat) : TypeExpr :=
  mk type.name type.args (type.dimensions + dimensions)

/-- The type that a word names. Each suffix `[]` of the word is a dimension. -/
def ofWord (word : String) : TypeExpr :=
  let (name, dimensions) := Word.splitArray word
  mk name [] dimensions

/-- Whether this is the type of methods without a result. -/
def isVoid (type : TypeExpr) : Bool :=
  type.name = "void" && type.dimensions = 0

/-- Array suffixes. -/
def brackets (dimensions : Nat) : String :=
  String.join (List.replicate dimensions "[]")

mutual

/-- The text of a type. -/
def text : TypeExpr → String
  | mk name args dimensions =>
    let list := match args with
      | [] => ""
      | _ :: _ => "<" ++ ", ".intercalate (texts args) ++ ">"
    name ++ list ++ brackets dimensions

/-- The texts of several types. -/
def texts : List TypeExpr → List String
  | [] => []
  | type :: types => text type :: texts types

end

end TypeExpr

end ClassLang
