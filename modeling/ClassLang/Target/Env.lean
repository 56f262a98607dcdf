import ClassLang.Syntax.Program
import ClassLang.Target.TypeText

/-!
# Types at hand during generation

The generated text of an expression depends on the types of its parts: strings are joined, maps
are read and remainders are taken in different ways. The generator keeps the written types of the
names in scope and works out as much as it needs.

## Main definitions

* `ClassLang.Target.Env`: the names in scope.
* `ClassLang.Target.Env.staticType`: the type of an expression, as far as it can be told.
-/

set_option autoImplicit false

namespace ClassLang.Target

/-- Names with their written types, the newest first. -/
abbrev Names := List (String × TypeExpr)

/-- The names in scope. -/
structure Env where
  /-- The fields of all classes. -/
  fields : Names
  /-- The methods of all classes with their result types. -/
  methods : Names
  classes : List String
  /-- The open scopes of the method at hand, the innermost first. -/
  scopes : List Names := []
  /-- Whether the method at hand is the entry point of the program. -/
  inMain : Bool := false
  /-- The result type of the method at hand. -/
  returnType : Option TypeExpr := none

namespace Env

/-- The names of a program outside of its methods. Of several members of one name the last
counts. -/
def ofProgram (p : Program) : Env where
  fields := (p.fields.map fun d => (d.name, d.type)).reverse
  methods := (p.methods.map fun d => (d.name, d.returnType)).reverse
  classes := p.classes.map (·.name)

/-- Opens a scope. -/
def push (env : Env) : Env :=
  { env with scopes := [] :: env.scopes }

/-- Declares a name in the innermost scope. -/
def declare (env : Env) (name : String) (type : TypeExpr) : Env :=
  match env.scopes with
  | [] => env
  | scope :: outer => { env with scopes := ((name, type) :: scope) :: outer }

/-- The written type of a variable or field. -/
def lookup (env : Env) (name : String) : Option TypeExpr :=
  (env.scopes.findSome? fun scope => scope.lookup name) <|> env.fields.lookup name

/-- Whether an expression is the name of a class. -/
def isClassName (env : Env) : Expr → Bool
  | .var _ name => (env.lookup name).isNone && env.classes.contains name
  | _ => false

/-- The name of a type that is no array, and the primitive type for a class that wraps one. -/
def scalarName (type : TypeExpr) : Option String :=
  if type.dimensions = 0 then some (unboxed type.name) else none

/-- The place of a numeric type in the order of widening. -/
def rank? (name : String) : Option Nat :=
  match name with
  | "char" => some 0
  | "int" => some 1
  | "float" => some 2
  | "double" => some 3
  | _ => none

/-- The numeric type of a rank. The result of arithmetic on characters is an integer. -/
def ofRank : Nat → TypeExpr
  | 0 | 1 => .simple "int"
  | 2 => .simple "float"
  | _ => .simple "double"

/-- The type of arithmetic on operands of given types, as far as they are known. -/
def arithType (left right : Option TypeExpr) : Option TypeExpr :=
  let names := [left >>= scalarName, right >>= scalarName].filterMap id
  if names.contains "String" then some (.simple "String")
  else (names.filterMap rank?).max?.map ofRank

/-- The type of the elements of an array. -/
def elementType (type : TypeExpr) : Option TypeExpr :=
  match type with
  | .mk _ _ 0 => none
  | .mk name args (dimensions + 1) => some (.mk name args dimensions)

/-- The result type of a method of a receiver. -/
def receiverCallType (receiver : TypeExpr) (method : String) : Option TypeExpr := do
  let name ← scalarName receiver
  match method with
  | "size" => some (.simple "int")
  | "equals" | "isEmpty" | "containsKey" | "add" => some (.simple "boolean")
  | "length" => if name = "String" then some (.simple "int") else none
  | "charAt" => if name = "String" then some (.simple "char") else none
  | "set" => if name = "ArrayList" then receiver.args[0]? else none
  | "get" =>
    if name = "ArrayList" then receiver.args[0]?
    else if name = "HashMap" then receiver.args[1]?
    else none
  | _ => none

/-- The type of an expression, as far as it can be told. -/
def staticType (env : Env) : Expr → Option TypeExpr
  | .literal _ l =>
    match l.value with
    | .null => none
    | value => some (.simple value.typeName)
  | .var _ name => env.lookup name
  | .binary _ op left right =>
    match op with
    | .arith _ => arithType (env.staticType left) (env.staticType right)
    | .assign _ => env.staticType left
    | .equal | .notEqual | .order _ | .and | .or => some (.simple "boolean")
  | .unary _ op operand =>
    match op with
    | .not => some (.simple "boolean")
    | _ => env.staticType operand
  | .call _ name _ => env.methods.lookup name
  | .methodCall _ receiver name _ =>
    if env.isClassName receiver then env.methods.lookup name
    else (env.staticType receiver).bind fun type => receiverCallType type name
  | .index _ array _ => (env.staticType array).bind elementType
  | .field _ object name =>
    if env.isClassName object then env.fields.lookup name
    else if name = "length" then some (.simple "int")
    else none
  | .newObject _ type _ => some type
  | .newArray _ type _ _ => some type
  | .assign _ target _ => env.staticType target
  | .arrayInit _ _ => none

/-- The name of the type of an expression that is known to be no array. -/
def scalarType (env : Env) (e : Expr) : Option String :=
  env.staticType e >>= scalarName

/-- Whether an expression is known to be a string. -/
def isString (env : Env) (e : Expr) : Bool :=
  env.scalarType e = some "String"

/-- Whether an expression is known to be a floating-point number. -/
def isFloating (env : Env) (e : Expr) : Bool :=
  env.scalarType e = some "float" || env.scalarType e = some "double"

/-- Whether an expression is known to be a map. -/
def isMap (env : Env) (e : Expr) : Bool :=
  (env.staticType e).any fun type => type.dimensions = 0 && type.name = "HashMap"

end Env

end ClassLang.Target
