import ClassLang.Target.Needs

/-!
# Types in generated code

Primitive types have counterparts of their own, strings and containers are classes of the standard
library, and each array dimension is a vector.

## Main definitions

* `ClassLang.Target.unboxed`: the primitive type behind a class that wraps one.
* `ClassLang.Target.typeText`: the text of a type.
* `ClassLang.Target.isContainer`: the types whose empty value needs no initial value.
-/

set_option autoImplicit false

namespace ClassLang.Target

/-- The name of the primitive type that a class wraps; other names stay as they are. -/
def unboxed (name : String) : String :=
  match name with
  | "Integer" => "int"
  | "Double" => "double"
  | "Float" => "float"
  | "Character" => "char"
  | "Boolean" => "boolean"
  | other => other

/-- The text of a primitive type, of `void` or of the type of strings. -/
def primitiveText? (name : String) : Option String :=
  match unboxed name with
  | "int" => some "int"
  | "float" => some "float"
  | "double" => some "double"
  | "char" => some "char"
  | "boolean" => some "bool"
  | "void" => some "void"
  | "String" => some "std::string"
  | _ => none

/-- A container of the standard library. -/
structure Container where
  template : String
  header : Header
  /-- The number of its type arguments. -/
  arity : Nat

/-- The container that a name stands for. -/
def container? (name : String) : Option Container :=
  match name with
  | "ArrayList" => some ⟨"std::vector", .vector, 1⟩
  | "HashMap" => some ⟨"std::unordered_map", .unorderedMap, 2⟩
  | _ => none

/-- A template with its arguments. -/
def templateText (template : String) (args : List String) : String :=
  template ++ "<" ++ ", ".intercalate args ++ ">"

/-- The text of a vector of a number of dimensions. -/
def vectorText (element : String) : Nat → String
  | 0 => element
  | dimensions + 1 => templateText "std::vector" [vectorText element dimensions]

mutual

/-- The text of a type. -/
def typeText : TypeExpr → Emit String
  | .mk name args dimensions => do
    let element ← match primitiveText? name with
      | some text => do
        if text = "std::string" then Emit.need .string
        pure text
      | none =>
        match container? name with
        | none => throw (.userClass name)
        | some container => do
          if args.length ≠ container.arity then throw (.rawContainer (.mk name args dimensions))
          Emit.need container.header
          pure (templateText container.template (← typeTexts args))
    if dimensions > 0 then Emit.need .vector
    return vectorText element dimensions

/-- The texts of several types. -/
def typeTexts : List TypeExpr → Emit (List String)
  | [] => return []
  | type :: types => do
    let text ← typeText type
    return text :: (← typeTexts types)

end

/-- Whether the type is a container that is no array. -/
def isContainer (type : TypeExpr) : Bool :=
  type.dimensions = 0 && (container? type.name).isSome

end ClassLang.Target
