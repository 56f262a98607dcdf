import ClassLang.Scope.Symbol

/-!
# Built-in names

## Main definitions

* `ClassLang.Builtin.primitive?`: the primitive type that a name stands for.
* `ClassLang.Builtin.globals`: the classes that every program knows.
-/

set_option autoImplicit false

namespace ClassLang.Builtin

/-- The primitive types and `void` by name. -/
def primitives : List (String × Ty) :=
  [("boolean", .boolean), ("char", .char), ("int", .int), ("float", .float), ("double", .double),
    ("void", .void), ("String", .string)]

/-- Classes that wrap a primitive type. Programs may use them in its place. -/
def boxed : List (String × Ty) :=
  [("Integer", .int), ("Double", .double), ("Float", .float), ("Character", .char),
    ("Boolean", .boolean)]

/-- The primitive type, or `void`, that a name stands for. -/
def primitive? (name : String) : Option Ty :=
  (primitives ++ boxed).lookup name

/-- A method of a built-in class. -/
def method (name : String) (result : Ty) (params : List (String × Ty)) : Symbol :=
  .function name result params false

/-- Strings. -/
def stringClass : Symbol :=
  .classDef "String" []
    [method "length" .int [],
      method "charAt" .char [("index", .int)],
      method "equals" .boolean [("other", .string)],
      method "isEmpty" .boolean []]

/-- Output streams. -/
def printStreamClass : Symbol :=
  .classDef "PrintStream" []
    [method "println" .void [("value", .string)],
      method "print" .void [("value", .string)]]

/-- The class that holds the standard output stream. -/
def systemClass : Symbol :=
  .classDef "System" [] [.var "out" (.named "PrintStream")]

/-- Lists that grow. -/
def arrayListClass : Symbol :=
  .classDef "ArrayList" ["T"]
    [method "size" .int [],
      method "get" (.param "T") [("index", .int)],
      method "add" .boolean [("element", .param "T")],
      method "set" (.param "T") [("index", .int), ("element", .param "T")],
      method "isEmpty" .boolean []]

/-- Maps from keys to values. -/
def hashMapClass : Symbol :=
  .classDef "HashMap" ["K", "V"]
    [method "put" .void [("key", .param "K"), ("value", .param "V")],
      method "get" (.param "V") [("key", .param "K")],
      method "containsKey" .boolean [("key", .param "K")],
      method "size" .int []]

/-- Primitive types and `void` as classes without members. -/
def primitiveClasses : List Symbol :=
  ["boolean", "char", "int", "float", "double", "void"].map fun name => .classDef name [] []

/-- The global scope before any class of the program is declared. -/
def globals : Table :=
  primitiveClasses ++
    [stringClass, printStreamClass, systemClass, arrayListClass, hashMapClass]

end ClassLang.Builtin
