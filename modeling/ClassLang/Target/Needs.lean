import ClassLang.Syntax.TypeExpr

/-!
# What generated code needs

The text of generated code calls for headers, and sometimes for a helper function. They are
collected on the way. Some constructs have no counterpart and end the generation.

## Main definitions

* `ClassLang.Target.Header`: headers of the standard library.
* `ClassLang.Target.Needs`: the headers and the helper that are needed so far.
* `ClassLang.Target.Unsupported`: constructs without a counterpart.
* `ClassLang.Target.Emit`: computations that collect needs and may end with such a construct.
-/

set_option autoImplicit false

namespace ClassLang.Target

/-- Headers of the standard library. -/
inductive Header where
  | cmath
  | iomanip
  | iostream
  | sstream
  | string
  | unorderedMap
  | vector
  deriving DecidableEq

namespace Header

/-- The name of a header. -/
def name : Header → String
  | cmath => "cmath"
  | iomanip => "iomanip"
  | iostream => "iostream"
  | sstream => "sstream"
  | string => "string"
  | unorderedMap => "unordered_map"
  | vector => "vector"

/-- The line that includes a header. -/
def includeLine (h : Header) : String :=
  "#include <" ++ h.name ++ ">"

/-- All headers in the order of their names. -/
def all : List Header :=
  [cmath, iomanip, iostream, sstream, string, unorderedMap, vector]

end Header

/-- What the code generated so far needs. -/
structure Needs where
  /-- The headers, in the order in which they were first called for. -/
  headers : List Header := []
  /-- Whether the helper that formats numbers is called. -/
  numberFormat : Bool := false

namespace Needs

/-- Calls for a header. -/
def addHeader (needs : Needs) (h : Header) : Needs :=
  if h ∈ needs.headers then needs else { needs with headers := needs.headers ++ [h] }

/-- The headers in the order of their names. -/
def sortedHeaders (needs : Needs) : List Header :=
  Header.all.filter (· ∈ needs.headers)

end Needs

/-- Constructs without a counterpart in the generated code. -/
inductive Unsupported where
  /-- Objects of a class of the program. -/
  | userClass (name : String)
  /-- A container with the wrong number of type arguments. -/
  | rawContainer (type : TypeExpr)
  /-- The literal `null` where nothing tells its type. -/
  | untypedNull
  /-- A method of the standard output stream other than the two that print. -/
  | outputMethod (name : String)

/-- The wording of an unsupported construct. -/
def Unsupported.message : Unsupported → String
  | userClass name => "Unsupported construct: values of user-defined class " ++ name
  | rawContainer type => "Unsupported construct: raw container type " ++ type.text
  | untypedNull => "Unsupported construct: null outside a declaration, assignment or return"
  | outputMethod name => "Unsupported construct: System.out." ++ name

/-- Computations that collect needs. What was needed before an unsupported construct stays
known. -/
abbrev Emit (α : Type) := ExceptT Unsupported (StateM Needs) α

namespace Emit

/-- The result of a computation from given needs, and the needs after it. -/
def runFrom {α : Type} (p : Emit α) (needs : Needs) : Except Unsupported α × Needs :=
  p.run.run needs

/-- Calls for a header. -/
def need (h : Header) : Emit Unit :=
  modify fun needs => needs.addHeader h

/-- Calls for the helper that formats numbers. -/
def needNumberFormat : Emit Unit := do
  modify fun needs => { needs with numberFormat := true }
  need .iomanip
  need .sstream

end Emit

end ClassLang.Target
