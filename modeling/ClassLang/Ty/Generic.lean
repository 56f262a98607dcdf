import ClassLang.Ty.Basic

/-!
# Type arguments

The signature of a method of a generic class mentions its type parameters. For a receiver with
type arguments they are replaced by those.

## Main definitions

* `ClassLang.Bindings`: type parameters with the types that they stand for.
* `ClassLang.Ty.bindings`: the bindings that a receiver gives.
* `ClassLang.Ty.substitute`: a type with its parameters replaced.
-/

set_option autoImplicit false

namespace ClassLang

/-- Type parameters with the types that they stand for, each parameter at most once. -/
abbrev Bindings := List (String × Ty)

/-- Binds a parameter; an earlier binding of it is given up. -/
def Bindings.insert (bindings : Bindings) (name : String) (type : Ty) : Bindings :=
  bindings.filter (·.1 ≠ name) ++ [(name, type)]

namespace Ty

/-- Binds the parameters of a class to the type arguments of a receiver, as far as there are
any. -/
def bindings (params : List String) (receiver : Ty) : Bindings :=
  (params.zip receiver.genericArgs).foldl (fun bound pair => bound.insert pair.1 pair.2) []

mutual

/-- Replaces the bound parameters of a type. -/
def substitute (bound : Bindings) : Ty → Ty
  | param name => (bound.lookup name).getD (param name)
  | generic base args => generic (substitute bound base) (substituteAll bound args)
  | array element => array (substitute bound element)
  | void => void
  | primitive kind => primitive kind
  | named name => named name

/-- Replaces the bound parameters of several types. -/
def substituteAll (bound : Bindings) : List Ty → List Ty
  | [] => []
  | t :: ts => substitute bound t :: substituteAll bound ts

end

end Ty

end ClassLang
