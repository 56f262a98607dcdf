import ClassLang.Ty.Basic

/-!
# Assignability

Which values fit which slots. Numbers widen from `int` to `float` to `double`; everything fits a
slot for strings; arrays go by their elements; type arguments have to agree.

## Main definitions

* `ClassLang.Ty.isAssignableTo`: the rule on types.
* `ClassLang.Ty.isCompatibleWith`: the rule that programs are checked by, where `null` fits every
  class and array, and an array without elements fits every array.
-/

set_option autoImplicit false

namespace ClassLang.Ty

/-- Whether both types are numeric and the second is at least as wide. -/
def widensTo (source target : Ty) : Bool :=
  match source.rank?, target.rank? with
  | some m, some n => m ≤ n
  | _, _ => false

/-- Whether a value of the first type may be put into a slot of the second. -/
def isAssignableTo : Ty → Ty → Bool
  | array a, array b => isAssignableTo a b
  | generic a as, generic b bs => isAssignableTo a b && as = bs
  | a, b => a = b || widensTo a b || b = string

/-- Whether a program may put a value of the first type into a slot of the second. -/
def isCompatibleWith (source target : Ty) : Bool :=
  (source = array void && target.isArray) ||
    (source = null && (target.isClass || target.isArray)) ||
    source.isAssignableTo target

/-- A value fits a slot of its own type. -/
@[simp]
theorem isAssignableTo_refl : ∀ t : Ty, t.isAssignableTo t = true
  | array a => by simpa [isAssignableTo] using isAssignableTo_refl a
  | generic a as => by simpa [isAssignableTo] using isAssignableTo_refl a
  | void | primitive _ | named _ | param _ => by simp [isAssignableTo]

end ClassLang.Ty
