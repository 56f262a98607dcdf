import ClassLang.Ty.Assignable
import ClassLang.Ty.Generic
import Mathlib.Order.Defs.Unbundled

set_option autoImplicit false

/-!
# The order of types

Assignability is given by five rules: a type fits itself, a number fits a wider one, everything fits
a string, arrays go by their elements, and generic classes with the same arguments by their bases.
The laws of the order, and what type arguments do to it, are read off these rules. Programs are
checked by two rules more, for `null` and for arrays without elements.

An array of arrays is an array of more dimensions. The flattened form of a type is an element that
is no array itself, with a number of dimensions; every type has one.

## Main definitions

* `ClassLang.Ty.Fits` — the rules of assignability.
* `ClassLang.Ty.Suits` — the rules by which programs are checked.
* `ClassLang.Ty.FlattensTo` — the flattened form of a type.

## Main results

* `ClassLang.Ty.isAssignableTo_iff_fits`, `ClassLang.Ty.isCompatibleWith_iff_suits` — the tests
  decide the rules.
* `ClassLang.Ty.assignability_isPartialOrder` — both relations are partial orders with `String` on
  top.
* `ClassLang.Ty.substitute_respects_arrays_and_assignability` — what replacing type parameters
  keeps.
-/

namespace ClassLang

/-- Numeric types of the same place in the order of widening are the same. -/
lemma Primitive.eq_of_rank?_eq {p q : Primitive} {n : Nat} (hp : p.rank? = some n)
    (hq : q.rank? = some n) : p = q := by
  cases p <;> cases q <;> simp [Primitive.rank?] at hp hq ⊢ <;> omega

namespace Ty

variable {a b c : Ty}

/-! ## The rules -/

/-- The rules by which values of the first type may be put into slots of the second. -/
inductive Fits : Ty → Ty → Prop
  | same (t : Ty) : Fits t t
  | widened {p q : Primitive} {m n : Nat} (hp : p.rank? = some m) (hq : q.rank? = some n)
      (hle : m ≤ n) : Fits (primitive p) (primitive q)
  | asString (t : Ty) : Fits t string
  | elements {a b : Ty} (h : Fits a b) : Fits (array a) (array b)
  | bases {a b : Ty} {args : List Ty} (h : Fits a b) : Fits (generic a args) (generic b args)

/-- The rules by which programs are checked. -/
inductive Suits : Ty → Ty → Prop
  | emptyArray (b : Ty) : Suits (array void) (array b)
  | nullArray (b : Ty) : Suits null (array b)
  | nullObject {b : Ty} (hb : b.isClass = true) : Suits null b
  | fits {a b : Ty} (h : Fits a b) : Suits a b

lemma exists_of_rank?_eq_some {t : Ty} {n : Nat} (h : t.rank? = some n) :
    ∃ p, t = primitive p ∧ p.rank? = some n := by
  cases t with
  | primitive p => exact ⟨p, rfl, h⟩
  | void | array | named | param | generic => cases h

lemma fits_of_widensTo (h : a.widensTo b = true) : Fits a b := by
  unfold widensTo at h
  split at h
  next m n ha hb =>
    obtain ⟨p, rfl, hp⟩ := exists_of_rank?_eq_some ha
    obtain ⟨q, rfl, hq⟩ := exists_of_rank?_eq_some hb
    exact .widened hp hq (of_decide_eq_true h)
  next => cases h

/-- **The test of assignability decides the rules.** -/
theorem isAssignableTo_iff_fits : a.isAssignableTo b = true ↔ Fits a b := by
  constructor
  · intro h
    fun_induction isAssignableTo a b with
    | case1 a b ih => exact .elements (ih h)
    | case2 a as b bs ih =>
      simp only [Bool.and_eq_true, decide_eq_true_eq] at h
      obtain ⟨hbase, rfl⟩ := h
      exact .bases (ih hbase)
    | case3 a b =>
      simp only [Bool.or_eq_true, decide_eq_true_eq] at h
      rcases h with (rfl | hwiden) | rfl
      · exact .same _
      · exact fits_of_widensTo hwiden
      · exact .asString _
  · intro h
    induction h with
    | same t => exact isAssignableTo_refl t
    | widened hp hq hle => simp [isAssignableTo, widensTo, rank?, hp, hq, hle]
    | asString t => cases t <;> simp [isAssignableTo]
    | elements _ ih => simpa [isAssignableTo] using ih
    | bases _ ih => simpa [isAssignableTo] using ih

/-- **The test that programs are checked by decides its rules.** -/
theorem isCompatibleWith_iff_suits : a.isCompatibleWith b = true ↔ Suits a b := by
  simp only [isCompatibleWith, Bool.or_eq_true, Bool.and_eq_true, decide_eq_true_eq,
    isAssignableTo_iff_fits]
  constructor
  · rintro ((⟨rfl, hb⟩ | ⟨rfl, hb | hb⟩) | h)
    · cases b <;> cases hb
      exact .emptyArray _
    · exact .nullObject hb
    · cases b <;> cases hb
      exact .nullArray _
    · exact .fits h
  · rintro (_ | _ | hb | h)
    · exact .inl (.inl ⟨rfl, rfl⟩)
    · exact .inl (.inr ⟨rfl, .inr rfl⟩)
    · exact .inl (.inr ⟨rfl, .inl hb⟩)
    · exact .inr h

/-! ## The laws of the order -/

/-- Nothing but `String` is above `String`. -/
lemma Fits.eq_string (h : Fits string c) : c = string := by
  cases h with
  | same | asString => rfl
  | widened hp => cases hp

lemma Fits.trans (h : Fits a b) (h' : Fits b c) : Fits a c := by
  induction h generalizing c with
  | same => exact h'
  | widened hp hq hle =>
    cases h' with
    | same => exact .widened hp hq hle
    | widened hq' hr hle' =>
      obtain rfl := Option.some.inj (hq.symm.trans hq')
      exact .widened hp hr (Nat.le_trans hle hle')
    | asString => exact .asString _
  | asString => exact h'.eq_string ▸ .asString _
  | elements h ih =>
    cases h' with
    | same => exact .elements h
    | asString => exact .asString _
    | elements h' => exact .elements (ih h')
  | bases h ih =>
    cases h' with
    | same => exact .bases h
    | asString => exact .asString _
    | bases h' => exact .bases (ih h')

lemma Fits.antisymm (h : Fits a b) (h' : Fits b a) : a = b := by
  induction h with
  | same => rfl
  | widened hp hq hle =>
    cases h' with
    | same => rfl
    | widened hq' hp' hle' =>
      obtain rfl := Option.some.inj (hq.symm.trans hq')
      obtain rfl := Option.some.inj (hp.symm.trans hp')
      obtain rfl := Nat.le_antisymm hle hle'
      rw [Primitive.eq_of_rank?_eq hp hq]
    | asString => cases hp
  | asString => exact h'.eq_string
  | elements h ih =>
    cases h' with
    | same => rfl
    | elements h' => rw [ih h']
  | bases h ih =>
    cases h' with
    | same => rfl
    | bases h' => rw [ih h']

/-- Only `null` itself fits a slot for `null`. -/
lemma Fits.eq_null (h : Fits a null) : a = null := by
  cases h
  rfl

/-- Only the type of the array without elements fits a slot of that type. -/
lemma Fits.eq_emptyArray (h : Fits a (array void)) : a = array void := by
  cases h with
  | same => rfl
  | elements h =>
    cases h
    rfl

/-- Above an array there are only arrays and `String`. -/
lemma Suits.of_array (h : Suits (array b) c) : c = string ∨ ∃ d, c = array d := by
  cases h with
  | emptyArray d => exact .inr ⟨d, rfl⟩
  | fits h =>
    cases h with
    | same => exact .inr ⟨b, rfl⟩
    | asString => exact .inl rfl
    | elements => exact .inr ⟨_, rfl⟩

/-- Above a class there are only classes, arrays and `String`. -/
lemma Suits.of_isClass (hb : b.isClass = true) (h : Suits b c) :
    c = string ∨ c.isClass = true ∨ ∃ d, c = array d := by
  cases h with
  | emptyArray => cases hb
  | nullArray d => exact .inr (.inr ⟨d, rfl⟩)
  | nullObject hc => exact .inr (.inl hc)
  | fits h =>
    cases h with
    | same => exact .inr (.inl hb)
    | widened | elements => cases hb
    | asString => exact .inl rfl
    | bases => exact .inr (.inl rfl)

lemma Suits.trans (h : Suits a b) (h' : Suits b c) : Suits a c := by
  cases h with
  | emptyArray =>
    rcases h'.of_array with rfl | ⟨d, rfl⟩
    · exact .fits (.asString _)
    · exact .emptyArray d
  | nullArray =>
    rcases h'.of_array with rfl | ⟨d, rfl⟩
    · exact .fits (.asString _)
    · exact .nullArray d
  | nullObject hb =>
    rcases h'.of_isClass hb with rfl | hc | ⟨d, rfl⟩
    · exact .fits (.asString _)
    · exact .nullObject hc
    · exact .nullArray d
  | fits h =>
    cases h' with
    | emptyArray d => exact h.eq_emptyArray ▸ .emptyArray d
    | nullArray d => exact h.eq_null ▸ .nullArray d
    | nullObject hc => exact h.eq_null ▸ .nullObject hc
    | fits h' => exact .fits (h.trans h')

lemma Suits.antisymm (h : Suits a b) (h' : Suits b a) : a = b := by
  cases h with
  | emptyArray =>
    cases h' with
    | emptyArray => rfl
    | fits h' => exact h'.eq_emptyArray.symm
  | nullArray =>
    cases h' with
    | fits h' => exact h'.eq_null.symm
  | nullObject =>
    cases h' with
    | nullObject => rfl
    | fits h' => exact h'.eq_null.symm
  | fits h =>
    cases h' with
    | emptyArray => exact h.eq_emptyArray
    | nullArray | nullObject => exact h.eq_null
    | fits h' => exact h.antisymm h'

/-- **Assignability is a partial order with `String` on top**, as the rule on types and as the rule
that programs are checked by. -/
theorem assignability_isPartialOrder :
    IsPartialOrder Ty (fun a b => a.isAssignableTo b = true) ∧
      IsPartialOrder Ty (fun a b => a.isCompatibleWith b = true) ∧
      ∀ t : Ty, t.isAssignableTo string = true ∧ t.isCompatibleWith string = true := by
  simp only [isAssignableTo_iff_fits, isCompatibleWith_iff_suits]
  refine ⟨?_, ?_, fun t => ⟨.asString t, .fits (.asString t)⟩⟩
  · exact { refl := .same, trans := fun _ _ _ => .trans, antisymm := fun _ _ => Fits.antisymm }
  · exact
      { refl := fun t => .fits (.same t)
        trans := fun _ _ _ => .trans
        antisymm := fun _ _ => Suits.antisymm }

/-! ## Flattened forms -/

/-- The type has as many dimensions as `dimension` says, and its elements are of the type
`element`, which is no array itself. -/
structure FlattensTo (t element : Ty) (dimension : Nat) : Prop where
  isArray_eq_false : element.isArray = false
  eq_arrayOf : t = element.arrayOf dimension

lemma flattensTo_splitArray : ∀ t : Ty, t.FlattensTo t.splitArray.1 t.splitArray.2
  | array t =>
    have h := flattensTo_splitArray t
    ⟨h.isArray_eq_false, congrArg array h.eq_arrayOf⟩
  | void | primitive _ | named _ | param _ | generic _ _ => ⟨rfl, rfl⟩

lemma arrayOf_arrayOf (t : Ty) (m n : Nat) : (t.arrayOf m).arrayOf n = t.arrayOf (m + n) := by
  induction n with
  | zero => rfl
  | succ n ih => exact congrArg array ih

/-! ## Replacing type parameters -/

section Substitute

variable (bound : Bindings)

lemma substitute_arrayOf (t : Ty) (n : Nat) :
    (t.arrayOf n).substitute bound = (t.substitute bound).arrayOf n := by
  induction n with
  | zero => rfl
  | succ n ih => simpa [arrayOf, substitute] using ih

lemma isClass_substitute (h : a.isClass = true) : (a.substitute bound).isClass = true := by
  cases a <;> cases h <;> simp [Ty.substitute, isClass]

lemma Fits.substitute (h : Fits a b) : Fits (a.substitute bound) (b.substitute bound) := by
  induction h with
  | same => exact .same _
  | widened hp hq hle => simpa [Ty.substitute] using Fits.widened hp hq hle
  | asString => simpa [Ty.substitute] using Fits.asString _
  | elements _ ih => simpa [Ty.substitute] using ih.elements
  | bases _ ih => simpa [Ty.substitute] using ih.bases

lemma Suits.substitute (h : Suits a b) : Suits (a.substitute bound) (b.substitute bound) := by
  cases h with
  | emptyArray => simpa [Ty.substitute] using Suits.emptyArray _
  | nullArray => simpa [Ty.substitute] using Suits.nullArray _
  | nullObject hb => simpa [Ty.substitute] using Suits.nullObject (isClass_substitute bound hb)
  | fits h => exact .fits (h.substitute bound)

lemma substitute_elementType (h : a.isArray = true) :
    a.elementType.substitute bound = (a.substitute bound).elementType := by
  cases a <;> cases h
  simp [elementType, Ty.substitute]

/-- An array of a parameter becomes an array with the dimensions of what the parameter stands for
added to its own. -/
lemma FlattensTo.substitute {element inner : Ty} {dimension more : Nat}
    (h : a.FlattensTo element dimension) (h' : (element.substitute bound).FlattensTo inner more) :
    (a.substitute bound).FlattensTo inner (more + dimension) := by
  refine ⟨h'.isArray_eq_false, ?_⟩
  rw [h.eq_arrayOf, substitute_arrayOf, h'.eq_arrayOf, arrayOf_arrayOf]

end Substitute

end Ty

end ClassLang
