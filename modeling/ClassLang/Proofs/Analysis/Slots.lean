import ClassLang.Proofs.Analysis.Composition
import ClassLang.Proofs.Analysis.Parts

set_option autoImplicit false

/-!
# Slots that are read and written

A variable, an element of an array and a field can be read, and they can be assigned to. The type of
the slot is found by one rule for its value and by another for the assignment. The rules for
variables and fields agree on everything that can be assigned to. Those for elements do not: a value
has an index of type `int`, and an assignment takes any numeric one.

## Main definitions

* `ClassLang.Typing.fractionalPlace?` — the index of an element, if it is numeric but no `int`.

## Main results

* `ClassLang.Check.runFrom_typeOf_of_target` — a slot that can be assigned to has the same type as a
  value, unless it is an element with such an index.
-/

namespace ClassLang

namespace Typing

/-- The index of an element of an array, if its type is numeric and not `int`. -/
def fractionalPlace? (s : Scopes) : Expr → Option Expr
  | .index _ _ place =>
    match typeOf s place with
    | .ok i => if i.isNumeric && i ≠ .int then some place else none
    | .error _ => none
  | _ => none

variable {s : Scopes} {t : Ty}

/-- A name that can be assigned to names a variable, and that is its type as a value. -/
lemma nameType_of_slotType {line : Nat} {name : String} (h : slotType s line name = .ok t) :
    nameType s line name = .ok t := by
  unfold slotType at h
  unfold nameType
  cases hname : s.resolve name with
  | none => simp [hname, fail] at h
  | some symbol =>
    by_cases hvar : symbol.isVar = true
    · simpa [hname, hvar] using h
    · simp [hname, hvar, fail] at h

/-- Members belong to objects of classes, so the length of an array does not come in between. -/
lemma fieldType_of_memberType {line objectLine : Nat} {object : Ty} {name : String}
    (h : memberType s line objectLine object name = .ok t) :
    fieldType s line objectLine object name = .ok t := by
  have hclass : object.isArray = false := by
    cases object with
    | array element => simp [memberType, Ty.className?, fail] at h
    | _ => rfl
  simp only [fieldType, hclass, Bool.false_and, Bool.false_eq_true, if_false, h]

/-- What an assignment to an element asks of the array and of the index. -/
lemma targetType_index {line : Nat} {array place : Expr} :
    targetType s (.index line array place) = .ok t ↔
      ∃ a i, typeOf s array = .ok a ∧ typeOf s place = .ok i ∧ a.isArray = true ∧
        i.isNumeric = true ∧ a.elementType = t := by
  simp only [targetType, bind_eq_ok, ensure_eq_ok, Except.ok.injEq]
  constructor
  · rintro ⟨a, ha, i, hi, -, harray, -, hnumeric, rfl⟩
    exact ⟨a, i, ha, hi, harray, hnumeric, rfl⟩
  · rintro ⟨a, i, ha, hi, harray, hnumeric, rfl⟩
    exact ⟨a, ha, i, hi, (), harray, (), hnumeric, rfl⟩

/-- The value of an element of an array, from the type of its index. -/
lemma typeOf_index {line : Nat} {array place : Expr} {a i : Ty} (ha : typeOf s array = .ok a)
    (harray : a.isArray = true) (hi : typeOf s place = .ok i) :
    typeOf s (.index line array place) =
      if i = .int then .ok a.elementType else fail place.line (.nonNumericIndex none) := by
  rw [typeOf, ha]
  change (elementType line a >>= _) = _
  rw [elementType, harray]
  change (typeOf s place >>= _) = _
  rw [hi]
  by_cases hint : i = .int
  · subst hint
    rfl
  · rw [if_neg hint]
    change (ensure (decide (i = .int)) place.line (.nonNumericIndex none) >>= _) = _
    rw [decide_eq_false hint]
    rfl

/-- The type of a slot as a value, from its type in an assignment.

**Proof sketch.** By cases on the slot. The parts of an element and of a field are values for both
rules, so that they have the same types; for an element it is left to look at the type of the
index. -/
lemma typeOf_of_targetType {e : Expr} (h : targetType s e = .ok t) :
    typeOf s e =
      match fractionalPlace? s e with
      | none => .ok t
      | some place => fail place.line (.nonNumericIndex none) := by
  cases e with
  | var line name =>
    rw [targetType] at h
    simpa only [typeOf, fractionalPlace?] using nameType_of_slotType h
  | field line object name =>
    simp only [targetType, bind_eq_ok] at h
    obtain ⟨o, ho, hmember⟩ := h
    simp only [typeOf, fractionalPlace?, bind_eq_ok]
    exact ⟨o, ho, fieldType_of_memberType hmember⟩
  | index line array place =>
    obtain ⟨a, i, ha, hi, harray, hnumeric, rfl⟩ := targetType_index.1 h
    rw [typeOf_index ha harray hi]
    by_cases hint : i = .int
    · simp [fractionalPlace?, hi, hint]
    · simp [fractionalPlace?, hi, hint, hnumeric]
  | _ => simp [targetType, fail] at h

end Typing

namespace Check

/-- **Slots are read as they are written.** In every state, an expression that can be assigned to is
a variable, an element of an array or a field, and its check as a value ends with the same type and
leaves the state as it is. The only exception is an element whose index has a numeric type other
than `int`: it can be assigned to, but its value is refused. -/
theorem runFrom_typeOf_of_target (a : Analyzer) {e : Expr} {t : Ty}
    (h : Typing.targetType a.scopes e = .ok t) :
    e.isLValue = true ∧
      (typeOf e).runFrom a =
        (match Typing.fractionalPlace? a.scopes e with
          | none => .ok t
          | some place => .error ⟨.nonNumericIndex none, place.line⟩, a) := by
  refine ⟨?_, ?_⟩
  · cases e with
    | var line name => rfl
    | index line array place => rfl
    | field line object name => rfl
    | _ => simp [Typing.targetType, Typing.fail] at h
  · rw [typeOf, runFrom_inScopes, Typing.typeOf_of_targetType h]
    rfl

/-- A state with an array `m` of arrays and the variables `k` and `x`. -/
def stateOfArrays : Analyzer where
  scopes :=
    { global := Builtin.globals
      locals := [[.var "m" (.array (.array .char)), .var "k" .int, .var "x" .double]] }

/-- `m[k][k]` -/
def elementOfElement : Expr :=
  .index 1 (.index 1 (.var 1 "m") (.var 1 "k")) (.var 1 "k")

/-- An element of an element of an array has the same type for both. -/
theorem runFrom_typeOf_of_target_element :
    Typing.targetType stateOfArrays.scopes elementOfElement = .ok .char ∧
      (typeOf elementOfElement).runFrom stateOfArrays = (.ok .char, stateOfArrays) := by
  have htarget : Typing.targetType stateOfArrays.scopes elementOfElement = .ok .char := by
    decide +kernel
  exact ⟨htarget, (runFrom_typeOf_of_target stateOfArrays htarget).2⟩

/-- `m[x] = m[k]` is accepted, and `m[x]` is not. -/
theorem exists_target_without_value :
    ∃ (a : Analyzer) (e : Expr) (t : Ty), Typing.targetType a.scopes e = .ok t ∧
      (typeOf (.assign 1 e (.index 1 (.var 1 "m") (.var 1 "k")))).runFrom a = (.ok t, a) ∧
      (typeOf e).runFrom a = (.error ⟨.nonNumericIndex none, 1⟩, a) :=
  ⟨stateOfArrays, .index 1 (.var 1 "m") (.var 1 "x"), .array .char, by decide +kernel, rfl, rfl⟩

end Check

end ClassLang
