import ClassLang.Analysis.Typing
import Mathlib.Data.List.Basic

set_option autoImplicit false

/-!
# Scopes that look alike

Types of expressions depend on the scopes only through lookups of names. Two chains of scopes in
which every lookup gives the same symbol, or classes with the same members under the same names,
give every expression the same type or the same error. In what order the global scope and the
members of a class are kept makes no difference. For the types that are written the members of
classes make no difference either.

## Main definitions

* `ClassLang.Symbol.Alike`, `ClassLang.Table.Alike`, `ClassLang.Scopes.Alike` — symbols, tables and
  chains of scopes that look alike.
* `ClassLang.Scopes.SameClasses` — chains of scopes that know the same classes.

## Main results

* `ClassLang.Typing.resolveType_congr`, `ClassLang.Typing.typeOf_congr`,
  `ClassLang.Typing.checkInitializer_congr` — typing does not tell such scopes apart.
-/

namespace ClassLang

/-- Symbols that no lookup tells apart: the same symbol, or classes with the same type parameters
and, by name, the same members. -/
inductive Symbol.Alike : Symbol → Symbol → Prop where
  | refl (a : Symbol) : Alike a a
  | classDef (name : String) (typeParams : List String) {members members' : Table}
      (h : ∀ n, members.get? n = members'.get? n) :
      Alike (.classDef name typeParams members) (.classDef name typeParams members')

namespace Symbol.Alike

variable {a b : Symbol}

lemma name_eq (h : a.Alike b) : a.name = b.name := by
  cases h <;> rfl

lemma type_eq (h : a.Alike b) : a.type = b.type := by
  cases h <;> rfl

lemma isVar_eq (h : a.Alike b) : a.isVar = b.isVar := by
  cases h <;> rfl

lemma isClass_eq (h : a.Alike b) : a.isClass = b.isClass := by
  cases h <;> rfl

lemma trans {c : Symbol} (hab : a.Alike b) (hbc : b.Alike c) : a.Alike c := by
  cases hab with
  | refl => exact hbc
  | classDef name typeParams h =>
    cases hbc with
    | refl => exact .classDef name typeParams h
    | classDef _ _ h' => exact .classDef name typeParams fun n => (h n).trans (h' n)

end Symbol.Alike

/-- Lookups that give nothing, or symbols that look alike. -/
abbrev Symbol.FoundAlike : Option Symbol → Option Symbol → Prop :=
  Option.Rel Symbol.Alike

lemma Symbol.FoundAlike.refl (o : Option Symbol) : Symbol.FoundAlike o o := by
  cases o with
  | none => exact .none
  | some a => exact .some (.refl a)

/-- Classes with the same type parameters and, by name, the same members. -/
structure ClassInfo.Alike (c d : ClassInfo) : Prop where
  typeParams : c.typeParams = d.typeParams
  members : ∀ n, c.members.get? n = d.members.get? n

/-- Tables in which every name is bound to symbols that look alike. -/
def Table.Alike (s t : Table) : Prop :=
  ∀ n, Symbol.FoundAlike (s.get? n) (t.get? n)

lemma Table.Alike.refl (t : Table) : t.Alike t :=
  fun n => .refl (t.get? n)

lemma Table.Alike.trans {s t u : Table} (hst : s.Alike t) (htu : t.Alike u) : s.Alike u := by
  intro n
  have hs := hst n
  have ht := htu n
  generalize s.get? n = x at hs
  generalize t.get? n = y at hs ht
  generalize u.get? n = z at ht
  cases hs with
  | none => exact ht
  | some hab =>
    cases ht with
    | some hbc => exact .some (hab.trans hbc)

/-- Binding a name to symbols that look alike keeps tables alike. -/
lemma Table.Alike.insert {s t : Table} (h : s.Alike t) {a b : Symbol} (hab : a.Alike b) :
    (s.insert a).Alike (t.insert b) := by
  intro n
  rw [Table.get?_insert, Table.get?_insert, hab.name_eq]
  split
  · exact .some hab
  · exact h n

/-- Chains of scopes with the same block scopes in the same class, whose global scopes look
alike. -/
structure Scopes.Alike (s t : Scopes) : Prop where
  global : s.global.Alike t.global
  currentClass : s.currentClass = t.currentClass
  locals : s.locals = t.locals

/-- Scopes that know the same classes, with the same type parameters. -/
def Scopes.SameClasses (s t : Scopes) : Prop :=
  ∀ n, (s.class? n).map ClassInfo.typeParams = (t.class? n).map ClassInfo.typeParams

namespace Scopes.Alike

variable {s t : Scopes}

lemma refl (s : Scopes) : s.Alike s := ⟨.refl _, rfl, rfl⟩

/-- Classes looked up in scopes that look alike are alike. -/
lemma class? (h : s.Alike t) (n : String) :
    Option.Rel ClassInfo.Alike (s.class? n) (t.class? n) := by
  unfold Scopes.class?
  have hn := h.global n
  generalize s.global.get? n = x at hn
  generalize t.global.get? n = y at hn
  cases hn with
  | none => exact .none
  | some hsym =>
    cases hsym with
    | refl =>
      rename_i a
      cases a with
      | classDef name typeParams members => exact .some ⟨rfl, fun _ => rfl⟩
      | _ => exact .none
    | classDef name typeParams hmembers => exact .some ⟨rfl, hmembers⟩

/-- The two ways in which a lookup of a class in scopes that look alike can end. -/
lemma class?_cases (h : s.Alike t) (n : String) :
    (s.class? n = none ∧ t.class? n = none) ∨
      ∃ c d, s.class? n = some c ∧ t.class? n = some d ∧ c.Alike d := by
  have hn := h.class? n
  generalize s.class? n = x at hn
  generalize t.class? n = y at hn
  cases hn with
  | none => exact .inl ⟨rfl, rfl⟩
  | some hcd => exact .inr ⟨_, _, rfl, rfl, hcd⟩

lemma sameClasses (h : s.Alike t) : s.SameClasses t := by
  intro n
  rcases h.class?_cases n with ⟨hs, ht⟩ | ⟨c, d, hs, ht, hcd⟩
  · rw [hs, ht]
  · rw [hs, ht, Option.map_some, Option.map_some, hcd.typeParams]

/-- The members of the class at hand are bound alike. -/
lemma currentMember (h : s.Alike t) (n : String) :
    (s.currentMembers?.bind fun members => members.get? n) =
      t.currentMembers?.bind fun members => members.get? n := by
  unfold Scopes.currentMembers?
  rw [h.currentClass]
  cases t.currentClass with
  | none => rfl
  | some name =>
    rcases h.class?_cases name with ⟨hs, ht⟩ | ⟨c, d, hs, ht, hcd⟩
    · simp [hs, ht]
    · simpa [hs, ht] using hcd.members n

lemma resolveMember (h : s.Alike t) (n : String) :
    Symbol.FoundAlike (s.resolveMember n) (t.resolveMember n) := by
  unfold Scopes.resolveMember
  rw [h.currentMember n]
  cases t.currentMembers?.bind fun members => members.get? n with
  | none => exact h.global n
  | some a => exact .some (.refl a)

lemma resolve (h : s.Alike t) (n : String) :
    Symbol.FoundAlike (s.resolve n) (t.resolve n) := by
  unfold Scopes.resolve
  rw [h.locals]
  cases t.locals.findSome? fun table => table.get? n with
  | none => exact h.resolveMember n
  | some a => exact .some (.refl a)

lemma resolveHere (h : s.Alike t) (n : String) :
    (s.resolveHere n).isSome = (t.resolveHere n).isSome := by
  have hglobal : (s.global.get? n).isSome = (t.global.get? n).isSome := by
    have hn := h.global n
    generalize s.global.get? n = x at hn
    generalize t.global.get? n = y at hn
    cases hn <;> rfl
  unfold Scopes.resolveHere Scopes.currentTable
  rw [h.locals]
  cases t.locals with
  | cons table outer => rfl
  | nil =>
    unfold Scopes.currentMembers?
    rw [h.currentClass]
    cases t.currentClass with
    | none => exact hglobal
    | some name =>
      rcases h.class?_cases name with ⟨hs, ht⟩ | ⟨c, d, hs, ht, hcd⟩
      · simpa [hs, ht] using hglobal
      · simp [hs, ht, hcd.members n]

end Scopes.Alike

/-! ## Types -/

namespace Typing

variable {s t : Scopes}

mutual

/-- Written types stand for the same types. -/
theorem resolveType_of_sameClasses (h : s.SameClasses t) (line : Nat) :
    (type : TypeExpr) → resolveType s line type = resolveType t line type
  | .mk name args dimensions => by
    simp only [resolveType]
    cases Builtin.primitive? name with
    | some type => rfl
    | none =>
      have hname := h name
      cases hs : s.class? name with
      | none =>
        rw [hs, Option.map_none, eq_comm, Option.map_eq_none_iff] at hname
        simp only [hname]
      | some c =>
        rw [hs, Option.map_some, eq_comm, Option.map_eq_some_iff] at hname
        obtain ⟨d, ht, hparams⟩ := hname
        have hgeneric : c.isGeneric = d.isGeneric := by
          rw [ClassInfo.isGeneric, ← hparams, ← ClassInfo.isGeneric]
        simp only [ht, hgeneric, resolveTypes_of_sameClasses h line args]

/-- Several written types stand for the same types. -/
theorem resolveTypes_of_sameClasses (h : s.SameClasses t) (line : Nat) :
    (types : List TypeExpr) → resolveTypes s line types = resolveTypes t line types
  | [] => rfl
  | type :: types => by
    simp only [resolveTypes, resolveType_of_sameClasses h line type,
      resolveTypes_of_sameClasses h line types]

end

lemma resolveType_congr (h : s.Alike t) (line : Nat) (type : TypeExpr) :
    resolveType s line type = resolveType t line type :=
  resolveType_of_sameClasses h.sameClasses line type

lemma nameType_congr (h : s.Alike t) (line : Nat) (name : String) :
    nameType s line name = nameType t line name := by
  unfold nameType
  have hn := h.resolve name
  generalize s.resolve name = x at hn
  generalize t.resolve name = y at hn
  cases hn with
  | none => rfl
  | some hsym => simp only [hsym.isVar_eq, hsym.isClass_eq, hsym.type_eq]

lemma slotType_congr (h : s.Alike t) (line : Nat) (name : String) :
    slotType s line name = slotType t line name := by
  unfold slotType
  have hn := h.resolve name
  generalize s.resolve name = x at hn
  generalize t.resolve name = y at hn
  cases hn with
  | none => rfl
  | some hsym => simp only [hsym.isVar_eq, hsym.type_eq]

lemma newObjectType_congr (h : s.Alike t) (line : Nat) (type : TypeExpr) :
    newObjectType s line type = newObjectType t line type := by
  have hsome : ∀ n, (s.class? n).isSome = (t.class? n).isSome := by
    intro n
    rcases h.class?_cases n with ⟨hs, ht⟩ | ⟨c, d, hs, ht, -⟩
    · rw [hs, ht]
    · rw [hs, ht]
      rfl
  simp only [newObjectType, resolveType_congr h line type, hsome]

lemma memberType_congr (h : s.Alike t) (line objectLine : Nat) (object : Ty) (name : String) :
    memberType s line objectLine object name = memberType t line objectLine object name := by
  unfold memberType
  cases object.className? with
  | none => rfl
  | some className =>
    rcases h.class?_cases className with ⟨hs, ht⟩ | ⟨c, d, hs, ht, hcd⟩
    · simp only [hs, ht]
    · simp only [hs, ht, hcd.members name]

lemma fieldType_congr (h : s.Alike t) (line objectLine : Nat) (object : Ty) (name : String) :
    fieldType s line objectLine object name = fieldType t line objectLine object name := by
  rw [fieldType, fieldType, memberType_congr h]

lemma methodSignature_congr (h : s.Alike t) (line : Nat) (receiver : Ty) (name : String) :
    methodSignature s line receiver name = methodSignature t line receiver name := by
  unfold methodSignature
  cases receiver.className? with
  | none => rfl
  | some className =>
    rcases h.class?_cases className with ⟨hs, ht⟩ | ⟨c, d, hs, ht, hcd⟩
    · simp only [Option.bind_eq_bind, Option.bind_some, hs, ht]
    · simp only [Option.bind_eq_bind, Option.bind_some, hs, ht, hcd.members name, hcd.typeParams]

lemma callType_congr (h : s.Alike t) (line : Nat) (name : String) (args : List (Nat × Ty)) :
    callType s line name args = callType t line name args := by
  unfold callType
  have hn := h.resolveMember name
  generalize s.resolveMember name = x at hn
  generalize t.resolveMember name = y at hn
  cases hn with
  | none => rfl
  | some hsym =>
    cases hsym with
    | refl => rfl
    | classDef => rfl

mutual

/-- **Expressions have the same type, or the same error, in scopes that look alike.** -/
theorem typeOf_congr (h : s.Alike t) : (e : Expr) → typeOf s e = typeOf t e
  | .literal _ _ => rfl
  | .var line name => nameType_congr h line name
  | .binary line op left right => by
    simp only [typeOf, typeOf_congr h left, typeOf_congr h right]
  | .unary line op operand => by simp only [typeOf, typeOf_congr h operand]
  | .call line name args => by
    simp only [typeOf, typesOf_congr h args, callType_congr h]
  | .methodCall line receiver name args => by
    simp only [typeOf, typeOf_congr h receiver, typesOf_congr h args, methodSignature_congr h,
      fun params => checkArguments_congr h params args]
  | .index line array place => by
    simp only [typeOf, typeOf_congr h array, typeOf_congr h place]
  | .field line object name => by simp only [typeOf, typeOf_congr h object, fieldType_congr h]
  | .newObject line type _ => newObjectType_congr h line type
  | .newArray line type size _ => by
    simp only [typeOf, typeOf_congr h size, resolveType_congr h]
  | .assign line target value => by
    simp only [typeOf, targetType_congr h target, typeOf_congr h value]
  | .arrayInit line [] => rfl
  | .arrayInit line (first :: rest) => by
    simp only [typeOf, typeOf_congr h first, fun type => checkAlike_congr h line type rest]

/-- Slots have the same type. -/
theorem targetType_congr (h : s.Alike t) : (e : Expr) → targetType s e = targetType t e
  | .var line name => slotType_congr h line name
  | .index _ array place => by
    simp only [targetType, typeOf_congr h array, typeOf_congr h place]
  | .field line object name => by
    simp only [targetType, typeOf_congr h object, memberType_congr h]
  | .literal _ _ | .binary _ _ _ _ | .unary _ _ _ | .call _ _ _ | .methodCall _ _ _ _
  | .newObject _ _ _ | .newArray _ _ _ _ | .assign _ _ _ | .arrayInit _ _ => rfl

/-- Several expressions have the same types. -/
theorem typesOf_congr (h : s.Alike t) : (es : List Expr) → typesOf s es = typesOf t es
  | [] => rfl
  | e :: es => by simp only [typesOf, typeOf_congr h e, typesOf_congr h es]

/-- Arguments fit their parameters alike. -/
theorem checkArguments_congr (h : s.Alike t) (params : List Ty) :
    (es : List Expr) → checkArguments s params es = checkArguments t params es
  | [] => rfl
  | e :: es => by
    cases params with
    | nil => rfl
    | cons expected params =>
      simp only [checkArguments, typeOf_congr h e, checkArguments_congr h params es]

/-- Further elements fit the first one alike. -/
theorem checkAlike_congr (h : s.Alike t) (line : Nat) (expected : Ty) :
    (es : List Expr) → checkAlike s line expected es = checkAlike t line expected es
  | [] => rfl
  | e :: es => by
    simp only [checkAlike, typeOf_congr h e, checkAlike_congr h line expected es]

end

lemma typeExpecting_congr (h : s.Alike t) (e : Expr) (expected : Ty) :
    typeExpecting s e expected = typeExpecting t e expected := by
  rw [typeExpecting, typeExpecting, typeOf_congr h e]

lemma checkElements_congr (h : s.Alike t) (expected : Ty) (es : List Expr) :
    checkElements s expected es = checkElements t expected es := by
  induction es with
  | nil => rfl
  | cons e es ih => simp only [checkElements, typeExpecting_congr h e, ih]

/-- Initial values fit their slots alike. -/
lemma checkInitializer_congr (h : s.Alike t) (declared : Ty) (slot : Slot) (init : Expr) :
    checkInitializer s declared slot init = checkInitializer t declared slot init := by
  unfold checkInitializer
  split
  · exact checkElements_congr h _ _
  · rw [typeExpecting_congr h]

end Typing

end ClassLang
