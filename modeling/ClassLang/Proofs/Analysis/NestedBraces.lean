import ClassLang.Proofs.Analysis.Parts

set_option autoImplicit false

/-!
# Initial values of arrays of arrays

The initial value of an array in braces is checked element by element against the type that the
array is declared with. Braces inside it are not: they have a type of their own, for which the first
element counts, and the others have to fit the first. This type is compared with the declared one
only behind that. So all is well with one pair of braces around fitting elements. Deeper inside, the
first elements have to be the widest ones, and neither `null` nor empty braces can come first.

## Main definitions

* `ClassLang.Expr.Nested` — braces inside braces down to one depth.
* `ClassLang.Typing.lead` — the type of nested braces, which their first elements give.
* `ClassLang.Typing.Headed` — in each pair of braces all elements fit the first.

## Main results

* `ClassLang.Typing.typeOf_nested` — what nested braces have for a type, and when they have one.
* `ClassLang.Typing.checkInitializer_nested` — which nested braces are an initial value.
* `ClassLang.Typing.checkInitializer_of_alike` — all those with elements of one type are.
-/

namespace ClassLang

/-- Braces inside braces, `depth` times, around expressions with a property. -/
def Expr.Nested (P : Expr → Prop) : (depth : Nat) → Expr → Prop
  | 0, e => P e
  | depth + 1, .arrayInit _ elements => ∀ e ∈ elements, Nested P depth e
  | _ + 1, _ => False

/-- No braces are empty, `depth` times. -/
def Expr.Filled : (depth : Nat) → Expr → Prop
  | depth + 1, .arrayInit _ elements => elements ≠ [] ∧ ∀ e ∈ elements, Filled depth e
  | _, _ => True

lemma Expr.Nested.mono {P Q : Expr → Prop} (hPQ : ∀ e, P e → Q e) {depth : Nat} {e : Expr}
    (h : e.Nested P depth) : e.Nested Q depth := by
  induction depth generalizing e with
  | zero => exact hPQ e h
  | succ depth ih =>
    cases e with
    | arrayInit line elements => exact fun e he => ih (h e he)
    | _ => exact h

namespace Typing

/-- The expression has a type that fits slots of a type. -/
def Suitable (s : Scopes) (expected : Ty) (e : Expr) : Prop :=
  ∃ t, typeOf s e = .ok t ∧ t.isCompatibleWith expected = true

/-- The type that the first elements of nested braces give to all. -/
def lead (s : Scopes) : (depth : Nat) → Expr → Ty
  | depth + 1, .arrayInit _ (first :: _) => .array (lead s depth first)
  | _ + 1, .arrayInit _ [] => .array .void
  | _, e => (typeOf s e).toOption.getD .void

/-- In nested braces all elements fit the first, by the types that their own first elements give
to them. -/
def Headed (s : Scopes) : (depth : Nat) → Expr → Prop
  | depth + 1, .arrayInit _ (first :: rest) =>
    Headed s depth first ∧
      ∀ e ∈ rest, Headed s depth e ∧ (lead s depth e).isCompatibleWith (lead s depth first) = true
  | _, _ => True

variable {s : Scopes}

/-- **The type of nested braces.** They have one if their elements fit the first ones. -/
theorem typeOf_nested {depth : Nat} {e : Expr} {t : Ty}
    (h : e.Nested (fun leaf => ∃ t, typeOf s leaf = .ok t) depth) :
    typeOf s e = .ok t ↔ Headed s depth e ∧ lead s depth e = t := by
  induction depth generalizing e t with
  | zero =>
    obtain ⟨u, hu⟩ := h
    simp only [Headed, lead, hu, true_and]
    exact ⟨Except.ok.inj, congrArg Except.ok⟩
  | succ depth ih =>
    cases e with
    | arrayInit line elements =>
      cases elements with
      | nil =>
        simp only [typeOf, Headed, lead, true_and]
        exact ⟨Except.ok.inj, congrArg Except.ok⟩
      | cons first rest =>
        obtain ⟨hfirst, hrest⟩ := List.forall_mem_cons.1 h
        simp only [typeOf, bind_eq_ok, checkAlike_eq_ok, Headed, lead, Except.ok.injEq,
          exists_const]
        constructor
        · rintro ⟨u, hu, hfit, rfl⟩
          obtain ⟨hheaded, rfl⟩ := (ih hfirst).1 hu
          refine ⟨⟨hheaded, fun e he => ?_⟩, rfl⟩
          obtain ⟨v, hv, hfits⟩ := hfit e he
          obtain ⟨hheaded', rfl⟩ := (ih (hrest e he)).1 hv
          exact ⟨hheaded', hfits⟩
        · rintro ⟨⟨hheaded, hfit⟩, rfl⟩
          refine ⟨_, (ih hfirst).2 ⟨hheaded, rfl⟩, fun e he => ?_, rfl⟩
          exact ⟨_, (ih (hrest e he)).2 ⟨(hfit e he).1, rfl⟩, (hfit e he).2⟩
    | _ => exact h.elim

/-! ## Initial values -/

/-- What fits a slot still does if it takes its type arguments from there. -/
lemma isCompatibleWith_adopt {e : Expr} {expected found : Ty}
    (h : found.isCompatibleWith expected = true) :
    (adopt e expected found).isCompatibleWith expected = true := by
  unfold adopt
  split
  · split
    · simp [Ty.isCompatibleWith]
    · exact h
  · exact h

/-- **Nested braces as an initial value.** Let all innermost expressions fit the element type of an
array. If there is one pair of braces, they are an initial value of the array. If there are more,
they are one exactly if, in each of the inner braces, all elements fit the first, and the type that
the first elements give to them is that of a row of the array. -/
theorem checkInitializer_nested (s : Scopes) (element : Ty) (depth : Nat) (slot : Slot) (line : Nat)
    (rows : List Expr)
    (hleaves : ∀ row ∈ rows, row.Nested (Suitable s element) depth) :
    checkInitializer s (element.arrayOf (depth + 1)) slot (.arrayInit line rows) = .ok () ↔
      depth = 0 ∨ ∀ row ∈ rows, Headed s depth row ∧
        (lead s depth row).isCompatibleWith (element.arrayOf depth) = true := by
  change checkElements s (element.arrayOf depth) rows = .ok () ↔ _
  rw [checkElements_eq_ok]
  cases depth with
  | zero =>
    refine iff_of_true (fun leaf hleaf => ?_) (.inl rfl)
    obtain ⟨t, ht, hfits⟩ := hleaves leaf hleaf
    exact ⟨t, ht, isCompatibleWith_adopt hfits⟩
  | succ depth =>
    rw [or_iff_right (Nat.succ_ne_zero depth)]
    refine forall₂_congr fun row hrow => ?_
    have htyped := (hleaves row hrow).mono (Q := fun leaf => ∃ t, typeOf s leaf = .ok t)
      fun _ h => h.imp fun _ => And.left
    cases row with
    | arrayInit line' elements =>
      simp only [typeOf_nested htyped, adopt, and_assoc, exists_and_left, exists_eq_left']
    | _ => exact htyped.elim

/-- Scopes with a variable `x`. -/
def scopesOfDouble : Scopes where
  global := Builtin.globals
  locals := [[.var "x" .double]]

/-- The literal `1`. -/
def one : Expr :=
  .literal 1 ⟨.int 1, "1"⟩

/-- `{x, 1}`, `{1}` and `{}` -/
def widestFirst : List Expr :=
  [.arrayInit 1 [.var 1 "x", one], .arrayInit 1 [one], .arrayInit 1 []]

/-- These are the rows of an array of arrays of type `double`. -/
theorem checkInitializer_nested_widest_first :
    (∀ row ∈ widestFirst, row.Nested (Suitable scopesOfDouble .double) 1) ∧
      checkInitializer scopesOfDouble (Ty.arrayOf .double 2) .var (.arrayInit 1 widestFirst) =
        .ok () := by
  have hx : Suitable scopesOfDouble .double (.var 1 "x") := ⟨.double, by decide, by decide⟩
  have hone : Suitable scopesOfDouble .double one := ⟨.int, rfl, by decide⟩
  have hleaves : ∀ row ∈ widestFirst, row.Nested (Suitable scopesOfDouble .double) 1 := by
    simp [widestFirst, Expr.Nested, hx, hone]
  have hfits : (lead scopesOfDouble 0 one).isCompatibleWith
      (lead scopesOfDouble 0 (.var 1 "x")) = true := by decide
  have hheaded : ∀ row ∈ widestFirst, Headed scopesOfDouble 1 row := by
    simp [widestFirst, Headed, hfits]
  have hlead : ∀ row ∈ widestFirst,
      (lead scopesOfDouble 1 row).isCompatibleWith (Ty.arrayOf .double 1) = true := by decide
  exact ⟨hleaves, (checkInitializer_nested _ _ 1 _ _ _ hleaves).2
    (.inr fun row hrow => ⟨hheaded row hrow, hlead row hrow⟩)⟩

/-- **Nested braces that are no initial value** although all expressions in them fit: `{{1, x}}` for
`double[][]`, `{{null}}` for `System[][]`, and `{{{}}}` for `int[][][]`. -/
theorem exists_nested_refused :
    ∃ numbers objects empty : Expr,
      (numbers.Nested (Suitable scopesOfDouble .double) 2 ∧
        checkInitializer scopesOfDouble (Ty.arrayOf .double 2) .var numbers =
          .error ⟨.inconsistentArrayElements, 1⟩) ∧
      (objects.Nested (Suitable scopesOfDouble (.named "System")) 2 ∧
        checkInitializer scopesOfDouble (Ty.arrayOf (.named "System") 2) .var objects =
          .error ⟨.arrayElementMismatch (.array (.named "System")) (.array .null), 1⟩) ∧
      empty.Nested (Suitable scopesOfDouble .int) 3 ∧
        checkInitializer scopesOfDouble (Ty.arrayOf .int 3) .var empty =
          .error ⟨.arrayElementMismatch (.array (.array .int)) (.array (.array .void)), 1⟩ := by
  have hx : Suitable scopesOfDouble .double (.var 1 "x") := ⟨.double, by decide, by decide⟩
  have hone : Suitable scopesOfDouble .double one := ⟨.int, rfl, by decide⟩
  have hnull : Suitable scopesOfDouble (.named "System") (.literal 1 ⟨.null, "null"⟩) :=
    ⟨.null, rfl, by decide⟩
  refine ⟨.arrayInit 1 [.arrayInit 1 [one, .var 1 "x"]],
    .arrayInit 1 [.arrayInit 1 [.literal 1 ⟨.null, "null"⟩]],
    .arrayInit 1 [.arrayInit 1 [.arrayInit 1 []]],
    ⟨?_, by decide⟩, ⟨?_, by decide⟩, ?_, by decide⟩ <;>
  simp [Expr.Nested, hx, hone, hnull]

/-! ## Elements of one type -/

lemma isAssignableTo_arrayOf {t u : Ty} (h : t.isAssignableTo u = true) (n : Nat) :
    (t.arrayOf n).isAssignableTo (u.arrayOf n) = true := by
  induction n with
  | zero => exact h
  | succ n ih => simpa [Ty.arrayOf, Ty.isAssignableTo] using ih

/-- Nested braces with elements of one type, none of them empty, have the type of an array. -/
lemma headed_of_alike {t : Ty} {depth : Nat} {e : Expr}
    (h : e.Nested (fun leaf => typeOf s leaf = .ok t) depth) (hfilled : e.Filled depth) :
    Headed s depth e ∧ lead s depth e = t.arrayOf depth := by
  induction depth generalizing e with
  | zero =>
    have h : typeOf s e = .ok t := h
    simp [Headed, lead, h, Ty.arrayOf, Except.toOption]
  | succ depth ih =>
    cases e with
    | arrayInit line elements =>
      obtain ⟨hne, hfilled⟩ := hfilled
      cases elements with
      | nil => exact absurd rfl hne
      | cons first rest =>
        obtain ⟨hfirst, hrest⟩ := List.forall_mem_cons.1 h
        obtain ⟨hfilled, hfilleds⟩ := List.forall_mem_cons.1 hfilled
        obtain ⟨hheaded, hlead⟩ := ih hfirst hfilled
        refine ⟨⟨hheaded, fun e he => ?_⟩, congrArg Ty.array hlead⟩
        obtain ⟨hheaded', hlead'⟩ := ih (hrest e he) (hfilleds e he)
        exact ⟨hheaded', by simp [hlead, hlead', Ty.isCompatibleWith]⟩
    | _ => exact h.elim

/-- **Nested braces with elements of one type are an initial value**, if none of the inner ones are
empty and this type can be assigned to the element type of the array. -/
theorem checkInitializer_of_alike {t element : Ty} (hfits : t.isAssignableTo element = true)
    (depth : Nat) (slot : Slot) (line : Nat) (rows : List Expr)
    (hleaves : ∀ row ∈ rows, row.Nested (fun leaf => typeOf s leaf = .ok t) depth)
    (hfilled : ∀ row ∈ rows, row.Filled depth) :
    checkInitializer s (element.arrayOf (depth + 1)) slot (.arrayInit line rows) = .ok () := by
  change checkElements s (element.arrayOf depth) rows = .ok ()
  refine checkElements_eq_ok.2 fun row hrow => ?_
  have htyped := (hleaves row hrow).mono (Q := fun leaf => ∃ t, typeOf s leaf = .ok t)
    fun _ h => ⟨t, h⟩
  refine ⟨_, (typeOf_nested htyped).2 (headed_of_alike (hleaves row hrow) (hfilled row hrow)), ?_⟩
  refine isCompatibleWith_adopt ?_
  simp [Ty.isCompatibleWith, isAssignableTo_arrayOf hfits depth]

end Typing

end ClassLang
