/-!
# Cutting a text at a marker

A text is cut at the first or at the last occurrence of a marker, which belongs to neither part.

## Main definitions

* `ClassLang.Text.cut`: the parts around the first occurrence.
* `ClassLang.Text.cutLast`: the parts around the last occurrence.
* `ClassLang.Text.lines`: the lines of a sequence, without the feeds that end them.

## Main statements

* `ClassLang.Text.append_of_cut`, `ClassLang.Text.append_of_cutLast`: the two parts with the
  marker between them are the text.
-/

set_option autoImplicit false

namespace ClassLang.Text

/-- What is behind `marker` in a text that starts with it. -/
def behind? : List Char → List Char → Option (List Char)
  | [], cs => some cs
  | _ :: _, [] => none
  | m :: ms, c :: cs => if m = c then behind? ms cs else none

/-- The parts of a text before and after the first occurrence of `marker`. -/
def cut (marker : List Char) : List Char → Option (List Char × List Char)
  | [] => if marker.isEmpty then some ([], []) else none
  | c :: cs =>
    match behind? marker (c :: cs) with
    | some rest => some ([], rest)
    | none => (cut marker cs).map fun parts => (c :: parts.1, parts.2)

/-- The parts of a text before and after the last occurrence of `marker`. -/
def cutLast (marker : List Char) : List Char → Option (List Char × List Char)
  | [] => if marker.isEmpty then some ([], []) else none
  | c :: cs =>
    match cutLast marker cs with
    | some parts => some (c :: parts.1, parts.2)
    | none => (behind? marker (c :: cs)).map fun rest => ([], rest)

/-- Whether `marker` occurs in a text. -/
def contains (marker cs : List Char) : Bool :=
  (cut marker cs).isSome

/-- The lines of `rest`, the first of which goes on from `line`, held in reverse. A last line
without `feed` at its end counts if it is not empty. -/
def linesFrom {α : Type} [BEq α] (feed : α) (line : List α) : List α → List (List α)
  | [] => if line.isEmpty then [] else [line.reverse]
  | c :: rest =>
    if c == feed then line.reverse :: linesFrom feed [] rest else linesFrom feed (c :: line) rest

/-- The lines of a sequence, each without the `feed` that ends it. -/
def lines {α : Type} [BEq α] (feed : α) (cs : List α) : List (List α) :=
  linesFrom feed [] cs

/-- A text that starts with `marker` is `marker` followed by what is behind it. -/
theorem eq_append_of_behind? {marker cs rest : List Char} (h : behind? marker cs = some rest) :
    cs = marker ++ rest := by
  fun_induction behind? marker cs <;> simp_all

/-- A cut text is its first part, the marker and its second part. -/
theorem append_of_cut {marker cs before after : List Char}
    (h : cut marker cs = some (before, after)) : cs = before ++ marker ++ after := by
  induction cs generalizing before with
  | nil =>
    simp only [cut] at h
    split at h <;> simp_all
  | cons c cs ih =>
    simp only [cut] at h
    split at h
    · rename_i rest hrest
      simp only [Option.some.injEq, Prod.mk.injEq] at h
      obtain ⟨rfl, rfl⟩ := h
      simpa using eq_append_of_behind? hrest
    · obtain ⟨parts, hparts, heq⟩ := Option.map_eq_some_iff.1 h
      simp only [Prod.mk.injEq] at heq
      obtain ⟨rfl, rfl⟩ := heq
      simp [ih hparts]

/-- A text cut at its last marker is its first part, the marker and its second part. -/
theorem append_of_cutLast {marker cs before after : List Char}
    (h : cutLast marker cs = some (before, after)) : cs = before ++ marker ++ after := by
  induction cs generalizing before with
  | nil =>
    simp only [cutLast] at h
    split at h <;> simp_all
  | cons c cs ih =>
    simp only [cutLast] at h
    split at h
    · rename_i parts hparts
      simp only [Option.some.injEq, Prod.mk.injEq] at h
      obtain ⟨rfl, rfl⟩ := h
      simp [ih hparts]
    · obtain ⟨rest, hrest, heq⟩ := Option.map_eq_some_iff.1 h
      simp only [Prod.mk.injEq] at heq
      obtain ⟨rfl, rfl⟩ := heq
      simpa using eq_append_of_behind? hrest

end ClassLang.Text
