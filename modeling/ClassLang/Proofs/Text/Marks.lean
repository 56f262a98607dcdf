import ClassLang.Text.Cut
import Mathlib.Data.List.Infix

set_option autoImplicit false

/-!
# Which occurrence of a marker a text is cut at

A text is cut at the first or at the last of the places where the marker stands, and it is not cut
only if the marker stands nowhere in it. A marker with a character that stands nowhere else in the
text can be found in one place only.

Lines are cut at every feed. The lines of an encoded text are the encoded lines, if the feed is
encoded as a feed and occurs in the code of no other character.

## Main results

* `ClassLang.Text.cut_eq_some_iff`, `ClassLang.Text.cutLast_eq_some_iff` — the place of the cut.
* `ClassLang.Text.cut_append` — the first marker of a text is the first one of every longer text.
* `ClassLang.Text.lines_flatMap` — the lines of an encoded text.
-/

namespace ClassLang.Text

variable {marker cs before after : List Char}

/-! ## Characters that stand in one part of a text only -/

/-- A character that is not in the first part of a text stands behind it. -/
lemma append_eq_append_cons_of_not_mem_left {α : Type} {x y p q : List α} {c : α} (hx : c ∉ x)
    (h : x ++ y = p ++ c :: q) : ∃ a, p = x ++ a ∧ y = a ++ c :: q := by
  rcases List.append_eq_append_iff.1 h with ⟨a, hp, hy⟩ | ⟨a, hxa, hq⟩
  · exact ⟨a, hp, hy⟩
  · cases a with
    | nil => exact ⟨[], by simpa using hxa.symm, by simpa using hq.symm⟩
    | cons d a =>
      rw [hxa, (List.cons.inj hq).1] at hx
      exact absurd (by simp) hx

/-- A character that is not in the second part of a text stands in front of it. -/
lemma append_eq_append_cons_of_not_mem_right {α : Type} {x y p q : List α} {c : α} (hy : c ∉ y)
    (h : x ++ y = p ++ c :: q) : ∃ b, x = p ++ c :: b ∧ q = b ++ y := by
  rcases List.append_eq_append_iff.1 h with ⟨a, -, hya⟩ | ⟨a, hx, hq⟩
  · rw [hya] at hy
    exact absurd (by simp) hy
  · cases a with
    | nil =>
      rw [show y = c :: q by simpa using hq.symm] at hy
      exact absurd (by simp) hy
    | cons d a =>
      obtain ⟨rfl, hqa⟩ := List.cons.inj hq
      exact ⟨a, hx, hqa⟩

/-! ## Markers at the front -/

@[simp]
lemma behind?_append (marker rest : List Char) : behind? marker (marker ++ rest) = some rest := by
  induction marker with
  | nil => rfl
  | cons m ms ih => simpa [behind?] using ih

lemma behind?_eq_none_iff : behind? marker cs = none ↔ ¬ marker <+: cs := by
  rw [Option.eq_none_iff_forall_ne_some]
  constructor
  · rintro h ⟨rest, rfl⟩
    exact h rest (behind?_append marker rest)
  · rintro h rest hrest
    exact h ⟨rest, (eq_append_of_behind? hrest).symm⟩

/-! ## The first marker -/

lemma cut_eq_none_iff : cut marker cs = none ↔ ¬ marker <:+: cs := by
  induction cs with
  | nil => cases marker <;> simp [cut]
  | cons c cs ih =>
    rw [cut, List.infix_cons_iff, not_or, ← ih, ← behind?_eq_none_iff]
    cases behind? marker (c :: cs) with
    | none => simp
    | some rest => simp

/-- A marker is contained in a text if it is a run of its characters. -/
lemma contains_iff : contains marker cs = true ↔ marker <:+: cs := by
  rw [contains, Option.isSome_iff_ne_none, ne_eq, cut_eq_none_iff, not_not]

/-- No marker stands in front of the one that a text is cut at. -/
private lemma length_le_of_cut (h : cut marker cs = some (before, after)) {b a : List Char}
    (heq : cs = b ++ marker ++ a) : before.length ≤ b.length := by
  induction cs generalizing before after b with
  | nil =>
    simp only [cut] at h
    split at h <;> simp_all
  | cons c cs ih =>
    rw [cut] at h
    cases hbehind : behind? marker (c :: cs) with
    | some rest =>
      rw [hbehind] at h
      obtain ⟨rfl, -⟩ := Prod.mk.inj (Option.some.inj h)
      exact Nat.zero_le _
    | none =>
      rw [hbehind] at h
      obtain ⟨parts, hparts, hpair⟩ := Option.map_eq_some_iff.1 h
      obtain ⟨rfl, -⟩ := Prod.mk.inj hpair
      cases b with
      | nil => exact absurd ⟨a, heq.symm⟩ (behind?_eq_none_iff.1 hbehind)
      | cons d b =>
        simp only [List.cons_append, List.cons.injEq] at heq
        exact Nat.succ_le_succ (ih hparts heq.2)

/-- A text is cut at the first of its markers. -/
lemma cut_eq_some_iff :
    cut marker cs = some (before, after) ↔
      cs = before ++ marker ++ after ∧
        ∀ b a, cs = b ++ marker ++ a → before.length ≤ b.length := by
  constructor
  · intro h
    exact ⟨append_of_cut h, fun b a heq => length_le_of_cut h heq⟩
  · rintro ⟨heq, hfirst⟩
    cases hcut : cut marker cs with
    | none => exact absurd ⟨before, after, heq.symm⟩ (cut_eq_none_iff.1 hcut)
    | some parts =>
      obtain ⟨b, a⟩ := parts
      have hb : before.length ≤ b.length := hfirst b a (append_of_cut hcut)
      have hbefore : b.length ≤ before.length := length_le_of_cut hcut heq
      have hsame := (append_of_cut hcut).symm.trans heq
      rw [List.append_assoc, List.append_assoc] at hsame
      obtain ⟨rfl, hrest⟩ := List.append_inj hsame (Nat.le_antisymm hbefore hb)
      rw [List.append_cancel_left hrest]

/-- The first marker of a text stays the first one when the text is lengthened. An earlier marker of
the longer text would end before the first one does, and so within the text. -/
lemma cut_append (h : cut marker cs = some (before, after)) (more : List Char) :
    cut marker (cs ++ more) = some (before, after ++ more) := by
  obtain ⟨rfl, hfirst⟩ := cut_eq_some_iff.1 h
  refine cut_eq_some_iff.2 ⟨by simp, fun b a heq => ?_⟩
  by_contra hlt
  have hb : b ++ marker <+: before ++ marker ++ after ++ more := ⟨a, heq.symm⟩
  have hshort : (b ++ marker).length ≤ (before ++ marker ++ after).length := by
    simp only [List.length_append]
    omega
  obtain ⟨a', ha'⟩ := List.prefix_of_prefix_length_le hb (List.prefix_append _ more) hshort
  exact hlt (hfirst b a' ha'.symm)

/-- A marker is found behind a text without the marker's first character. -/
lemma cut_of_not_mem {m : Char} (hm : marker.head? = some m) (h : m ∉ before) :
    cut marker (before ++ marker ++ after) = some (before, after) := by
  obtain ⟨ms, rfl⟩ := List.head?_eq_some_iff.1 hm
  refine cut_eq_some_iff.2 ⟨rfl, fun b a heq => ?_⟩
  by_contra hlt
  have hb : b ++ [m] <+: before ++ (m :: ms ++ after) :=
    ⟨ms ++ a, by simpa using heq.symm⟩
  have hshort : (b ++ [m]).length ≤ before.length := by
    simp only [List.length_append, List.length_singleton]
    omega
  have hearly := List.prefix_of_prefix_length_le hb (List.prefix_append before _) hshort
  exact h (hearly.subset (by simp))

/-! ## The last marker -/

lemma cutLast_eq_none_iff : cutLast marker cs = none ↔ ¬ marker <:+: cs := by
  induction cs with
  | nil => cases marker <;> simp [cutLast]
  | cons c cs ih =>
    rw [cutLast, List.infix_cons_iff, not_or, ← ih, ← behind?_eq_none_iff]
    cases cutLast marker cs with
    | none => simp
    | some parts => simp

/-- No marker stands behind the last one that a text is cut at. -/
private lemma length_le_of_cutLast (h : cutLast marker cs = some (before, after))
    {b a : List Char} (heq : cs = b ++ marker ++ a) : b.length ≤ before.length := by
  induction cs generalizing before after b with
  | nil =>
    have hb : b = [] := by
      have := congrArg List.length heq
      simp only [List.length_nil, List.length_append] at this
      exact List.eq_nil_of_length_eq_zero (by omega)
    simp [hb]
  | cons c cs ih =>
    cases b with
    | nil => exact Nat.zero_le _
    | cons d b =>
      simp only [List.cons_append, List.cons.injEq] at heq
      rw [cutLast] at h
      cases hcut : cutLast marker cs with
      | none => exact absurd ⟨b, a, heq.2.symm⟩ (cutLast_eq_none_iff.1 hcut)
      | some parts =>
        rw [hcut] at h
        obtain ⟨rfl, -⟩ := Prod.mk.inj (Option.some.inj h)
        exact Nat.succ_le_succ (ih hcut heq.2)

/-- A text is cut at the last of its markers. -/
lemma cutLast_eq_some_iff :
    cutLast marker cs = some (before, after) ↔
      cs = before ++ marker ++ after ∧
        ∀ b a, cs = b ++ marker ++ a → b.length ≤ before.length := by
  constructor
  · intro h
    exact ⟨append_of_cutLast h, fun b a heq => length_le_of_cutLast h heq⟩
  · rintro ⟨heq, hlast⟩
    cases hcut : cutLast marker cs with
    | none => exact absurd ⟨before, after, heq.symm⟩ (cutLast_eq_none_iff.1 hcut)
    | some parts =>
      obtain ⟨b, a⟩ := parts
      have hb : b.length ≤ before.length := hlast b a (append_of_cutLast hcut)
      have hbefore : before.length ≤ b.length := length_le_of_cutLast hcut heq
      have hsame := (append_of_cutLast hcut).symm.trans heq
      rw [List.append_assoc, List.append_assoc] at hsame
      obtain ⟨rfl, hrest⟩ := List.append_inj hsame (Nat.le_antisymm hb hbefore)
      rw [List.append_cancel_left hrest]

/-- The last marker is found in front of a text without the marker's first character. -/
lemma cutLast_of_not_mem {m : Char} (hm : marker.head? = some m) (hms : m ∉ marker.tail)
    (hafter : m ∉ after) : cutLast marker (before ++ marker ++ after) = some (before, after) := by
  obtain ⟨ms, rfl⟩ := List.head?_eq_some_iff.1 hm
  rw [List.tail_cons] at hms
  refine cutLast_eq_some_iff.2 ⟨rfl, fun b a heq => ?_⟩
  by_contra hlt
  have hbefore : before ++ [m] <+: b ++ (m :: ms ++ a) :=
    ⟨ms ++ after, by simpa using heq⟩
  have hshort : (before ++ [m]).length ≤ b.length := by
    simp only [List.length_append, List.length_singleton]
    omega
  obtain ⟨x, rfl⟩ := List.prefix_of_prefix_length_le hbefore (List.prefix_append b _) hshort
  have hrest : ms ++ after = x ++ (m :: ms) ++ a := by simpa using heq
  have hm : m ∈ ms ++ after := by
    rw [hrest]
    simp
  exact (List.mem_append.1 hm).elim hms hafter

/-! ## Lines -/

section Lines

variable {α β : Type} [BEq α] [LawfulBEq α] [BEq β] [LawfulBEq β] {feed : α} {feed' : β}

/-- Characters other than the feed are added to the line. -/
lemma linesFrom_append {text : List α} (htext : feed ∉ text) (line rest : List α) :
    linesFrom feed line (text ++ rest) = linesFrom feed (text.reverse ++ line) rest := by
  induction text generalizing line with
  | nil => rfl
  | cons c text ih =>
    rw [List.mem_cons, not_or] at htext
    obtain ⟨hc, htext⟩ := htext
    rw [List.cons_append, linesFrom, if_neg (by simpa using Ne.symm hc), ih htext]
    simp

/-- A line ends at its feed. -/
lemma lines_append_feed {text : List α} (htext : feed ∉ text) (rest : List α) :
    lines feed (text ++ feed :: rest) = text :: lines feed rest := by
  rw [lines, linesFrom_append htext, linesFrom]
  simp [lines]

private lemma not_mem_of_mem_linesFrom {line rest l : List α} (hline : feed ∉ line)
    (hl : l ∈ linesFrom feed line rest) : feed ∉ l := by
  fun_induction linesFrom feed line rest with
  | case1 line hempty => simp at hl
  | case2 line hempty =>
    obtain rfl := List.mem_singleton.1 hl
    simpa using hline
  | case3 line c rest hc ih =>
    rcases List.mem_cons.1 hl with rfl | hl
    · simpa using hline
    · exact ih (by simp) hl
  | case4 line c rest hc ih =>
    refine ih ?_ hl
    rw [List.mem_cons, not_or]
    exact ⟨fun h => hc (by simp [h]), hline⟩

/-- No line has a feed in it. -/
lemma not_mem_of_mem_lines {cs l : List α} (hl : l ∈ lines feed cs) : feed ∉ l :=
  not_mem_of_mem_linesFrom (by simp) hl

private lemma linesFrom_flatMap {encode : α → List β} (hfeed : encode feed = [feed'])
    (hother : ∀ c, c ≠ feed → feed' ∉ encode c) (hne : ∀ c, encode c ≠ []) (line cs : List α) :
    linesFrom feed' (line.reverse.flatMap encode).reverse (cs.flatMap encode) =
      (linesFrom feed line cs).map (List.flatMap encode) := by
  induction cs generalizing line with
  | nil => cases line <;> simp [linesFrom, hne]
  | cons c cs ih =>
    rw [List.flatMap_cons, linesFrom]
    by_cases hc : c = feed
    · have hnil := ih []
      simp only [List.reverse_nil, List.flatMap_nil] at hnil
      simp [hc, hfeed, linesFrom, hnil]
    · have hcons := ih (c :: line)
      rw [linesFrom_append (hother c hc), if_neg (by simpa using hc), ← hcons]
      simp

/-- The lines of an encoded text are its encoded lines. -/
lemma lines_flatMap {encode : α → List β} (hfeed : encode feed = [feed'])
    (hother : ∀ c, c ≠ feed → feed' ∉ encode c) (hne : ∀ c, encode c ≠ []) (cs : List α) :
    lines feed' (cs.flatMap encode) = (lines feed cs).map (List.flatMap encode) :=
  linesFrom_flatMap hfeed hother hne [] cs

end Lines

end ClassLang.Text
