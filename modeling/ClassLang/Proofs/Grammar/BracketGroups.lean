import ClassLang.Proofs.Grammar.BracketText

set_option autoImplicit false

/-!
# The bracket groups at the front of a text

A group runs from a bracket to the one that matches it, and groups with white space between them
make up a run. Splitting a text takes the longest run off its front, in one pass that only counts
the brackets that are open.

## Main definitions

* `ClassLang.Brackets.IsGroup` — a bracket, and all up to the one that matches it.
* `ClassLang.Brackets.IsRun` — groups with white space between them.

## Main results

* `ClassLang.Brackets.groupsLength_of_closes` — a group is passed as a whole.
* `ClassLang.Brackets.IsRun.le_groupsLength` — the pass does not end inside a run.
* `ClassLang.Brackets.split_takes_longest_run` — splitting takes the longest run, and at least one
  group where no bracket stays open.
-/

namespace ClassLang.Brackets

/-! ## Groups -/

/-- Of `opened` brackets that are open in front of the text, the last one is closed by its last
character. -/
structure Closes (opened : Int) (cs : List Char) : Prop where
  inside : ∀ front, front <+: cs → front ≠ cs → 0 < opened + depth front
  balanced : opened + depth cs = 0

/-- A group runs from a `[` to the `]` that matches it. -/
def IsGroup (group : List Char) : Prop :=
  ∃ cs, group = '[' :: cs ∧ Closes 1 cs

/-- `n` groups with white space between them. -/
inductive IsRun : Nat → List Char → Prop
  | none : IsRun 0 []
  | one {group : List Char} (hgroup : IsGroup group) : IsRun 1 group
  | cons {group space run : List Char} {n : Nat} (hgroup : IsGroup group)
      (hspace : ∀ c ∈ space, Text.isWhiteSpace c = true) (hrun : IsRun (n + 1) run) :
      IsRun (n + 2) (group ++ (space ++ run))

variable {cs group space run : List Char}

lemma depth_cons (c : Char) (cs : List Char) :
    depth (c :: cs) = (if c = '[' then 1 else if c = ']' then -1 else 0) + depth cs := by
  -- The count can start from any number.
  have hshift : ∀ (d : Int) (cs : List Char),
      cs.foldl (fun d c => if c = '[' then d + 1 else if c = ']' then d - 1 else d) d =
        d + depth cs := by
    intro d cs
    induction cs generalizing d with
    | nil => simp [depth]
    | cons c cs ih =>
      rw [depth, List.foldl_cons, List.foldl_cons, ih, ih (if c = '[' then _ else _)]
      split
      · omega
      · split <;> omega
  rw [depth, List.foldl_cons, hshift]
  split
  · omega
  · split <;> omega

lemma closes_nil {opened : Int} : Closes opened [] ↔ opened = 0 := by
  refine ⟨fun h => by simpa [depth] using h.balanced, fun h => ⟨fun front hfront hne => ?_, ?_⟩⟩
  · exact absurd (List.prefix_nil.1 hfront) hne
  · simpa [depth] using h

lemma closes_cons {opened : Int} {c : Char} :
    Closes opened (c :: cs) ↔
      0 < opened ∧ Closes (opened + if c = '[' then 1 else if c = ']' then -1 else 0) cs := by
  constructor
  · intro h
    have hpos := h.inside [] List.nil_prefix (by simp)
    have hbalanced := h.balanced
    rw [depth_cons] at hbalanced
    refine ⟨by simpa [depth] using hpos, fun front hfront hne => ?_, by omega⟩
    have hinside := h.inside (c :: front) (List.cons_prefix_cons.2 ⟨rfl, hfront⟩) (by simpa using hne)
    rw [depth_cons] at hinside
    omega
  · rintro ⟨hpos, h⟩
    have hbalanced := h.balanced
    refine ⟨fun front hfront hne => ?_, by rw [depth_cons]; omega⟩
    cases front with
    | nil => simpa [depth] using hpos
    | cons d front =>
      obtain ⟨rfl, hmore⟩ := List.cons_prefix_cons.1 hfront
      have hinside := h.inside front hmore (by simpa using hne)
      rw [depth_cons]
      omega

lemma IsRun.exists_cons {n : Nat} (h : IsRun (n + 1) run) : ∃ cs, run = '[' :: cs := by
  cases h with
  | one hgroup | cons hgroup =>
    obtain ⟨cs, rfl, -⟩ := hgroup
    exact ⟨_, rfl⟩

lemma IsRun.exists_succ {n : Nat} (h : IsRun n run) (hne : run ≠ []) : ∃ m, IsRun (m + 1) run := by
  cases n with
  | zero =>
    cases h
    exact absurd rfl hne
  | succ m => exact ⟨m, h⟩

/-! ## The pass -/

/-- A step inside a group counts its brackets, unless it closes the last one. -/
lemma groupsLength_cons {opened : Nat} (hpos : 0 < opened) (c : Char) (cs : List Char) :
    c = ']' ∧ opened = 1 ∨
      ∃ next : Nat, 0 < next ∧
        (next : Int) = opened + (if c = '[' then 1 else if c = ']' then -1 else 0) ∧
        ∀ seen done, groupsLength opened seen done (c :: cs) =
          groupsLength next (seen + 1) done cs := by
  by_cases hopen : c = '['
  · refine .inr ⟨opened + 1, Nat.succ_pos _, by simp [hopen], fun seen done => ?_⟩
    rw [groupsLength.eq_def]
    simp [hopen]
  by_cases hclose : c = ']'
  · by_cases hlast : opened = 1
    · exact .inl ⟨hclose, hlast⟩
    obtain ⟨inner, rfl⟩ : ∃ inner, opened = inner + 2 := ⟨opened - 2, by omega⟩
    refine .inr ⟨inner + 1, Nat.succ_pos _, by simp [hclose]; omega, fun seen done => ?_⟩
    simp [groupsLength, hclose]
  · refine .inr ⟨opened, hpos, by simp [hopen, hclose], fun seen done => ?_⟩
    rw [groupsLength.eq_def]
    simp [hopen, hclose, hpos.ne']

/-- **A group is passed as a whole.** -/
lemma groupsLength_of_closes {opened : Nat} (hpos : 0 < opened) (h : Closes opened cs)
    (seen done : Nat) (rest : List Char) :
    groupsLength opened seen done (cs ++ rest) =
      if (Text.trimStart rest).head? = some '[' then
        groupsLength 0 (seen + cs.length) (seen + cs.length) rest
      else seen + cs.length := by
  induction cs generalizing opened seen with
  | nil =>
    rw [closes_nil] at h
    omega
  | cons c cs ih =>
    obtain ⟨-, h⟩ := closes_cons.1 h
    rcases groupsLength_cons hpos c (cs ++ rest) with ⟨rfl, rfl⟩ | ⟨next, hnext, hcount, hstep⟩
    · cases cs with
      | nil => simp [groupsLength]
      | cons d cs => exact absurd (closes_cons.1 h).1 (by decide)
    · have hlength : seen + (c :: cs).length = seen + 1 + cs.length := by
        rw [List.length_cons]
        omega
      rw [List.cons_append, hstep, ih hnext (hcount ▸ h), hlength]

/-- A group that is never closed counts for nothing. -/
lemma exists_closes_or_groupsLength_eq {opened : Nat} (hpos : 0 < opened) (cs : List Char) :
    (∃ inner rest, cs = inner ++ rest ∧ Closes opened inner) ∨
      0 < opened + depth cs ∧ ∀ seen done, groupsLength opened seen done cs = done := by
  have hopened : (0 : Int) < opened := by exact_mod_cast hpos
  induction cs generalizing opened with
  | nil => exact .inr ⟨by simpa [depth] using hpos, fun seen done => by rw [groupsLength]⟩
  | cons c cs ih =>
    rcases groupsLength_cons hpos c cs with ⟨rfl, rfl⟩ | ⟨next, hnext, hcount, hstep⟩
    · exact .inl ⟨[']'], cs, rfl, closes_cons.2 ⟨hopened, closes_nil.2 (by decide)⟩⟩
    · rcases ih hnext (by exact_mod_cast hnext) with ⟨inner, rest, rfl, hinner⟩ | ⟨hopen, hdone⟩
      · exact .inl ⟨c :: inner, rest, rfl, closes_cons.2 ⟨hopened, hcount ▸ hinner⟩⟩
      · refine .inr ⟨?_, fun seen done => by rw [hstep, hdone]⟩
        rw [depth_cons]
        omega

lemma groupsLength_of_group (hgroup : IsGroup group) (seen done : Nat) (rest : List Char) :
    groupsLength 0 seen done (group ++ rest) =
      if (Text.trimStart rest).head? = some '[' then
        groupsLength 0 (seen + group.length) (seen + group.length) rest
      else seen + group.length := by
  obtain ⟨cs, rfl, hcs⟩ := hgroup
  have hlength : seen + ('[' :: cs).length = seen + 1 + cs.length := by
    rw [List.length_cons]
    omega
  rw [List.cons_append, groupsLength, if_pos rfl, hlength]
  exact groupsLength_of_closes Nat.one_pos hcs _ _ _

lemma groupsLength_of_space (hspace : ∀ c ∈ space, Text.isWhiteSpace c = true) (seen done : Nat)
    (rest : List Char) :
    groupsLength 0 seen done (space ++ rest) = groupsLength 0 (seen + space.length) done rest := by
  induction space generalizing seen with
  | nil => rfl
  | cons c space ih =>
    obtain ⟨hc, hspace⟩ := List.forall_mem_cons.1 hspace
    have hbracket : c ≠ '[' ∧ c ≠ ']' := by
      constructor <;> rintro rfl <;> exact absurd hc (by decide)
    have hlength : seen + (c :: space).length = seen + 1 + space.length := by
      rw [List.length_cons]
      omega
    rw [List.cons_append, groupsLength, if_neg hbracket.1, if_neg hbracket.2, if_neg (by simp [hc]),
      ih hspace, hlength]

lemma le_groupsLength {opened seen done : Nat} (h : done ≤ seen) (cs : List Char) :
    done ≤ groupsLength opened seen done cs := by
  rcases groupsLength_eq opened seen done cs with hdone | ⟨i, -, hbehind⟩ <;> omega

/-- **The pass does not end inside a run.** -/
lemma IsRun.le_groupsLength {n : Nat} (h : IsRun (n + 1) run) (seen done : Nat)
    (rest : List Char) : seen + run.length ≤ groupsLength 0 seen done (run ++ rest) := by
  induction n generalizing run seen done with
  | zero =>
    cases h with
    | one hgroup =>
      rw [groupsLength_of_group hgroup]
      split
      · exact Brackets.le_groupsLength le_rfl rest
      · exact le_rfl
  | succ n ih =>
    cases h with
    | @cons group space run _ hgroup hspace hrun =>
      obtain ⟨cs, rfl⟩ := hrun.exists_cons
      have hnext : (Text.trimStart (space ++ '[' :: cs ++ rest)).head? = some '[' := by
        rw [List.append_assoc, Text.trimStart, List.dropWhile_append_of_pos hspace]
        rfl
      rw [List.append_assoc, groupsLength_of_group hgroup, if_pos hnext, List.append_assoc,
        groupsLength_of_space hspace, List.length_append, List.length_append, ← Nat.add_assoc,
        ← Nat.add_assoc]
      exact ih hrun _ _

/-- The pass ends behind a run, which is empty only if some bracket stays open. -/
lemma exists_run (cs : List Char) :
    ∃ n run rest, IsRun n run ∧ '[' :: cs = run ++ rest ∧ (run = [] → 0 < depth ('[' :: cs)) ∧
      ∀ seen done, groupsLength 0 seen done ('[' :: cs) =
        if run = [] then done else seen + run.length := by
  -- Where another bracket stands behind a group, the run goes on from there.
  induction hlength : cs.length using Nat.strong_induction_on generalizing cs with
  | _ n ih =>
    subst hlength
    rcases exists_closes_or_groupsLength_eq Nat.one_pos cs with
      ⟨inner, rest, rfl, hinner⟩ | ⟨hopen, hdone⟩
    · have hgroup : IsGroup ('[' :: inner) := ⟨inner, rfl, hinner⟩
      have hne : '[' :: inner ≠ [] := List.cons_ne_nil _ _
      by_cases hmore : (Text.trimStart rest).head? = some '['
      · obtain ⟨ds, hds⟩ := List.head?_eq_some_iff.1 hmore
        obtain ⟨space, hspace, rfl⟩ : ∃ space, (∀ c ∈ space, Text.isWhiteSpace c = true) ∧
            rest = space ++ '[' :: ds := by
          refine ⟨rest.takeWhile Text.isWhiteSpace, fun c => List.mem_takeWhile_imp, ?_⟩
          rw [← hds]
          exact List.takeWhile_append_dropWhile.symm
        obtain ⟨n, run, tail, hrun, hsplit, -, hcount⟩ := ih ds.length (by simp; omega) ds rfl
        have hpass : ∀ seen done, groupsLength 0 seen done ('[' :: (inner ++ (space ++ '[' :: ds))) =
            if run = [] then seen + ('[' :: inner).length
            else seen + ('[' :: inner).length + space.length + run.length := by
          intro seen done
          rw [← List.cons_append, groupsLength_of_group hgroup, if_pos hmore,
            groupsLength_of_space hspace, hcount]
        by_cases hnil : run = []
        · refine ⟨1, '[' :: inner, _, .one hgroup, rfl, (absurd · hne), fun seen done => ?_⟩
          rw [hpass, if_pos hnil, if_neg hne]
        · obtain ⟨m, hm⟩ := hrun.exists_succ hnil
          have hne' := List.append_ne_nil_of_left_ne_nil hne (space ++ run)
          refine ⟨m + 2, _, tail, .cons hgroup hspace hm, by simp [hsplit], (absurd · hne'), ?_⟩
          intro seen done
          rw [hpass, if_neg hnil, if_neg hne']
          simp only [List.length_append]
          omega
      · refine ⟨1, '[' :: inner, rest, .one hgroup, rfl, (absurd · hne), fun seen done => ?_⟩
        rw [← List.cons_append, groupsLength_of_group hgroup, if_neg hmore, if_neg hne]
    · refine ⟨0, [], _, .none, rfl, fun _ => by rw [depth_cons]; exact hopen, fun seen done => ?_⟩
      rw [groupsLength, if_pos rfl, if_pos rfl]
      exact hdone _ _

/-- What splitting takes is a run, and as long as the pass finds it. -/
lemma isRun_split (cs : List Char) :
    ∃ n, IsRun n (split ('[' :: cs)).1 ∧ ((split ('[' :: cs)).1 = [] → 0 < depth ('[' :: cs)) ∧
      groupsLength 0 0 0 ('[' :: cs) = (split ('[' :: cs)).1.length := by
  obtain ⟨n, taken, rest, htaken, hsplit, hopen, hcount⟩ := exists_run cs
  have hlength : groupsLength 0 0 0 ('[' :: cs) = taken.length := by
    rw [hcount]
    split
    next hnil => rw [hnil, List.length_nil]
    next => exact Nat.zero_add _
  have hfirst : (split ('[' :: cs)).1 = taken := by
    rw [split, List.splitAt_eq, hlength, hsplit]
    exact List.take_left
  exact hfirst ▸ ⟨n, htaken, hopen, hlength⟩

/-- **Splitting takes the longest run of groups** off the front of a text that starts with a bracket.
What it takes and what it leaves make up the text. If no bracket of the text stays open, it takes at
least one group. -/
theorem split_takes_longest_run (cs : List Char) :
    (split ('[' :: cs)).1 ++ (split ('[' :: cs)).2 = '[' :: cs ∧
      (∃ n, IsRun n (split ('[' :: cs)).1) ∧
      (∀ n run, IsRun n run → run <+: '[' :: cs → run.length ≤ (split ('[' :: cs)).1.length) ∧
      (depth ('[' :: cs) ≤ 0 → ∃ n, IsRun (n + 1) (split ('[' :: cs)).1) := by
  obtain ⟨n, htaken, hopen, hlength⟩ := isRun_split cs
  refine ⟨split_append _, ⟨n, htaken⟩, fun m run hrun hstands => ?_, fun hdepth => ?_⟩
  · cases m with
    | zero =>
      cases hrun
      exact Nat.zero_le _
    | succ m =>
      obtain ⟨tail, htail⟩ := hstands
      have hle := hrun.le_groupsLength 0 0 tail
      rwa [htail, hlength, Nat.zero_add] at hle
  · exact htaken.exists_succ fun hnil => absurd (hopen hnil) (by omega)

example : split "[a[0]] [j]].x".toList = ("[a[0]] [j]".toList, "].x".toList) := by decide

end ClassLang.Brackets
