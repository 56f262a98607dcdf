import ClassLang.Proofs.Grammar.Passage
import ClassLang.Proofs.Token.Rescanning

set_option autoImplicit false

/-!
# The text of bracket groups

To take a word apart, the lexemes pulled in are joined by spaces, the text is cut behind a closing
bracket, and its first part is scanned with every bracket spaced out. Scanning stays in step with
the lexemes through all this, or else it meets an error: what is whole stays whole when it is spaced
out, unless it is a character literal of a bracket, and a literal that is cut is an error.

## Main results

* `ClassLang.Brackets.getLast?_split` — the text is cut behind a closing bracket.
* `ClassLang.Scan.Whole.tame_or_hasError`, `ClassLang.Scan.Torn.hasError_cut` — a lexeme that is
  cut.
* `ClassLang.Grammar.comesTo_joined`, `ClassLang.Grammar.comesTo_or_hasError_joined` — scanning
  joined lexemes, as they are and spaced out.
-/

namespace ClassLang

namespace Brackets

/-! ## Spacing out -/

lemma spaceOut_append (cs ds : List Char) : spaceOut (cs ++ ds) = spaceOut cs ++ spaceOut ds :=
  List.flatMap_append

lemma spaceOut_bracket {c : Char} (h : c = '[' ∨ c = ']') (cs : List Char) :
    spaceOut (c :: cs) = ' ' :: c :: ' ' :: spaceOut cs := by
  rcases h with rfl | rfl <;> rfl

lemma spaceOut_cons {c : Char} (h : ¬ (c = '[' ∨ c = ']')) (cs : List Char) :
    spaceOut (c :: cs) = c :: spaceOut cs := by
  simp [spaceOut, h]

lemma spaceOut_eq_self {cs : List Char} (h : ∀ c ∈ cs, c ≠ '[' ∧ c ≠ ']') : spaceOut cs = cs := by
  induction cs with
  | nil => rfl
  | cons c cs ih =>
    obtain ⟨hc, hcs⟩ := List.forall_mem_cons.1 h
    rw [spaceOut_cons (by simpa using hc), ih hcs]

lemma head?_spaceOut (cs : List Char) :
    (spaceOut cs).head? = some ' ' ∨ (spaceOut cs).head? = cs.head? := by
  cases cs with
  | nil => exact .inr rfl
  | cons c cs =>
    by_cases hc : c = '[' ∨ c = ']'
    · exact .inl (by rw [spaceOut_bracket hc]; rfl)
    · exact .inr (by rw [spaceOut_cons hc]; rfl)

/-! ## Stretches without spaces -/

/-- A stretch of a text that stops at a separator is on one side of it. -/
lemma infix_of_infix_append_cons {w front back : List Char} {sep : Char}
    (h : w <:+: front ++ sep :: back) (hsep : sep ∉ w) : w <:+: front ∨ w <:+: back := by
  obtain ⟨left, right, happend⟩ := h
  rcases List.append_eq_append_iff.1 happend with ⟨more, hfront, -⟩ | ⟨more, hleft, hback⟩
  · exact .inl ⟨left, more, hfront.symm⟩
  cases more with
  | nil => exact .inl ⟨left, [], by simpa using hleft⟩
  | cons d more =>
    obtain ⟨rfl, hmore⟩ := List.cons.inj hback
    rcases List.append_eq_append_iff.1 hleft with ⟨tail, -, rfl⟩ | ⟨tail, -, htail⟩
    · exact absurd (List.mem_append_right tail List.mem_cons_self) hsep
    · cases tail with
      | nil =>
        obtain rfl : _ = w := htail
        exact absurd List.mem_cons_self hsep
      | cons d tail =>
        obtain ⟨-, rfl⟩ := List.cons.inj htail
        exact .inr ⟨tail, right, hmore.symm⟩

lemma prefix_of_prefix_spaceOut {w cs : List Char} (h : w <+: spaceOut cs) (hw : ' ' ∉ w) :
    w <+: cs := by
  induction cs generalizing w with
  | nil => exact h
  | cons c cs ih =>
    cases w with
    | nil => exact List.nil_prefix
    | cons d w =>
      by_cases hc : c = '[' ∨ c = ']'
      · rw [spaceOut_bracket hc, List.cons_prefix_cons] at h
        exact absurd (h.1 ▸ List.mem_cons_self) hw
      · rw [spaceOut_cons hc, List.cons_prefix_cons] at h
        exact List.cons_prefix_cons.2 ⟨h.1, ih h.2 fun hmem => hw (List.mem_cons_of_mem d hmem)⟩

/-- Spacing out brackets makes no new stretches without spaces. -/
lemma infix_of_infix_spaceOut {w cs : List Char} (h : w <:+: spaceOut cs) (hw : ' ' ∉ w) :
    w <:+: cs := by
  induction cs with
  | nil => exact h
  | cons c cs ih =>
    by_cases hc : c = '[' ∨ c = ']'
    · have hspaced : w <:+: [] ++ ' ' :: ([c] ++ ' ' :: spaceOut cs) := by
        rwa [spaceOut_bracket hc] at h
      rcases infix_of_infix_append_cons hspaced hw with hnil | hmore
      · exact hnil.trans List.nil_infix
      rcases infix_of_infix_append_cons hmore hw with hbracket | hmore
      · exact hbracket.trans (List.prefix_append [c] cs).isInfix
      · exact (ih hmore).trans (List.suffix_cons c cs).isInfix
    · have hstarts : w <+: spaceOut (c :: cs) → w <+: c :: cs := fun h =>
        prefix_of_prefix_spaceOut h hw
      rw [spaceOut_cons hc] at h hstarts
      rcases List.infix_cons_iff.1 h with hfirst | hmore
      · exact (hstarts hfirst).isInfix
      · exact (ih hmore).trans (List.suffix_cons c cs).isInfix

/-! ## The cut -/

lemma groupsLength_eq (opened seen done : Nat) (cs : List Char) :
    groupsLength opened seen done cs = done ∨
      ∃ i, cs[i]? = some ']' ∧ groupsLength opened seen done cs = seen + i + 1 := by
  -- A bracket found behind the first character stands one place further.
  have hbehind : ∀ {c : Char} {cs : List Char} {seen n : Nat},
      (∃ i, cs[i]? = some ']' ∧ n = seen + 1 + i + 1) →
      ∃ i, (c :: cs)[i]? = some ']' ∧ n = seen + i + 1 := by
    rintro c cs seen n ⟨i, hi, hn⟩
    exact ⟨i + 1, by simpa using hi, by omega⟩
  fun_induction groupsLength opened seen done cs with
  | case1 | case3 | case7 => exact .inl rfl
  | case2 _ _ _ _ ih | case6 _ _ _ _ _ ih => exact ih.imp_right hbehind
  | case4 seen done cs hc _ ih =>
    refine .inr ?_
    rcases ih with ih | ih
    · exact ⟨0, by simp, by omega⟩
    · exact hbehind ih
  | case5 seen done cs hc _ => exact .inr ⟨0, by simp, by omega⟩
  | case8 _ _ _ _ _ _ _ _ ih => exact ih.imp_right hbehind

lemma split_append (cs : List Char) : (split cs).1 ++ (split cs).2 = cs := by
  simp [split]

/-- The bracket groups of a text end with a closing bracket. -/
lemma getLast?_split (cs : List Char) : (split cs).1 = [] ∨ (split cs).1.getLast? = some ']' := by
  rw [split, List.splitAt_eq]
  rcases groupsLength_eq 0 0 0 cs with hn | ⟨i, hi, hn⟩
  · exact .inl (by simp [hn])
  · refine .inr ?_
    rw [hn, Nat.zero_add, List.take_add_one, hi]
    exact List.getLast?_concat

end Brackets

open Brackets (spaceOut)

namespace Scan

variable {kind : Kind} {text rest : List Char}

/-! ## Lexemes spaced out -/

lemma tame_spaceOut {cs : List Char} (h : tame cs = true) : tame (spaceOut cs) = true := by
  induction cs with
  | nil => rfl
  | cons c cs ih =>
    simp only [tame, Bool.and_eq_true] at h
    obtain ⟨⟨hquotes, hslash⟩, hmore⟩ := h
    by_cases hc : c = '[' ∨ c = ']'
    · rw [Brackets.spaceOut_bracket hc]
      rcases hc with rfl | rfl <;> simp [tame, ih hmore]
    · rw [Brackets.spaceOut_cons hc]
      simp only [tame, Bool.and_eq_true]
      refine ⟨⟨hquotes, ?_⟩, ih hmore⟩
      rcases Brackets.head?_spaceOut cs with hhead | hhead
      · simp [hhead]
      · rwa [hhead]

lemma Body.spacedOut {closed : Bool} {cs : List Char} (h : Body closed cs) :
    Body closed (spaceOut cs) := by
  -- Spaces and brackets are characters as any other.
  have hspaced : ∀ {c : Char} {more : List Char}, c = '[' ∨ c = ']' → Body closed more →
      Body closed (c :: ' ' :: more) := by
    rintro c more (rfl | rfl) hmore
    · exact .plain (by decide) (by decide) (.plain (by decide) (by decide) hmore)
    · exact .plain (by decide) (by decide) (.plain (by decide) (by decide) hmore)
  induction h with
  | empty => exact .empty
  | backslash => exact .backslash
  | close => exact .close
  | @escape _ c cs _ ih =>
    rw [Brackets.spaceOut_cons (by decide)]
    by_cases hc : c = '[' ∨ c = ']'
    · rw [Brackets.spaceOut_bracket hc]
      exact .escape ' ' (hspaced hc (ih hspaced))
    · rw [Brackets.spaceOut_cons hc]
      exact .escape c (ih hspaced)
  | @plain _ c cs hquote hslash _ ih =>
    by_cases hc : c = '[' ∨ c = ']'
    · rw [Brackets.spaceOut_bracket hc]
      exact .plain (by decide) (by decide) (hspaced hc (ih hspaced))
    · rw [Brackets.spaceOut_cons hc]
      exact .plain hquote hslash (ih hspaced)

/-- A string that is cut is not closed. -/
lemma Body.left {closed : Bool} {cs ds : List Char} (h : Body closed (cs ++ ds))
    (hds : closed = true → ds ≠ []) : Body false cs := by
  generalize hwhole : cs ++ ds = whole at h
  induction h generalizing cs with
  | empty =>
    obtain ⟨rfl, -⟩ := List.append_eq_nil_iff.1 hwhole
    exact .empty
  | backslash =>
    rcases List.append_eq_singleton_iff.1 hwhole with ⟨rfl, -⟩ | ⟨rfl, -⟩
    · exact .empty
    · exact .backslash
  | close =>
    rcases List.append_eq_singleton_iff.1 hwhole with ⟨rfl, -⟩ | ⟨rfl, rfl⟩
    · exact .empty
    · exact absurd rfl (hds rfl)
  | escape c _ ih =>
    match cs, hwhole with
    | [], _ => exact .empty
    | [d], hwhole =>
      obtain ⟨rfl, -⟩ := List.cons.inj hwhole
      exact .backslash
    | d :: e :: cs, hwhole =>
      obtain ⟨hd, he⟩ := List.cons.inj hwhole
      obtain ⟨rfl, hmore⟩ := List.cons.inj he
      exact hd ▸ .escape e (ih hds hmore)
  | plain hquote hslash _ ih =>
    match cs, hwhole with
    | [], _ => exact .empty
    | d :: cs, hwhole =>
      obtain ⟨rfl, hmore⟩ := List.cons.inj hwhole
      exact .plain hquote hslash (ih hds hmore)

lemma hasError_of_step {c : Char} {cs : List Char}
    (h : ∀ before, (step before c cs).kind = some .error) : HasError (c :: cs) := by
  intro before line
  rw [pieces_of_kind (h before)]
  exact ⟨_, List.mem_cons_self, rfl⟩

/-- A string that is cut and spaced out is an error. -/
lemma Body.hasError {cs : List Char} (h : Body false cs) : HasError ('"' :: cs) := by
  refine hasError_of_step fun before => ?_
  obtain ⟨-, -, hclosed⟩ := h.quoted_eq
  simp [step_string, stringLiteral, hclosed]

/-- A bracket between the quotes of a character literal is too much once it is spaced out. -/
lemma CharUnit.hasError {u : List Char} (h : CharUnit u) (hbracket : ¬ ∀ c ∈ u, c ≠ '[' ∧ c ≠ ']')
    (rest : List Char) : HasError (spaceOut ('\'' :: u) ++ rest) := by
  rw [Brackets.spaceOut_cons (by decide)]
  refine hasError_of_step fun before => ?_
  rw [step_char]
  cases h with
  | @plain c hc =>
    have hc : c = '[' ∨ c = ']' := by
      by_contra hnot
      exact hbracket (by simpa using hnot)
    rw [Brackets.spaceOut_bracket hc]
    rcases hc with rfl | rfl <;> rfl
  | escape c =>
    have hc : c = '[' ∨ c = ']' := by
      by_contra hnot
      exact hbracket (by simpa using hnot)
    rw [Brackets.spaceOut_cons (by decide), Brackets.spaceOut_bracket hc]
    rcases hc with rfl | rfl <;> rfl

/-- Scanning a whole lexeme that is spaced out ends where the lexeme ends, or it meets an error. -/
lemma Whole.comesTo_or_hasError (h : Whole kind text) :
    (∀ rest, Apart rest → ComesTo (spaceOut text ++ rest) rest) ∨
      ∀ rest, HasError (spaceOut text ++ rest) := by
  rcases h.tame_or_quoted with htame | ⟨body, rfl, hbody, rfl⟩ | ⟨u, quote, rfl, hu, hquote⟩
  · exact .inl fun rest hrest => comesTo_of_tame (tame_spaceOut htame) hrest
  · rw [Brackets.spaceOut_cons (by decide)]
    exact .inl fun rest hrest => (Whole.string hbody.spacedOut).comesTo hrest
  · by_cases hbracket : ∀ c ∈ u, c ≠ '[' ∧ c ≠ ']'
    · have hfree : ∀ c ∈ quote, c ≠ '[' ∧ c ≠ ']' := by
        rcases hquote with ⟨rfl, -⟩ | ⟨rfl, -⟩ <;> simp
      have hself : spaceOut ('\'' :: (u ++ quote)) = '\'' :: (u ++ quote) := by
        refine Brackets.spaceOut_eq_self (List.forall_mem_cons.2 ⟨by decide, fun c hc => ?_⟩)
        exact (List.mem_append.1 hc).elim (hbracket c) (hfree c)
      rw [hself]
      exact .inl fun rest hrest => h.comesTo hrest
    · refine .inr fun rest => ?_
      rw [← List.cons_append, Brackets.spaceOut_append, List.append_assoc]
      exact hu.hasError hbracket _

/-- A malformed lexeme other than a cut number is an error also if it is spaced out. -/
lemma Whole.hasError_spaceOut (h : Whole .error text) (hcut : text.all isDecimal = false)
    (hrest : Apart rest) : HasError (' ' :: (spaceOut text ++ rest)) := by
  have hagain : HasError (' ' :: (text ++ rest)) := by
    intro before line
    obtain ⟨before', hpieces⟩ := (h.stubborn hcut).pieces_append hrest line
    rw [pieces_blank, hpieces]
    exact ⟨_, List.mem_cons_self, rfl⟩
  by_cases hbracket : ∀ c ∈ text, c ≠ '[' ∧ c ≠ ']'
  · rwa [Brackets.spaceOut_eq_self hbracket]
  · refine (comesTo_blank _).hasError ?_
    cases h with
    | word hkind => exact hkind.elim nofun nofun
    | plain hkind => exact hkind.elim nofun (Or.elim · nofun nofun)
    | cut htext =>
      rw [List.all_eq_true.2 htext] at hcut
      cases hcut
    | stray _ hfree => exact absurd hfree hbracket
    | misquoted hu =>
      refine hu.hasError (fun hfree => hbracket ?_) rest
      exact List.forall_mem_cons.2 ⟨by decide, hfree⟩

/-! ## Lexemes that are cut -/

/-- What is taken as a character literal can be cut behind a closing bracket in one place only. -/
lemma CharUnit.cut {u quote cs ds : List Char} (hu : CharUnit u)
    (hquote : quote = ['\''] ∨ quote = []) (hcut : cs ++ ds = '\'' :: (u ++ quote))
    (hlast : cs.getLast? = some ']') :
    cs = '\'' :: u ∧ ¬ ∀ c ∈ u, c ≠ '[' ∧ c ≠ ']' := by
  obtain ⟨front, rfl⟩ := List.getLast?_eq_some_iff.1 hlast
  have hfree : ']' ∉ quote := by rcases hquote with rfl | rfl <;> decide
  rw [List.append_assoc, List.singleton_append] at hcut
  cases hu with
  | @plain c =>
    have hunit : ['\''] ++ c :: quote = front ++ ']' :: ds := hcut.symm
    obtain ⟨rfl, rfl, -⟩ := (List.append_cons_inj_of_notMem (by decide) hfree).1 hunit
    exact ⟨rfl, by simp⟩
  | escape c =>
    have hunit : ['\'', '\\'] ++ c :: quote = front ++ ']' :: ds := hcut.symm
    obtain ⟨rfl, rfl, -⟩ := (List.append_cons_inj_of_notMem (by decide) hfree).1 hunit
    exact ⟨rfl, by simp⟩

/-- A string that is cut is an error. -/
lemma Body.hasError_cut {closed : Bool} {body cs ds : List Char} (h : Body closed body)
    (hcut : cs ++ ds = '"' :: body) (hlast : cs.getLast? = some ']')
    (hds : closed = true → ds ≠ []) : HasError (spaceOut cs) := by
  cases cs with
  | nil => simp at hlast
  | cons c cs =>
    obtain ⟨rfl, rfl⟩ := List.cons.inj hcut
    rw [Brackets.spaceOut_cons (by decide)]
    exact (Body.left h hds).spacedOut.hasError

/-- **A whole lexeme that is cut behind a closing bracket** goes on with a tame text, or else its
first part, spaced out, is an error. -/
lemma Whole.tame_or_hasError {cs ds : List Char} (h : Whole kind (cs ++ ds))
    (hlast : cs.getLast? = some ']') : tame ds = true ∨ HasError (spaceOut cs) := by
  rcases h.tame_or_quoted with htame | ⟨body, htext, hbody, -⟩ | ⟨u, quote, htext, hu, hquote⟩
  · exact .inl (tame_append htame).2
  · by_cases hds : ds = []
    · exact .inl (by rw [hds]; rfl)
    · exact .inr (hbody.hasError_cut htext hlast fun _ => hds)
  · obtain ⟨rfl, hbracket⟩ := hu.cut (hquote.imp And.left And.left) htext hlast
    refine .inr ?_
    simpa using hu.hasError hbracket []

/-- A malformed lexeme that can be cut behind a closing bracket is an error up to there. -/
lemma Whole.hasError_cut {cs ds : List Char} (h : Whole .error (cs ++ ds))
    (hcut : (cs ++ ds).all isDecimal = false) (hlast : cs.getLast? = some ']') :
    HasError (spaceOut cs) := by
  have hmem : ']' ∈ cs ++ ds := List.mem_append_left ds (List.mem_of_getLast? hlast)
  generalize htext : cs ++ ds = text at h hcut hmem
  cases h with
  | word hkind => exact hkind.elim nofun nofun
  | plain hkind => exact hkind.elim nofun (Or.elim · nofun nofun)
  | cut hall =>
    rw [List.all_eq_true.2 hall] at hcut
    cases hcut
  | stray _ hfree => exact absurd rfl (hfree _ hmem).2
  | @misquoted u hu =>
    obtain ⟨rfl, hbracket⟩ := hu.cut (.inr rfl) (by simpa using htext) hlast
    simpa using hu.hasError hbracket []

/-- A lexeme that ended with the text is an error wherever it is cut behind a closing bracket. -/
lemma Torn.hasError_cut {cs ds : List Char} (h : Torn (cs ++ ds)) (hlast : cs.getLast? = some ']') :
    HasError (spaceOut cs) := by
  have hmem : ']' ∈ cs ++ ds := List.mem_append_left ds (List.mem_of_getLast? hlast)
  generalize htext : cs ++ ds = text at h hmem
  cases h with
  | string hbody => exact hbody.hasError_cut htext hlast nofun
  | char => exact absurd hmem (by decide)
  | escape => exact absurd hmem (by decide)

end Scan

namespace Grammar

open Scan

/-! ## Joined lexemes -/

lemma joined_append (ts us : List Token) : joined (ts ++ us) = joined ts ++ joined us :=
  List.flatMap_append

lemma joined_cons (t : Token) (ts : List Token) :
    joined (t :: ts) = ' ' :: (t.lexeme.toList ++ joined ts) := rfl

lemma apart_joined (ts : List Token) : Apart (joined ts) := by
  cases ts with
  | nil => exact apart_nil
  | cons t ts => exact apart_cons _

lemma apart_joined_append (ts : List Token) {rest : List Char} (h : Apart rest) :
    Apart (joined ts ++ rest) := by
  cases ts with
  | nil => exact h
  | cons t ts => exact apart_cons _

lemma apart_spaceOut_joined (ts : List Token) {rest : List Char} (h : Apart rest) :
    Apart (spaceOut (joined ts) ++ rest) := by
  cases ts with
  | nil => exact h
  | cons t ts => exact apart_cons _

/-- Scanning joined whole lexemes. -/
lemma comesTo_joined {ts : List Token} (h : ∀ t ∈ ts, Whole t.kind t.lexeme.toList)
    {rest : List Char} (hrest : Apart rest) : ComesTo (joined ts ++ rest) rest := by
  induction ts with
  | nil => exact comesTo_refl rest
  | cons t ts ih =>
    obtain ⟨ht, hts⟩ := List.forall_mem_cons.1 h
    rw [joined_cons, List.cons_append, List.append_assoc]
    exact (comesTo_blank _).trans <| (ht.comesTo (apart_joined_append ts hrest)).trans (ih hts)

/-- Scanning joined whole lexemes that are spaced out. -/
lemma comesTo_or_hasError_joined {ts : List Token} (h : ∀ t ∈ ts, Whole t.kind t.lexeme.toList)
    {rest : List Char} (hrest : Apart rest) :
    ComesTo (spaceOut (joined ts) ++ rest) rest ∨ HasError (spaceOut (joined ts) ++ rest) := by
  induction ts with
  | nil => exact .inl (comesTo_refl rest)
  | cons t ts ih =>
    obtain ⟨ht, hts⟩ := List.forall_mem_cons.1 h
    rw [joined_cons, Brackets.spaceOut_cons (by decide), Brackets.spaceOut_append, List.cons_append,
      List.append_assoc]
    rcases ht.comesTo_or_hasError with hcomes | herror
    · have hfirst := (comesTo_blank _).trans (hcomes _ (apart_spaceOut_joined ts hrest))
      exact (ih hts).imp hfirst.trans hfirst.hasError
    · exact .inr ((comesTo_blank _).hasError (herror _))

/-- An error behind a tame text and whole lexemes shows also if all is spaced out. -/
lemma hasError_spaceOut_append {cs : List Char} (hcs : tame cs = true) {ts : List Token}
    (hts : ∀ t ∈ ts, Whole t.kind t.lexeme.toList) {rest : List Char}
    (hrest : Apart (spaceOut rest)) (herror : HasError (spaceOut rest)) :
    HasError (spaceOut (cs ++ (joined ts ++ rest))) := by
  rw [Brackets.spaceOut_append, Brackets.spaceOut_append]
  refine (comesTo_of_tame (tame_spaceOut hcs) (apart_spaceOut_joined ts hrest)).hasError ?_
  rcases comesTo_or_hasError_joined hts hrest with hcomes | hmeets
  · exact hcomes.hasError herror
  · exact hmeets

/-- Where joined lexemes can be cut behind a closing bracket: in one of the lexemes. -/
lemma exists_of_joined_eq_append {ts : List Token} {cs ds : List Char} (h : joined ts = cs ++ ds)
    (hlast : cs.getLast? = some ']') :
    ∃ pre u post left right, ts = pre ++ u :: post ∧ u.lexeme.toList = left ++ right ∧
      left.getLast? = some ']' ∧ cs = joined pre ++ ' ' :: left ∧ ds = right ++ joined post := by
  induction ts generalizing cs with
  | nil =>
    obtain ⟨rfl, -⟩ := List.append_eq_nil_iff.1 h.symm
    simp at hlast
  | cons t ts ih =>
    match cs, hlast with
    | [c], hlast =>
      obtain ⟨rfl, -⟩ := List.cons.inj h
      simp at hlast
    | c :: d :: cs, hlast =>
      obtain ⟨rfl, hmore⟩ := List.cons.inj h
      rw [List.getLast?_cons_cons] at hlast
      rcases List.append_eq_append_iff.1 hmore with ⟨excess, hexcess, hts⟩ | ⟨right, hlexeme, hds⟩
      · cases excess with
        | nil =>
          rw [List.append_nil] at hexcess
          exact ⟨[], t, ts, d :: cs, [], rfl, by simp [hexcess], hlast, rfl, hts.symm⟩
        | cons x excess =>
          -- The cut is in a lexeme further on.
          have hlast' : (x :: excess).getLast? = some ']' := by
            rwa [hexcess, List.getLast?_append_of_ne_nil _ (by simp)] at hlast
          obtain ⟨pre, u, post, left, right, rfl, hlexeme, hleft, hpre, hpost⟩ := ih hts hlast'
          refine ⟨t :: pre, u, post, left, right, rfl, hlexeme, hleft, ?_, hpost⟩
          rw [hexcess, hpre, joined_cons]
          simp
      · exact ⟨[], t, ts, d :: cs, right, rfl, hlexeme, hlast, rfl, hds⟩

end Grammar

end ClassLang
