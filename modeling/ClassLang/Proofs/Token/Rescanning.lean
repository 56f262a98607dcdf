import ClassLang.Proofs.Token.Lexemes

set_option autoImplicit false

/-!
# Scanning lexemes again

Lexemes that are set apart by spaces are scanned anew. A whole lexeme comes out as it was, or at
least in pieces that end where the lexeme ends. A malformed lexeme is an error again, with one
exception: a number that was cut before its second point is a number without it.

## Main definitions

* `ClassLang.Scan.ComesTo` — scanning a text comes to a stop before the rest of it.
* `ClassLang.Scan.HasError` — scanning a text meets an error.

## Main results

* `ClassLang.Scan.comesTo_of_tame` — scanning a text without quotes and comments stops at a space
  behind it.
* `ClassLang.Scan.Whole.comesTo` — scanning a whole lexeme again ends where the lexeme ends.
* `ClassLang.Scan.Whole.stubborn`, `ClassLang.Scan.Torn.pieces_eq` — malformed lexemes other than
  cut numbers are errors again.
-/

namespace ClassLang.Scan

/-! ## Scanning up to a place -/

section Pieces

variable {before : Option Char} {line : Nat} {c : Char} {cs rest : List Char}

lemma pieces_of_kind {kind : Kind} (h : (step before c cs).kind = some kind) :
    pieces before line (c :: cs) = { kind, text := (step before c cs).text, line } ::
      pieces (step before c cs).text.getLast? (line + (step before c cs).newlines)
        (step before c cs).rest := by
  rw [pieces, h]

lemma pieces_of_gap (h : (step before c cs).kind = none) :
    pieces before line (c :: cs) = pieces (step before c cs).text.getLast?
      (line + (step before c cs).newlines) (step before c cs).rest := by
  rw [pieces, h]

/-- A blank is passed over. -/
lemma pieces_blank : pieces before line (' ' :: cs) = pieces (some ' ') line cs := by
  have hstep : step before ' ' cs = { kind := none, text := [' '], rest := cs } := by
    rw [step, if_pos (by decide)]
    rfl
  rw [pieces, hstep]
  rfl

/-- Wherever `cs` stands, scanning it takes whole lexemes only until it comes to `rest`. -/
def ComesTo (cs rest : List Char) : Prop :=
  ∀ before line, ∃ ps before' line',
    pieces before line cs = ps ++ pieces before' line' rest ∧ ∀ p ∈ ps, Whole p.kind p.text

/-- Wherever `cs` stands, scanning it meets an error. -/
def HasError (cs : List Char) : Prop :=
  ∀ before line, ∃ p ∈ pieces before line cs, p.kind = .error

lemma comesTo_refl (cs : List Char) : ComesTo cs cs :=
  fun before line => ⟨[], before, line, rfl, by simp⟩

lemma comesTo_blank (cs : List Char) : ComesTo (' ' :: cs) cs :=
  fun _ line => ⟨[], some ' ', line, pieces_blank, by simp⟩

lemma ComesTo.trans {mid : List Char} (h : ComesTo cs mid) (h' : ComesTo mid rest) :
    ComesTo cs rest := by
  intro before line
  obtain ⟨ps, before', line', hps, hwhole⟩ := h before line
  obtain ⟨qs, before'', line'', hqs, hwhole'⟩ := h' before' line'
  refine ⟨ps ++ qs, before'', line'', by rw [hps, hqs, List.append_assoc], fun p hp => ?_⟩
  exact (List.mem_append.1 hp).elim (hwhole p) (hwhole' p)

lemma ComesTo.hasError (h : ComesTo cs rest) (hrest : HasError rest) : HasError cs := by
  intro before line
  obtain ⟨ps, before', line', hps, -⟩ := h before line
  obtain ⟨p, hp, hkind⟩ := hrest before' line'
  exact ⟨p, by rw [hps]; exact List.mem_append_right ps hp, hkind⟩

/-- One step of scanning, which takes a gap or a whole lexeme. -/
lemma comesTo_of_step
    (hwhole : ∀ before kind, (step before c cs).kind = some kind →
      Whole kind (step before c cs).text)
    (hrest : ∀ before, ComesTo (step before c cs).rest rest) : ComesTo (c :: cs) rest := by
  intro before line
  obtain ⟨ps, before', line', hps, hall⟩ := hrest before
    (step before c cs).text.getLast? (line + (step before c cs).newlines)
  cases hkind : (step before c cs).kind with
  | none => exact ⟨ps, before', line', by rw [pieces_of_gap hkind, hps], hall⟩
  | some kind =>
    refine ⟨{ kind, text := (step before c cs).text, line } :: ps, before', line', ?_, ?_⟩
    · rw [pieces_of_kind hkind, hps, List.cons_append]
    · exact List.forall_mem_cons.2 ⟨hwhole before kind hkind, hall⟩

/-- A step through a tame text stops at the space behind it. -/
lemma step_tame (htame : tame (c :: cs) = true) (hrest : Apart rest) (before : Option Char) :
    ∃ more, c :: cs = (step before c (cs ++ rest)).text ++ more ∧
      (step before c (cs ++ rest)).rest = more ++ rest ∧
      ∀ kind, (step before c (cs ++ rest)).kind = some kind →
        Whole kind (step before c (cs ++ rest)).text := by
  have happend := step_text_append_rest before c (cs ++ rest)
  simp only [tame, Bool.and_eq_true, decide_eq_true_eq, Bool.not_eq_true'] at htame
  obtain ⟨⟨⟨hstring, hchar⟩, hslash⟩, -⟩ := htame
  cases takes_step before c (cs ++ rest) with
  | plain hplain =>
    obtain ⟨kind, hkind, hwhole⟩ := hplain.kind
    have hwhole' : ∀ kind, (step before c (cs ++ rest)).kind = some kind →
        Whole kind (step before c (cs ++ rest)).text := by
      intro kind' hkind'
      obtain rfl := Option.some.inj (hkind.symm.trans hkind')
      exact hwhole
    -- The text taken has no space, so it ends before `rest`.
    rw [← List.cons_append, List.append_eq_append_iff] at happend
    rcases happend with ⟨more, hcs, hmore⟩ | ⟨excess, htext, hexcess⟩
    · exact ⟨more, hcs, hmore, hwhole'⟩
    · cases excess with
      | nil => exact ⟨[], by simpa using htext.symm, by simpa using hexcess.symm, hwhole'⟩
      | cons d excess =>
        obtain rfl : d = ' ' := hrest d (by rw [hexcess]; rfl)
        exact absurd (by simp [htext]) hplain.space
  | blank _ hkind htext =>
    rw [htext] at happend
    refine ⟨cs, by rw [htext]; rfl, List.cons.inj happend |>.2, fun kind h => ?_⟩
    cases hkind.symm.trans h
  | comment hc hcs =>
    exfalso
    cases cs with
    | nil =>
      rcases hrest.eq_nil_or with rfl | ⟨more, rfl⟩ <;> simp at hcs
    | cons d cs =>
      have hd : d = '/' ∨ d = '*' := by simpa using hcs
      simp only [hc, decide_true, List.head?_cons, Option.any_some, Bool.true_and,
        Bool.or_eq_false_iff, decide_eq_false_iff_not] at hslash
      exact hd.elim hslash.1 hslash.2
  | string hc => exact absurd hc hstring
  | char hc => exact absurd hc hchar

/-- **Scanning a tame text stops at the space behind it**, whatever it is cut into. -/
lemma comesTo_of_tame {cs : List Char} (htame : tame cs = true) (hrest : Apart rest) :
    ComesTo (cs ++ rest) rest := by
  induction hlen : cs.length using Nat.strong_induction_on generalizing cs with
  | _ n ih =>
    cases cs with
    | nil => exact comesTo_refl rest
    | cons c cs =>
      rw [List.cons_append]
      refine comesTo_of_step (fun before => ?_) fun before => ?_
      · obtain ⟨-, -, -, hwhole⟩ := step_tame htame hrest before
        exact hwhole
      · obtain ⟨more, hcs, hmore, -⟩ := step_tame htame hrest before
        have hpos := List.length_pos_iff.2 (step_text_ne_nil before c (cs ++ rest))
        have hlength := congrArg List.length hcs
        rw [List.length_append, hlen] at hlength
        rw [hmore]
        exact ih more.length (by omega) (tame_append (hcs ▸ htame)).2 rfl

end Pieces

/-! ## Scanning whole lexemes again -/

section Again

variable {before : Option Char} {kind : Kind} {text rest : List Char}

lemma step_string (before : Option Char) (cs : List Char) :
    step before '"' cs = stringLiteral cs := by
  rw [step, if_neg (by decide), if_neg (by decide), if_neg (by simp [startsNumber]), if_pos rfl]

lemma step_char (before : Option Char) (cs : List Char) :
    step before '\'' cs = charLiteral cs := by
  rw [step, if_neg (by decide), if_neg (by decide), if_neg (by simp [startsNumber]),
    if_neg (by decide), if_pos rfl]

/-- A whole lexeme is tame, a string, or what is taken as a character literal, with or without the
closing quote. -/
lemma Whole.tame_or_quoted (h : Whole kind text) : tame text = true ∨
    (∃ body, text = '"' :: body ∧ Body true body ∧ kind = .stringLiteral) ∨
    ∃ u quote, text = '\'' :: (u ++ quote) ∧ CharUnit u ∧
      (quote = ['\''] ∧ kind = .charLiteral ∨ quote = [] ∧ kind = .error) := by
  cases h with
  | word _ _ htext => exact .inl (tame_of_class htext (by decide))
  | plain _ htame => exact .inl htame
  | cut htext => exact .inl (tame_of_class htext (by decide))
  | stray htame => exact .inl htame
  | string hbody => exact .inr (.inl ⟨_, rfl, hbody, rfl⟩)
  | @char u hu => exact .inr (.inr ⟨u, _, rfl, hu, .inl ⟨rfl, rfl⟩⟩)
  | @misquoted u hu => exact .inr (.inr ⟨u, [], by simp, hu, .inr ⟨rfl, rfl⟩⟩)

/-- A lexeme that is always taken as it is. -/
lemma Whole.comesTo_of_step {c : Char} {cs : List Char} (h : Whole kind (c :: cs))
    (hstep : ∀ before, (step before c (cs ++ rest)).kind = some kind ∧
      (step before c (cs ++ rest)).text = c :: cs ∧ (step before c (cs ++ rest)).rest = rest) :
    ComesTo (c :: cs ++ rest) rest := by
  rw [List.cons_append]
  refine Scan.comesTo_of_step (fun before kind' hkind' => ?_) fun before => ?_
  · obtain ⟨hkind, htext, -⟩ := hstep before
    obtain rfl := Option.some.inj (hkind.symm.trans hkind')
    exact htext ▸ h
  · obtain ⟨-, -, hafter⟩ := hstep before
    rw [hafter]
    exact comesTo_refl rest

/-- **Scanning a whole lexeme again ends where the lexeme ends**, if nothing or a space follows. -/
lemma Whole.comesTo (h : Whole kind text) (hrest : Apart rest) : ComesTo (text ++ rest) rest := by
  rcases h.tame_or_quoted with htame | ⟨body, rfl, hbody, rfl⟩ | ⟨u, quote, rfl, hu, hquote⟩
  · exact comesTo_of_tame htame hrest
  · refine h.comesTo_of_step fun before => ?_
    obtain ⟨htext, hafter, hclosed⟩ := hbody.quoted_append rest (by simp)
    rw [step_string]
    exact ⟨by simp [stringLiteral, hclosed], congrArg ('"' :: ·) htext, hafter⟩
  · refine h.comesTo_of_step fun before => ?_
    rw [step_char, List.append_assoc, hu.charLiteral_append]
    rcases hquote with ⟨rfl, rfl⟩ | ⟨rfl, rfl⟩
    · exact ⟨rfl, rfl, rfl⟩
    · rw [List.nil_append, closeChar_of_apart hrest]
      exact ⟨rfl, by simp, rfl⟩

/-- **A malformed lexeme other than a cut number is the same error again** behind a space. -/
lemma Whole.stubborn (h : Whole .error text) (hcut : text.all isDecimal = false) :
    Stubborn text := by
  cases h with
  | word hkind => exact hkind.elim nofun nofun
  | plain hkind => exact hkind.elim nofun (Or.elim · nofun nofun)
  | cut htext =>
    rw [List.all_eq_true.2 htext] at hcut
    cases hcut
  | stray _ _ hagain => exact hagain
  | misquoted hu =>
    intro rest hrest
    rw [step_char, hu.charLiteral_append, closeChar_of_apart hrest]

lemma Stubborn.pieces_append (h : Stubborn text) (hrest : Apart rest) (line : Nat) :
    ∃ before', pieces (some ' ') line (text ++ rest) =
      { kind := .error, text, line } :: pieces before' line rest := by
  match text, h with
  | c :: cs, h =>
    have hstep := h rest hrest
    rw [List.cons_append, pieces_of_kind (by rw [hstep]), hstep]
    exact ⟨_, rfl⟩

/-- A lexeme that ended with the text is an error again at the end of a text. -/
lemma Torn.pieces_eq (h : Torn text) (before : Option Char) (line : Nat) :
    pieces before line text = [{ kind := .error, text, line }] := by
  have hlast : ∀ c cs, (step before c cs).kind = some .error → (step before c cs).text = c :: cs →
      (step before c cs).rest = [] →
      pieces before line (c :: cs) = [{ kind := .error, text := c :: cs, line }] := by
    intro c cs hkind htext hrest
    rw [pieces_of_kind hkind, htext, hrest, pieces]
  cases h with
  | string hbody =>
    obtain ⟨htext, hrest, hclosed⟩ := hbody.quoted_eq
    refine hlast _ _ ?_ ?_ ?_ <;> simp [step_string, stringLiteral, htext, hrest, hclosed]
  | char => refine hlast _ _ ?_ ?_ ?_ <;> rw [step_char] <;> rfl
  | escape => refine hlast _ _ ?_ ?_ ?_ <;> rw [step_char] <;> rfl

end Again

end ClassLang.Scan
