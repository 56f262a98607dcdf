import ClassLang.Proofs.Grammar.BracketText
import ClassLang.Proofs.Grammar.ProgramLockstep
import Mathlib.Data.List.Chain

set_option autoImplicit false

/-!
# Lexical errors in programs

A token of kind `error` is consumed by no production, so that a program with such a token should not
parse. There is one way around: tokens that are pulled into the brackets of a word are scanned anew,
and an error can be scanned as something else then. It turns out that this happens to one sort of
error only, a number that was cut before its second point, and only if a word before it leaves a
bracket open.

Two invariants of the moves of a parser say so. An error with no word before it that leaves a
bracket open is never pulled in, hence stays where it is. An error other than a cut number is pulled
in only to come out as an error again: either in the bracket groups, where all words are without
brackets, so that it is of the first sort, or in the rest of the text, which goes back in front.

## Main definitions

* `ClassLang.Token.isCutNumber`, `ClassLang.Token.leavesOpen` — the exception.
* `ClassLang.Grammar.Exposed`, `ClassLang.Grammar.Lasting` — the two invariants.

## Main results

* `ClassLang.Grammar.Passage.doomed` — one of the invariants holds along every passage.
* `ClassLang.Program.error_of_lexical_error` — a program with a lexical error does not parse.
-/

namespace ClassLang

open Scan
open Brackets (spaceOut)

namespace Token

/-- Whether the token is a number that was cut before its second point: no other malformed lexeme
consists of digits, points and signs. -/
def isCutNumber (t : Token) : Bool :=
  t.kind = .error && t.lexeme.toList.all isDecimal

/-- Whether the token is a word with more opening than closing brackets in its lexeme, from some
place on to the end. -/
def leavesOpen (t : Token) : Bool :=
  t.isWord && t.lexeme.toList.tails.any fun cs => 0 < Brackets.depth cs

end Token

/-! ## Tokens of a text that is scanned again -/

namespace Grammar

lemma map_piece_tokenize (source : String) :
    (tokenize source).map Token.piece = pieces none 1 source.toList :=
  map_piece_tokens .empty source

lemma map_piece_rescan (line : Nat) (cs : List Char) :
    (rescan line cs).map Token.piece = (pieces none 1 cs).map fun p => { p with line } := by
  rw [← String.toList_ofList (l := cs), ← map_piece_tokenize, rescan, List.map_map, List.map_map,
    String.toList_ofList]
  rfl

lemma exists_of_mem_rescan {line : Nat} {cs : List Char} {t : Token} (h : t ∈ rescan line cs) :
    ∃ p ∈ pieces none 1 cs, p.kind = t.kind ∧ p.text = t.lexeme.toList := by
  have hmem : t.piece ∈ (rescan line cs).map Token.piece := List.mem_map_of_mem h
  rw [map_piece_rescan] at hmem
  obtain ⟨p, hp, hpiece⟩ := List.mem_map.1 hmem
  exact ⟨p, hp, congrArg Piece.kind hpiece, congrArg Piece.text hpiece⟩

lemma exists_mem_rescan (line : Nat) {cs : List Char} {p : Piece} (h : p ∈ pieces none 1 cs) :
    ∃ t ∈ rescan line cs, t.kind = p.kind ∧ t.lexeme.toList = p.text := by
  have hmem : { p with line } ∈ (pieces none 1 cs).map fun p => { p with line } :=
    List.mem_map_of_mem h
  rw [← map_piece_rescan] at hmem
  obtain ⟨t, ht, hpiece⟩ := List.mem_map.1 hmem
  exact ⟨t, ht, congrArg Piece.kind hpiece, congrArg Piece.text hpiece⟩

lemma settled_rescan (line : Nat) (cs : List Char) :
    Settled ((rescan line cs).map Token.piece) := by
  rw [map_piece_rescan]
  exact (settled_pieces none 1 cs).reline line

/-! ## Errors that stay in sight -/

/-- The token is an error, and the words before it leave no bracket open. -/
def Exposed (ts : List Token) : Prop :=
  ∃ pre t post, ts = pre ++ t :: post ∧ t.kind = .error ∧ ∀ w ∈ pre, w.isWord = true →
    (∀ c ∈ w.lexeme.toList, continuesWord c = true) ∧ w.leavesOpen = false

variable {t : Token} {ts : List Token}

lemma not_exposed_nil : ¬ Exposed [] := by
  rintro ⟨pre, t, post, h, -⟩
  simp at h

/-- The error is behind the first token, if that one is none. -/
lemma Exposed.exists_cons (ht : t.kind ≠ .error) (h : Exposed (t :: ts)) :
    ∃ pre u post, ts = pre ++ u :: post ∧ u.kind = .error ∧ ∀ w ∈ t :: pre, w.isWord = true →
      (∀ c ∈ w.lexeme.toList, continuesWord c = true) ∧ w.leavesOpen = false := by
  obtain ⟨pre, u, post, hts, hu, hpre⟩ := h
  cases pre with
  | nil =>
    obtain ⟨rfl, -⟩ := List.cons.inj hts
    exact absurd hu ht
  | cons v pre =>
    obtain ⟨rfl, rfl⟩ := List.cons.inj hts
    exact ⟨pre, u, post, rfl, hu, hpre⟩

lemma Exposed.consume (ht : t.kind ≠ .error) (h : Exposed (t :: ts)) : Exposed ts := by
  obtain ⟨pre, u, post, rfl, hu, hpre⟩ := h.exists_cons ht
  exact ⟨pre, u, post, rfl, hu, (List.forall_mem_cons.1 hpre).2⟩

lemma Exposed.behead (ht : t.kind = .number ∨ t.kind = .floatNumber ∨ t.kind = .operator)
    (h : Exposed (t :: ts)) : Exposed (t.behead :: ts) := by
  have hne : t.kind ≠ .error := by rcases ht with ht | ht | ht <;> simp [ht]
  obtain ⟨pre, u, post, rfl, hu, hpre⟩ := h.exists_cons hne
  refine ⟨t.behead :: pre, u, post, rfl, hu, List.forall_mem_cons.2 ⟨fun hword => ?_, ?_⟩⟩
  · have hnot : t.behead.isWord = false := by
      rcases ht with ht | ht | ht <;> simp [Token.behead, Token.isWord, ht]
    rw [hnot] at hword
    cases hword
  · exact (List.forall_mem_cons.1 hpre).2

lemma kind_of_isWord (h : t.isWord = true) : t.kind = .keyword ∨ t.kind = .identifier := by
  simp only [Token.isWord, Bool.or_eq_true, decide_eq_true_eq] at h
  exact h.symm

lemma bracketed_suffix (t : Token) : bracketed t <:+ t.lexeme.toList :=
  List.dropWhile_suffix _

lemma depth_le_of_leavesOpen_eq_false (ht : t.isWord = true) (h : t.leavesOpen = false)
    {cs : List Char} (hcs : cs <:+ t.lexeme.toList) : Brackets.depth cs ≤ 0 := by
  rw [Token.leavesOpen, ht, Bool.true_and, List.any_eq_false] at h
  simpa using h cs ((List.mem_tails _ _).2 hcs)

/-- A word that leaves no bracket open pulls nothing in, and what goes back in front leaves no
bracket open either. -/
lemma Exposed.takeApart {pulled : List Token} (ht : t.isWord = true)
    (hopen : pulled ≠ [] → 0 < Brackets.depth (bracketed t)) (h : Exposed (t :: pulled ++ ts)) :
    Exposed (rescan t.line (Brackets.split (bracketed t ++ joined pulled)).2 ++ ts) := by
  obtain ⟨pre, u, post, hts, hu, hpre⟩ := h.exists_cons (Token.kind_ne_error_of_isWord ht)
  obtain ⟨hword, hpre⟩ := List.forall_mem_cons.1 hpre
  obtain ⟨hchars, hclosed⟩ := hword ht
  have hnone : pulled = [] := by
    by_contra hne
    have hdepth := depth_le_of_leavesOpen_eq_false ht hclosed (bracketed_suffix t)
    have := hopen hne
    omega
  subst hnone
  have hrest : (Brackets.split (bracketed t ++ joined [])).2 <:+ t.lexeme.toList := by
    refine List.IsSuffix.trans ⟨_, Brackets.split_append _⟩ ?_
    rw [joined, List.flatMap_nil, List.append_nil]
    exact bracketed_suffix t
  refine ⟨rescan t.line _ ++ pre, u, post, by rw [List.append_assoc]; exact congrArg _ hts, hu, ?_⟩
  intro w hw hwword
  rcases List.mem_append.1 hw with hw | hw
  · obtain ⟨p, hp, hkind, htext⟩ := exists_of_mem_rescan hw
    have hsuffix : w.lexeme.toList <:+ t.lexeme.toList := by
      rw [← htext]
      refine List.IsSuffix.trans (suffix_of_mem_pieces ?_ hp (hkind ▸ kind_of_isWord hwword)) hrest
      exact fun c hc => hchars c (hrest.subset hc)
    refine ⟨fun c hc => hchars c (hsuffix.subset hc), ?_⟩
    rw [Token.leavesOpen, hwword, Bool.true_and, List.any_eq_false]
    intro cs hcs
    have hends := ((List.mem_tails _ _).1 hcs).trans hsuffix
    simpa using depth_le_of_leavesOpen_eq_false ht hclosed hends
  · exact hpre w hw hwword

/-! ## Words in a text that is spaced out -/

/-- Every bracket but the first character of the text has a space in front of it. -/
lemma isChain_spaceOut (cs : List Char) :
    (spaceOut cs).IsChain fun a b => b = '[' ∨ b = ']' → a = ' ' := by
  have hhead : ∀ cs, ∀ b ∈ (spaceOut cs).head?, ¬ (b = '[' ∨ b = ']') := by
    intro cs b hb
    cases cs with
    | nil => cases hb
    | cons c cs =>
      by_cases hc : c = '[' ∨ c = ']'
      · rw [Brackets.spaceOut_bracket hc] at hb
        cases hb
        decide
      · rw [Brackets.spaceOut_cons hc] at hb
        cases hb
        exact hc
  induction cs with
  | nil => exact .nil
  | cons c cs ih =>
    by_cases hc : c = '[' ∨ c = ']'
    · have hspace : ∀ b ∈ (spaceOut cs).head?, b = '[' ∨ b = ']' → ' ' = ' ' := fun _ _ _ => rfl
      rw [Brackets.spaceOut_bracket hc]
      exact .cons_cons (fun _ => rfl) (.cons_cons (fun h => absurd h (by decide)) (ih.cons hspace))
    · rw [Brackets.spaceOut_cons hc]
      exact ih.cons fun b hb hbracket => absurd hbracket (hhead cs b hb)

/-- A stretch without spaces of a text that is spaced out has a bracket at its first place only. -/
lemma bracketFree_of_isChain {c : Char} {cs : List Char}
    (hchain : (c :: cs).IsChain fun a b => b = '[' ∨ b = ']' → a = ' ')
    (hspace : ∀ a ∈ c :: cs, a ≠ ' ') : ∀ b ∈ cs, ¬ (b = '[' ∨ b = ']') := by
  induction cs generalizing c with
  | nil => simp
  | cons d cs ih =>
    obtain ⟨hd, hmore⟩ := List.isChain_cons_cons.1 hchain
    obtain ⟨hc, hcs⟩ := List.forall_mem_cons.1 hspace
    exact List.forall_mem_cons.2 ⟨fun hbracket => hc (hd hbracket), ih hmore hcs⟩

lemma depth_le_of_not_mem {cs : List Char} (h : '[' ∉ cs) : Brackets.depth cs ≤ 0 := by
  have hfold : ∀ (cs : List Char) (d : Int), '[' ∉ cs → cs.foldl (fun d c =>
      if c = '[' then d + 1 else if c = ']' then d - 1 else d) d ≤ d := by
    intro cs
    induction cs with
    | nil => simp
    | cons c cs ih =>
      intro d hcs
      obtain ⟨hc, hcs⟩ := not_or.1 (List.mem_cons.not.1 hcs)
      rw [List.foldl_cons, if_neg (Ne.symm hc)]
      split
      next =>
        have hless := ih (d - 1) hcs
        omega
      next => exact ih d hcs
  exact hfold cs 0 h

/-- **An error in a text that is spaced out stays in sight**, since all words there are without
brackets. -/
lemma exposed_of_spaceOut {cs : List Char} {p : Piece} (hp : p ∈ pieces none 1 (spaceOut cs))
    (hkind : p.kind = .error) (line : Nat) : Exposed (rescan line (spaceOut cs)) := by
  obtain ⟨t, ht, htkind, -⟩ := exists_mem_rescan line hp
  obtain ⟨pre, post, hts⟩ := List.append_of_mem ht
  refine ⟨pre, t, post, hts, htkind.trans hkind, fun w hw hword => ?_⟩
  have hmem : w ∈ rescan line (spaceOut cs) := hts ▸ List.mem_append_left _ hw
  obtain ⟨q, hq, hqkind, hqtext⟩ := exists_of_mem_rescan hmem
  have hqword : q.kind = .keyword ∨ q.kind = .identifier := hqkind ▸ kind_of_isWord hword
  obtain ⟨before, after, hpieces⟩ := List.append_of_mem hq
  have hwhole : Whole q.kind q.text := by
    rcases settled_pieces none 1 _ before q after hpieces with hwhole | ⟨herror, -⟩
    · exact hwhole
    · simp [herror] at hqword
  obtain ⟨hstarts, hchars⟩ := hwhole.of_word hqword
  have hchain : q.text.IsChain fun a b => b = '[' ∨ b = ']' → a = ' ' := by
    obtain ⟨left, right, happend⟩ := text_infix_of_mem_pieces hq
    have hall := isChain_spaceOut cs
    rw [← happend] at hall
    exact hall.left_of_append.right_of_append
  have hfree : '[' ∉ q.text := by
    cases htext : q.text with
    | nil => simp
    | cons c more =>
      rw [htext] at hstarts hchars hchain
      have hspace : ∀ a ∈ c :: more, a ≠ ' ' := by
        rintro a ha rfl
        exact absurd (hchars _ ha) (by decide)
      have hc : '[' ≠ c := by
        rintro rfl
        exact absurd (hstarts _ rfl) (by decide)
      refine List.mem_cons.not.2 (not_or.2 ⟨hc, fun hmore => ?_⟩)
      exact bracketFree_of_isChain hchain hspace _ hmore (.inl rfl)
  rw [hqtext] at hchars hfree
  refine ⟨hchars, ?_⟩
  rw [Token.leavesOpen, hword, Bool.true_and, List.any_eq_false]
  intro ds hds
  have hdepth := depth_le_of_not_mem fun hbracket =>
    hfree (((List.mem_tails _ _).1 hds).subset hbracket)
  simpa using hdepth

/-! ## Errors that last -/

/-- The token is a malformed lexeme other than a cut number. -/
def Lasts (t : Token) : Prop :=
  t.kind = .error ∧ t.lexeme.toList.all isDecimal = false

/-- Among tokens as they come from the scanner there is a malformed lexeme other than a cut
number. -/
structure Lasting (ts : List Token) : Prop where
  settled : Settled (ts.map Token.piece)
  error : ∃ t ∈ ts, Lasts t

lemma not_lasting_nil : ¬ Lasting [] := by
  rintro ⟨-, t, ht, -⟩
  cases ht

lemma Lasting.consume (ht : t.kind ≠ .error) (h : Lasting (t :: ts)) : Lasting ts := by
  obtain ⟨hsettled, u, hu, hlasts⟩ := h
  have hsettled' : Settled ([t.piece] ++ ts.map Token.piece) := hsettled
  refine ⟨hsettled'.right, ?_⟩
  rcases List.mem_cons.1 hu with rfl | hu
  · exact absurd hlasts.1 ht
  · exact ⟨u, hu, hlasts⟩

lemma Lasting.behead (ht : t.kind = .number ∨ t.kind = .floatNumber ∨ t.kind = .operator)
    (h : Lasting (t :: ts)) : Lasting (t.behead :: ts) := by
  have hne : t.kind ≠ .error := by rcases ht with ht | ht | ht <;> simp [ht]
  have htame : tame t.behead.lexeme.toList = true := by
    rcases h.settled [] t.piece _ rfl with hwhole | ⟨herror, -⟩
    · rw [Token.behead, String.toList_ofList]
      have hlexeme : tame (t.lexeme.toList.take 1 ++ t.lexeme.toList.tail) = true := by
        rw [← List.drop_one, List.take_append_drop]
        exact hwhole.tame_of_plain ht
      exact (tame_append hlexeme).2
    · exact absurd herror hne
  obtain ⟨hsettled, u, hu, hlasts⟩ := h.consume hne
  exact ⟨hsettled.cons (.plain ht htame), u, List.mem_cons_of_mem _ hu, hlasts⟩

/-- The tokens behind which there are others are whole. -/
lemma whole_of_settled {us : List Token} (h : Settled ((us ++ ts).map Token.piece))
    (hts : ts ≠ []) : ∀ u ∈ us, Whole u.kind u.lexeme.toList := by
  rw [List.map_append] at h
  intro u hu
  exact h.whole (by simpa using hts) u.piece (List.mem_map_of_mem hu)

/-- A malformed lexeme other than a cut number, scanned again behind a space. -/
lemma exists_pieces_eq {pre post : List Token}
    (h : Settled ((pre ++ t :: (post ++ ts)).map Token.piece)) (ht : Lasts t) (line : Nat) :
    ∃ more, pieces (some ' ') line (t.lexeme.toList ++ joined post) =
      { kind := .error, text := t.lexeme.toList, line } :: more := by
  rw [List.map_append, List.map_cons] at h
  rcases h _ t.piece _ rfl with hwhole | ⟨-, htorn, hnil⟩
  · have hstubborn : Stubborn t.lexeme.toList := by
      refine Whole.stubborn ?_ ht.2
      rw [← ht.1]
      exact hwhole
    obtain ⟨before, hpieces⟩ := hstubborn.pieces_append (apart_joined post) line
    exact ⟨_, hpieces⟩
  · obtain ⟨rfl, -⟩ := List.append_eq_nil_iff.1 (List.map_eq_nil_iff.1 hnil)
    refine ⟨[], ?_⟩
    rw [joined, List.flatMap_nil, List.append_nil]
    exact htorn.pieces_eq _ _

/-- **What goes back in front keeps the error**: the text `cs` is without quotes, and the lexemes
joined behind it are scanned again one by one. -/
lemma Lasting.goBack {post : List Token} {cs : List Char} (hcs : tame cs = true)
    (h : Lasting (post ++ ts)) (line : Nat) : Lasting (rescan line (cs ++ joined post) ++ ts) := by
  obtain ⟨hsettled, t, ht, hlasts⟩ := h
  constructor
  · by_cases hts : ts = []
    · rw [hts, List.append_nil]
      exact settled_rescan line _
    · have hwhole := whole_of_settled hsettled hts
      have hcomes : ComesTo (cs ++ joined post) [] := by
        refine (comesTo_of_tame hcs (apart_joined post)).trans ?_
        simpa using comesTo_joined hwhole apart_nil
      obtain ⟨ps, before, line', hps, hall⟩ := hcomes none 1
      rw [pieces, List.append_nil] at hps
      rw [List.map_append] at hsettled ⊢
      refine hsettled.right.append fun q hq => ?_
      obtain ⟨u, hu, rfl⟩ := List.mem_map.1 hq
      obtain ⟨p, hp, hkind, htext⟩ := exists_of_mem_rescan hu
      have hwhole := hall p (hps ▸ hp)
      rwa [hkind, htext] at hwhole
  · rcases List.mem_append.1 ht with ht | ht
    · obtain ⟨pre, more, rfl⟩ := List.append_of_mem ht
      rw [List.append_assoc, List.cons_append] at hsettled
      have hpre := whole_of_settled hsettled (by simp)
      have hcomes : ComesTo (cs ++ joined (pre ++ t :: more))
          (' ' :: (t.lexeme.toList ++ joined more)) := by
        rw [joined_append, joined_cons]
        exact (comesTo_of_tame hcs (apart_joined_append pre (apart_cons _))).trans
          (comesTo_joined hpre (apart_cons _))
      obtain ⟨ps, before, line', hps, -⟩ := hcomes none 1
      obtain ⟨qs, hqs⟩ := exists_pieces_eq hsettled hlasts line'
      have hmem : { kind := .error, text := t.lexeme.toList, line := line' } ∈
          pieces none 1 (cs ++ joined (pre ++ t :: more)) := by
        rw [hps, pieces_blank, hqs]
        exact List.mem_append_right ps List.mem_cons_self
      obtain ⟨u, hu, hkind, htext⟩ := exists_mem_rescan line hmem
      exact ⟨u, List.mem_append_left _ hu, hkind, by rw [htext]; exact hlasts.2⟩
    · exact ⟨t, List.mem_append_right _ ht, hlasts⟩

/-- Scanning lexemes that are spaced out gets to every malformed one among them. -/
lemma hasError_of_lasts {cs : List Char} (hcs : tame cs = true) {us : List Token}
    (hus : ∀ u ∈ us, Whole u.kind u.lexeme.toList) {w : Token} (hw : w ∈ us) (hlasts : Lasts w)
    {rest : List Char} (hrest : Apart (spaceOut rest)) :
    HasError (spaceOut (cs ++ (joined us ++ rest))) := by
  obtain ⟨before, after, rfl⟩ := List.append_of_mem hw
  obtain ⟨hkind, hdecimal⟩ := hlasts
  have hwerror : Whole .error w.lexeme.toList := hkind ▸ hus w hw
  have hbefore : ∀ u ∈ before, Whole u.kind u.lexeme.toList := fun u hu =>
    hus u (List.mem_append_left _ hu)
  rw [joined_append, joined_cons, List.append_assoc]
  refine hasError_spaceOut_append hcs hbefore (apart_cons _) ?_
  rw [List.cons_append, List.append_assoc, Brackets.spaceOut_cons (by decide),
    Brackets.spaceOut_append, Brackets.spaceOut_append]
  exact hwerror.hasError_spaceOut hdecimal (apart_spaceOut_joined after hrest)

/-- A lexeme that is cut behind a closing bracket without an error is not malformed, or a cut
number, and the cut is not between quotes. -/
lemma not_lasts_and_tame_of_cut {us vs : List Token} {u : Token}
    (hsettled : Settled ((us ++ u :: vs).map Token.piece)) {left right : List Char}
    (hlexeme : u.lexeme.toList = left ++ right) (hleft : left.getLast? = some ']')
    (hcut : ¬ HasError (spaceOut left)) : ¬ Lasts u ∧ tame right = true := by
  rw [List.map_append, List.map_cons] at hsettled
  rcases hsettled _ u.piece _ rfl with hu | ⟨-, hu, -⟩
  · have hu : Whole u.kind (left ++ right) := hlexeme ▸ hu
    refine ⟨fun hlasts => hcut ?_, (hu.tame_or_hasError hleft).resolve_right hcut⟩
    obtain ⟨hkind, hdecimal⟩ := hlasts
    rw [hkind] at hu
    exact hu.hasError_cut (hlexeme ▸ hdecimal) hleft
  · have hu : Torn (left ++ right) := hlexeme ▸ hu
    exact absurd (hu.hasError_cut hleft) hcut

/-- **Where the text of a word is cut**: if no error shows in the bracket groups, no malformed
lexeme other than a cut number has been pulled into them, and the cut is not between quotes.

**Proof sketch.** The groups end behind a closing bracket, in the word itself or in a lexeme that
was pulled in. All lexemes up to there are whole, so scanning the groups gets to each of them, and
to the first part of the lexeme that is cut. A malformed lexeme on the way shows as an error, and so
does the first part of a string or character literal. -/
lemma exists_rest {cs : List Char} (hcs : tame cs = true) {pulled : List Token}
    (hsettled : Settled ((pulled ++ ts).map Token.piece))
    (hgroups : ¬ HasError (spaceOut (Brackets.split (cs ++ joined pulled)).1)) :
    ∃ pre post ds, pulled = pre ++ post ∧
      (Brackets.split (cs ++ joined pulled)).2 = ds ++ joined post ∧ tame ds = true ∧
      ∀ u ∈ pre, ¬ Lasts u := by
  have happend := Brackets.split_append (cs ++ joined pulled)
  have hlast := Brackets.getLast?_split (cs ++ joined pulled)
  generalize (Brackets.split (cs ++ joined pulled)).1 = groups at *
  generalize (Brackets.split (cs ++ joined pulled)).2 = rest at *
  rcases List.append_eq_append_iff.1 happend with ⟨ds, rfl, rfl⟩ | ⟨excess, rfl, hjoined⟩
  · exact ⟨[], pulled, ds, rfl, rfl, (tame_append hcs).2, by simp⟩
  by_cases hexcess : excess = []
  · subst hexcess
    exact ⟨[], pulled, [], rfl, hjoined.symm, rfl, by simp⟩
  have hlast' : excess.getLast? = some ']' := by
    rcases hlast with hnil | hlast
    · exact absurd (List.append_eq_nil_iff.1 hnil).2 hexcess
    · rwa [List.getLast?_append_of_ne_nil _ hexcess] at hlast
  obtain ⟨pre, u, post, left, right, rfl, hlexeme, hleft, rfl, rfl⟩ :=
    exists_of_joined_eq_append hjoined hlast'
  have hwhole : ∀ w ∈ pre, Whole w.kind w.lexeme.toList := by
    rw [List.append_assoc] at hsettled
    exact whole_of_settled hsettled (by simp)
  have hcut : ¬ HasError (spaceOut left) := fun herror =>
    hgroups (hasError_spaceOut_append hcs hwhole (apart_cons _) ((comesTo_blank _).hasError herror))
  have hu : ¬ Lasts u ∧ tame right = true := by
    rw [List.append_assoc] at hsettled
    exact not_lasts_and_tame_of_cut hsettled hlexeme hleft hcut
  refine ⟨pre ++ [u], post, right, by simp, rfl, hu.2, ?_⟩
  intro w hw hlasts
  rcases List.mem_append.1 hw with hw | hw
  · exact hgroups (hasError_of_lasts hcs hwhole hw hlasts (apart_cons _))
  · obtain rfl := List.mem_singleton.1 hw
    exact hu.1 hlasts

/-- A word that is taken apart keeps a malformed lexeme other than a cut number, unless the error
shows in the bracket groups. -/
lemma Lasting.takeApart {pulled : List Token} (ht : t.isWord = true)
    (hgroups : ¬ HasError (spaceOut (Brackets.split (bracketed t ++ joined pulled)).1))
    (h : Lasting (t :: pulled ++ ts)) :
    Lasting (rescan t.line (Brackets.split (bracketed t ++ joined pulled)).2 ++ ts) := by
  have hne := Token.kind_ne_error_of_isWord ht
  rw [List.cons_append] at h
  have htame : tame (bracketed t) = true := by
    rcases h.settled [] t.piece _ rfl with hwhole | ⟨herror, -⟩
    · have hchars := (hwhole.of_word (kind_of_isWord ht)).2
      exact tame_of_class (fun c hc => hchars c ((bracketed_suffix t).subset hc)) (by decide)
    · exact absurd herror hne
  obtain ⟨hsettled, u, hu, hlasts⟩ := h.consume hne
  obtain ⟨pre, post, ds, rfl, hrest, hds, hpre⟩ := exists_rest htame hsettled hgroups
  rw [hrest]
  refine Lasting.goBack hds ⟨?_, u, ?_, hlasts⟩ t.line
  · rw [List.append_assoc, List.map_append] at hsettled
    exact hsettled.right
  · rw [List.append_assoc] at hu
    exact (List.mem_append.1 hu).resolve_left fun hu => hpre u hu hlasts

/-! ## No passage gets rid of them -/

/-- An error that stays in sight, or one that lasts. -/
def Doomed (ts : List Token) : Prop :=
  Exposed ts ∨ Lasting ts

lemma not_doomed_nil : ¬ Doomed [] :=
  fun h => h.elim not_exposed_nil not_lasting_nil

/-- **Errors survive every passage.**

**Proof sketch.** Induction on the passage. Tokens of kind `error` are not consumed, and a number or
an operator without its first character changes nothing. If a word is taken apart, an error that
stays in sight is not pulled in. An error that lasts goes back in front, unless it shows in the
bracket groups; there it stays in sight, so that by induction the groups are not gone through. -/
lemma Passage.doomed {ts us : List Token} (h : Passage ts us) (hd : Doomed ts) : Doomed us := by
  induction h with
  | refl => exact hd
  | consume ht _ ih => exact ih (hd.imp (·.consume ht) (·.consume ht))
  | behead ht _ ih => exact ih (hd.imp (·.behead ht) (·.behead ht))
  | takeApart ht hopen _ _ ihgroups ih =>
    refine ih (hd.imp (·.takeApart ht hopen) (·.takeApart ht fun herror => ?_))
    obtain ⟨p, hp, hkind⟩ := herror none 1
    exact not_doomed_nil (ihgroups (.inl (exposed_of_spaceOut hp hkind _)))

end Grammar

namespace Program

open Grammar

/-- **A lexical error is not parsed away**, with one exception. If among the tokens from the first
keyword `public` on there is one of kind `error`, and it is no number cut before its second point,
or no word between the keyword and it leaves a bracket open, the text is not parsed as a program. -/
theorem error_of_lexical_error (source : String) {before after : List Token} {t : Token}
    (htokens : fromPublic (tokenize source) = before ++ t :: after) (herror : t.kind = .error)
    (hkept : t.isCutNumber = false ∨ ∀ w ∈ before, w.leavesOpen = false) :
    ∃ e, Program.ofText source = .error e := by
  have hsettled : Settled ((fromPublic (tokenize source)).map Token.piece) := by
    have hall : Settled ((tokenize source).map Token.piece) := by
      rw [map_piece_tokenize]
      exact settled_pieces none 1 _
    have hsplit := List.takeWhile_append_dropWhile (p := fun t => !t.isKeyword "public")
      (l := tokenize source)
    rw [← hsplit, List.map_append] at hall
    exact hall.right
  have hdoomed : Doomed (fromPublic (tokenize source)) := by
    rcases hkept with hcut | hopen
    · refine .inr ⟨hsettled, t, by simp [htokens], herror, ?_⟩
      simpa [Token.isCutNumber, herror] using hcut
    · refine .inl ⟨before, t, after, htokens, herror, fun w hw hword => ⟨?_, hopen w hw⟩⟩
      rw [htokens] at hsettled
      have hwhole := whole_of_settled hsettled (by simp) w hw
      exact (hwhole.of_word (kind_of_isWord hword)).2
  cases hparse : Program.ofText source with
  | error e => exact ⟨e, rfl⟩
  | ok program =>
    exact absurd ((passage_of_ofTokens_eq_ok hparse).doomed hdoomed) not_doomed_nil

theorem error_of_lexical_error_in_index :
    ∃ before t after, fromPublic (tokenize "x # public class A \x7b int f = a[ 1e ]; \x7d") =
        before ++ t :: after ∧ t.spelling = (.error, "1e") ∧
      ∃ e, Program.ofText "x # public class A \x7b int f = a[ 1e ]; \x7d" = .error e := by
  have htokens : fromPublic (tokenize "x # public class A \x7b int f = a[ 1e ]; \x7d") =
      (fromPublic (tokenize "x # public class A \x7b int f = a[ 1e ]; \x7d")).take 8 ++
        ⟨.error, "1e", 1, 11⟩ ::
          (fromPublic (tokenize "x # public class A \x7b int f = a[ 1e ]; \x7d")).drop 9 := by
    decide +kernel
  exact ⟨_, _, _, htokens, rfl, error_of_lexical_error _ htokens rfl (.inl (by decide +kernel))⟩

/-- A number cut before its second point is an error, yet pulled into an index it is a number. -/
theorem cut_number_parsed_away :
    (∃ t ∈ fromPublic (tokenize "public class A \x7b double f = a[ 1.2.x]; \x7d"),
        t.kind = .error) ∧
      (Program.ofText "public class A \x7b double f = a[ 1.2.x]; \x7d").isOk = true := by
  decide +kernel

end Program

end ClassLang
