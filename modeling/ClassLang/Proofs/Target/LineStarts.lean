import ClassLang.Proofs.Grammar.DeclRoundTrip
import ClassLang.Proofs.Grammar.ProgramLeaves
import ClassLang.Proofs.Target.RenderedSites
import ClassLang.Proofs.Token.LexemeShapes
import ClassLang.Syntax.Outline

set_option autoImplicit false

/-!
# How lines of generated code start

Branches, loops and switches open with a line that starts with a head, which is a keyword, a space
and a bracket. Names, types and literals do not start with one. A name may be a keyword though, so
what follows it has to be looked at: neither a letter, nor a space and the rest of a head.

## Main definitions

* `ClassLang.Target.headKind?` — the kind of statement that a line opens.
* `ClassLang.Target.Clear` — texts that start with no head, whatever follows.
* `ClassLang.Target.Headless` — texts that start with no head, before what may follow them.
* `ClassLang.Target.Emit.Gives` — what holds of the result of a computation.
* `ClassLang.Leaves.shapely`, `ClassLang.Leaves.unbroken` — names without spaces and literals of
  their shapes; literals on one line.

## Main results

* `ClassLang.Target.headless_of_blankless` — names start with no head.
* `ClassLang.Target.gives_typeText`, `ClassLang.Target.gives_literalText` — nor do types and
  literals.
* `ClassLang.Leaves.lawful_shapely` — names and literals keep their shapes in parsing.
-/

namespace ClassLang

namespace Target

/-! ## Heads -/

/-- The heads of lines, each with the kind of statement that it opens. -/
def heads : List (String × NodeKind) :=
  [("if (", .ifStmt), ("else if (", .ifStmt), ("while (", .whileStmt), ("do \x7b", .doWhileStmt),
    ("for (", .forStmt), ("switch (", .switchStmt)]

/-- The kind of statement that a line opens. -/
def headKind? (line : List Char) : Option NodeKind :=
  (heads.find? fun h => h.1.toList.isPrefixOf line).map Prod.snd

lemma headKind?_eq_none {line : List Char} (h : ∀ head ∈ heads, ¬ head.1.toList <+: line) :
    headKind? line = none := by
  rw [headKind?, Option.map_eq_none_iff, List.find?_eq_none]
  intro head hmem hprefix
  exact h head hmem (List.isPrefixOf_iff_prefix.1 hprefix)

/-- What follows a text decides that the text is not the start of a head: neither a letter, nor a
space with the rest of a head behind it. -/
def decisive : List Char → Bool
  | [] => false
  | c :: cs =>
    if c = ' ' then cs.head?.any fun d => d ≠ '(' && d ≠ '\x7b' && d ≠ 'i' else !c.isAlpha

lemma decisive_append {t : List Char} (h : decisive t = true) (u : List Char) :
    decisive (t ++ u) = true := by
  cases t with
  | nil => cases h
  | cons c t =>
    cases t with
    | nil =>
      by_cases hc : c = ' '
      · simp [decisive, hc] at h
      · simpa [decisive, hc] using h
    | cons d t => exact h

/-- There is no line feed in the text. -/
abbrev OneLine (s : String) : Prop :=
  '\n' ∉ s.toList

/-- Texts that start with no head, whatever follows. -/
structure Clear (s : String) : Prop where
  oneLine : OneLine s
  start : ∃ c cs, s.toList = c :: cs ∧ c ≠ ' '
  noHead : ∀ t, headKind? (s.toList ++ t) = none

/-- Texts that start with no head, whether they stand alone or something decisive follows. -/
structure Headless (s : String) : Prop where
  oneLine : OneLine s
  start : ∃ c cs, s.toList = c :: cs ∧ c ≠ ' '
  noHead : ∀ t, t = [] ∨ decisive t = true → headKind? (s.toList ++ t) = none

variable {s t : String}

lemma Clear.headless (h : Clear s) : Headless s :=
  ⟨h.oneLine, h.start, fun t _ => h.noHead t⟩

@[simp]
lemma oneLine_append_iff : OneLine (s ++ t) ↔ OneLine s ∧ OneLine t := by
  rw [OneLine, String.toList_append, List.mem_append, not_or]

lemma start_append (h : ∃ c cs, s.toList = c :: cs ∧ c ≠ ' ') (t : String) :
    ∃ c cs, (s ++ t).toList = c :: cs ∧ c ≠ ' ' := by
  obtain ⟨c, cs, hs, hc⟩ := h
  exact ⟨c, cs ++ t.toList, by rw [String.toList_append, hs, List.cons_append], hc⟩

lemma Clear.append (hs : Clear s) (ht : OneLine t) : Clear (s ++ t) where
  oneLine := oneLine_append_iff.2 ⟨hs.oneLine, ht⟩
  start := start_append hs.start t
  noHead u := by
    rw [String.toList_append, List.append_assoc]
    exact hs.noHead _

/-- A text is clear once something decisive follows. -/
lemma Headless.append (hs : Headless s) (ht : OneLine t)
    (hdecisive : decisive t.toList = true) : Clear (s ++ t) where
  oneLine := oneLine_append_iff.2 ⟨hs.oneLine, ht⟩
  start := start_append hs.start t
  noHead u := by
    rw [String.toList_append, List.append_assoc]
    exact hs.noHead _ (.inr (decisive_append hdecisive u))

/-- Whether a text is on one line, starts with no space, and differs from every head within the text
and the head. -/
def isClear (s : String) : Bool :=
  !s.toList.contains '\n' && s.toList.head?.any (· ≠ ' ') &&
    heads.all fun head => !head.1.toList.isPrefixOf s.toList && !s.toList.isPrefixOf head.1.toList

lemma clear_of_isClear (h : isClear s = true) : Clear s := by
  simp only [isClear, Bool.and_eq_true, Bool.not_eq_true', ← Bool.not_eq_true, List.all_eq_true,
    List.isPrefixOf_iff_prefix, List.contains_iff_mem] at h
  obtain ⟨⟨hone, hstart⟩, hclash⟩ := h
  refine ⟨hone, ?_, fun t => headKind?_eq_none fun head hmem hprefix => ?_⟩
  · obtain ⟨c, hc, hne⟩ := (Option.any_eq_true _ _).1 hstart
    obtain ⟨cs, hcs⟩ := List.head?_eq_some_iff.1 hc
    exact ⟨c, cs, hcs, by simpa using hne⟩
  · exact (List.prefix_or_prefix_of_prefix hprefix (List.prefix_append _ t)).elim
      (hclash head hmem).1 (hclash head hmem).2

/-- The characters that may start a head or indentation. -/
def isInitial (c : Char) : Bool :=
  c = ' ' || c = 'i' || c = 'e' || c = 'w' || c = 'd' || c = 'f' || c = 's'

lemma clear_of_head {c : Char} {cs : List Char} (hs : s.toList = c :: cs)
    (hc : isInitial c = false) (hone : OneLine s) : Clear s := by
  refine ⟨hone, ⟨c, cs, hs, ?_⟩, fun t => headKind?_eq_none fun head hmem hprefix => ?_⟩
  · rintro rfl
    cases hc
  · have hinitial : ∀ head ∈ heads, head.1.toList.head?.any isInitial = true := by decide
    have hhead := hinitial head hmem
    rw [hs] at hprefix
    cases hchars : head.1.toList with
    | nil => simp [hchars] at hhead
    | cons d ds =>
      rw [hchars] at hprefix hhead
      obtain ⟨rfl, -⟩ := List.cons_prefix_cons.1 hprefix
      cases hc.symm.trans hhead

/-- Every head is a word, and behind it a space and a character that decides nothing. -/
lemma exists_of_mem_heads {head : String × NodeKind} (h : head ∈ heads) :
    ∃ w d rest, head.1.toList = w ++ ' ' :: d :: rest ∧ (∀ c ∈ w, c.isAlpha = true) ∧
      (d = '(' ∨ d = '\x7b' ∨ d = 'i') := by
  simp only [heads, List.mem_cons, List.not_mem_nil, or_false] at h
  rcases h with rfl | rfl | rfl | rfl | rfl | rfl
  · exact ⟨"if".toList, '(', [], rfl, List.all_eq_true.1 rfl, .inl rfl⟩
  · exact ⟨"else".toList, 'i', "f (".toList, rfl, List.all_eq_true.1 rfl, .inr (.inr rfl)⟩
  · exact ⟨"while".toList, '(', [], rfl, List.all_eq_true.1 rfl, .inl rfl⟩
  · exact ⟨"do".toList, '\x7b', [], rfl, List.all_eq_true.1 rfl, .inr (.inl rfl)⟩
  · exact ⟨"for".toList, '(', [], rfl, List.all_eq_true.1 rfl, .inl rfl⟩
  · exact ⟨"switch".toList, '(', [], rfl, List.all_eq_true.1 rfl, .inl rfl⟩

/-- A text without spaces is not the start of a word and a space, unless what follows lets it be. -/
lemma not_prefix_of_blankless {w : List Char} {d : Char} {rest : List Char}
    (hw : ∀ c ∈ w, c.isAlpha = true) (hd : d = '(' ∨ d = '\x7b' ∨ d = 'i') {cs t : List Char}
    (hcs : ' ' ∉ cs) (ht : t = [] ∨ decisive t = true) :
    ¬ w ++ ' ' :: d :: rest <+: cs ++ t := by
  induction cs generalizing w with
  | nil =>
    rintro ⟨more, hmore⟩
    rw [List.nil_append] at hmore
    rcases ht with rfl | ht
    · simp at hmore
    · cases w with
      | nil =>
        rw [← hmore] at ht
        rcases hd with rfl | rfl | rfl <;> cases ht
      | cons a w =>
        obtain ⟨ha, -⟩ := List.forall_mem_cons.1 hw
        have hne : a ≠ ' ' := by rintro rfl; cases ha
        rw [← hmore] at ht
        simp [decisive, hne, ha] at ht
  | cons c cs ih =>
    rw [List.mem_cons, not_or] at hcs
    cases w with
    | nil => exact fun h => hcs.1 (List.cons_prefix_cons.1 h).1
    | cons a w =>
      exact fun h => ih (List.forall_mem_cons.1 hw).2 hcs.2 (List.cons_prefix_cons.1 h).2

/-- **A text without spaces starts with no head.** -/
lemma headless_of_blankless (hne : s ≠ "") (hblank : ' ' ∉ s.toList) (hone : OneLine s) :
    Headless s where
  oneLine := hone
  start := by
    obtain ⟨c, cs, hs⟩ := List.exists_cons_of_ne_nil (mt String.toList_eq_nil_iff.1 hne)
    refine ⟨c, cs, hs, ?_⟩
    rintro rfl
    exact hblank (hs ▸ List.mem_cons_self)
  noHead t ht := by
    refine headKind?_eq_none fun head hmem => ?_
    obtain ⟨w, d, rest, heq, hw, hd⟩ := exists_of_mem_heads hmem
    rw [heq]
    exact not_prefix_of_blankless hw hd hblank ht

/-! ## Results of computations -/

section Results

variable {α β : Type} {p q : Emit α} {f : α → Emit β} {Q : α → Prop} {R : β → Prop}

/-- Whatever is needed before, the result of the computation has the property `Q` if there is
one. -/
def Emit.Gives (p : Emit α) (Q : α → Prop) : Prop :=
  ∀ ⦃needs x needs'⦄, p.runFrom needs = (.ok x, needs') → Q x

open Emit (Gives)

lemma Emit.Gives.bind (hp : Gives p Q) (hf : ∀ x, Q x → Gives (f x) R) : Gives (p >>= f) R := by
  intro needs y needs' hrun
  obtain ⟨x, between, hfirst, hrest⟩ := Emit.exists_of_runFrom_bind hrun
  exact hf x (hp hfirst) hrest

lemma Emit.Gives.mono {Q' : α → Prop} (hp : Gives p Q) (h : ∀ x, Q x → Q' x) : Gives p Q' :=
  fun _ _ _ hrun => h _ (hp hrun)

lemma Emit.gives_pure {x : α} (h : Q x) : Gives (pure x) Q := by
  intro needs y needs' hrun
  obtain rfl := Except.ok.inj (Prod.mk.inj hrun).1
  exact h

lemma Emit.gives_throw (e : Unsupported) : Gives (throw e) Q :=
  fun _ _ _ hrun => nomatch (Prod.mk.inj hrun).1

lemma Emit.gives_trivial (p : Emit α) : Gives p fun _ => True :=
  fun _ _ _ _ => trivial

lemma Emit.Gives.map {g : α → β} (hp : Gives p Q) (h : ∀ x, Q x → R (g x)) :
    Gives (g <$> p) R := by
  rw [← bind_pure_comp]
  exact hp.bind fun x hx => gives_pure (h x hx)

lemma Emit.Gives.ite {c : Prop} [Decidable c] (hp : c → Gives p Q) (hq : ¬ c → Gives q Q) :
    Gives (if c then p else q) Q := by
  split
  next h => exact hp h
  next h => exact hq h

end Results

open Emit (Gives gives_pure gives_throw gives_trivial)

/-! ## Types -/

lemma oneLine_intercalate {sep : String} (hsep : OneLine sep) {texts : List String}
    (h : ∀ text ∈ texts, OneLine text) : OneLine (sep.intercalate texts) := by
  induction texts with
  | nil => simp [OneLine]
  | cons first rest ih =>
    obtain ⟨hfirst, hrest⟩ := List.forall_mem_cons.1 h
    cases rest with
    | nil => simpa [OneLine] using hfirst
    | cons second rest =>
      rw [String.intercalate_cons_cons, oneLine_append_iff, oneLine_append_iff]
      exact ⟨⟨hfirst, hsep⟩, ih hrest⟩

lemma oneLine_join {texts : List String} (h : ∀ text ∈ texts, OneLine text) :
    OneLine (String.join texts) := by
  induction texts with
  | nil => decide
  | cons first rest ih =>
    obtain ⟨hfirst, hrest⟩ := List.forall_mem_cons.1 h
    rw [String.join_cons, oneLine_append_iff]
    exact ⟨hfirst, ih hrest⟩

lemma clear_templateText {template : String} (h : Clear template) {args : List String}
    (hargs : ∀ arg ∈ args, OneLine arg) : Clear (templateText template args) := by
  have hlist : OneLine (", ".intercalate args) := oneLine_intercalate (by decide) hargs
  exact ((h.append (by decide)).append hlist).append (by decide)

lemma clear_vectorText {element : String} (h : Clear element) :
    ∀ dimensions, Clear (vectorText element dimensions)
  | 0 => h
  | dimensions + 1 => by
    refine clear_templateText (clear_of_isClear (by decide)) ?_
    rintro _ (_ | ⟨_, ⟨⟩⟩)
    exact (clear_vectorText h dimensions).oneLine

lemma clear_primitiveText? {name text : String} (h : primitiveText? name = some text) :
    Clear text := by
  unfold primitiveText? at h
  split at h
  case h_8 => cases h
  all_goals
    obtain rfl := Option.some.inj h
    exact clear_of_isClear (by decide)

lemma clear_of_container? {name : String} {c : Container} (h : container? name = some c) :
    Clear c.template := by
  unfold container? at h
  split at h
  · obtain rfl := Option.some.inj h
    exact clear_of_isClear (by decide)
  · obtain rfl := Option.some.inj h
    exact clear_of_isClear (by decide)
  · cases h

mutual

/-- The texts of types are clear. -/
theorem gives_typeText : (type : TypeExpr) → Gives (typeText type) Clear
  | .mk name args dimensions => by
    have hvector : ∀ element, Clear element → Gives (do
        if dimensions > 0 then Emit.need .vector
        return vectorText element dimensions) Clear := by
      intro element helement
      have hpure : Gives (pure (vectorText element dimensions)) Clear :=
        gives_pure (clear_vectorText helement dimensions)
      exact .ite (fun _ => (gives_trivial _).bind fun _ _ => hpure) fun _ => hpure
    rw [typeText]
    cases htext : primitiveText? name with
    | some text =>
      have hdone : Gives (do
          let element ← pure text
          if dimensions > 0 then Emit.need .vector
          return vectorText element dimensions) Clear :=
        (gives_pure (clear_primitiveText? htext)).bind hvector
      exact .ite (fun _ => (gives_trivial _).bind fun _ _ => hdone) fun _ => hdone
    | none =>
      cases hcontainer : container? name with
      | none => exact (gives_throw (Q := fun _ => False) _).bind fun _ h => h.elim
      | some container =>
        refine .ite (fun _ => ?_) fun _ => ?_
        · exact (gives_throw (Q := fun _ => False) _).bind fun _ h => h.elim
        refine (gives_trivial _).bind fun _ _ => (gives_typeTexts args).bind fun texts htexts => ?_
        exact (gives_pure (clear_templateText (clear_of_container? hcontainer) htexts)).bind hvector

theorem gives_typeTexts : (types : List TypeExpr) →
    Gives (typeTexts types) fun texts => ∀ text ∈ texts, OneLine text
  | [] => gives_pure (List.forall_mem_nil _)
  | type :: types => by
    rw [typeTexts]
    refine (gives_typeText type).bind fun text htext => ?_
    exact (gives_typeTexts types).bind fun texts htexts =>
      gives_pure (List.forall_mem_cons.2 ⟨htext.oneLine, htexts⟩)

end

end Target

/-! ## Names and literals -/

namespace Leaves

/-- Names without spaces and line feeds, declared names without line feeds, and literals of the
shape of their kind. -/
def shapely : Leaves where
  token := Token.Shaped
  name s := s ≠ "" ∧ ' ' ∉ s.toList ∧ Target.OneLine s
  declared s := Target.OneLine s
  literal l := Scan.Shaped l.value.kind l.text.toList
  line _ := True

/-- No line feed in string and character literals. -/
def unbroken : Leaves where
  token _ := True
  name _ := True
  declared _ := True
  literal l := l.value.kind = .charLiteral ∨ l.value.kind = .stringLiteral → Target.OneLine l.text
  line _ := True

lemma lawful_shapely : shapely.Lawful where
  line _ := trivial
  name {t} ht hword := by
    obtain ⟨⟨c, cs, hlexeme, -⟩, hchars⟩ := Token.continuesWord_of_shaped ht hword
    refine ⟨?_, Scan.not_mem_of_continuesWord hchars⟩
    intro hempty
    simp [hempty] at hlexeme
  beforeBracket {t} ht hword := by
    obtain ⟨⟨c, cs, hlexeme, hc⟩, hchars⟩ := Token.continuesWord_of_shaped ht hword
    have hne : c ≠ '[' := by
      rintro rfl
      cases hc
    refine ⟨by simp [hlexeme, hne], ?_⟩
    rw [Target.OneLine, String.toList_ofList]
    exact Scan.not_mem_of_continuesWord fun c hc => hchars c (List.takeWhile_subset _ hc)
  declared {t} ht hkind := by
    obtain ⟨-, hchars⟩ := Token.continuesWord_of_shaped ht (by simp [Token.isWord, hkind])
    refine fun hmem => (Scan.not_mem_of_continuesWord hchars).2 ?_
    rw [Word.eq_append_brackets t.lexeme, String.toList_append]
    exact List.mem_append_left _ hmem
  literal {t value} ht hkind := by
    change Scan.Shaped value.kind t.lexeme.toList
    exact hkind ▸ ht
  behead ht hkind := ht.behead hkind
  rescan _ _ hu := Token.shaped_of_mem_rescan hu

end Leaves

namespace Target

open Emit (Gives gives_pure gives_throw gives_trivial)

lemma exists_of_numeral {text : List Char} (h : Scan.Numeral text) :
    ∃ c cs, text = c :: cs ∧ Scan.isDecimal c = true := by
  rcases h.2 with ⟨c, cs, rfl, hc⟩ | ⟨c, cs, rfl, hc, -⟩
  · exact ⟨c, cs, rfl, by rcases hc with hc | rfl <;> simp_all [Scan.isDecimal]⟩
  · exact ⟨c, cs, rfl, by rcases hc with rfl | rfl <;> decide⟩

/-- A character that stands in a number at most behind its digits is not the first one. -/
lemma ne_of_isDecimal {c d : Char} (h : Scan.isDecimal c = true)
    (hd : Scan.isDecimal d = false) : c ≠ d := by
  rintro rfl
  cases h.symm.trans hd

lemma isInitial_eq_false_of_isDecimal {c : Char} (h : Scan.isDecimal c = true) :
    isInitial c = false := by
  simp only [isInitial, Bool.or_eq_false_iff, decide_eq_false_iff_not]
  and_intros <;> exact ne_of_isDecimal h (by decide)

lemma dropEndWhile_cons {p : Char → Bool} {c : Char} (hc : p c = false) (cs : List Char) :
    Text.dropEndWhile p (c :: cs) = c :: Text.dropEndWhile p cs := by
  simp only [Text.dropEndWhile, List.reverse_cons, List.dropWhile_append, List.dropWhile_cons, hc,
    Bool.false_eq_true, if_false]
  split
  next hempty => simp [List.isEmpty_iff.1 hempty]
  next => simp

/-- Digits that have lost letters at their end are clear with or without a point. -/
lemma clear_withPoint {text : List Char} (h : Scan.Numeral text) {p : Char → Bool}
    (hp : ∀ c, Scan.isDecimal c = true → p c = false) :
    Clear (withPoint (Text.dropEndWhile p text)) := by
  obtain ⟨c, cs, rfl, hc⟩ := exists_of_numeral h
  have hfeed : '\n' ∉ Text.dropEndWhile p (c :: cs) := by
    intro hmem
    have hmem := (List.dropWhile_suffix p).subset (List.mem_reverse.1 hmem)
    exact h.1 (List.mem_reverse.1 hmem)
  have hdigits : Clear (String.ofList (Text.dropEndWhile p (c :: cs))) :=
    clear_of_head (by rw [String.toList_ofList, dropEndWhile_cons (hp c hc)])
      (isInitial_eq_false_of_isDecimal hc) (by rwa [OneLine, String.toList_ofList])
  simp only [withPoint]
  split
  · exact hdigits
  · exact hdigits.append (by decide)

lemma gives_literalText {l : Literal} (hshape : Scan.Shaped l.value.kind l.text.toList)
    (hone : l.value.kind = .charLiteral ∨ l.value.kind = .stringLiteral → OneLine l.text) :
    Gives (literalText l) Clear := by
  obtain ⟨value, text⟩ := l
  cases value with
  | int n =>
    obtain ⟨c, cs, hcs, hc⟩ := exists_of_numeral (show Scan.Numeral text.toList from hshape)
    exact gives_pure (clear_of_head hcs (isInitial_eq_false_of_isDecimal hc) hshape.1)
  | float x =>
    refine gives_pure (Clear.append (clear_withPoint hshape fun c hc => ?_) (by decide))
    simp [ne_of_isDecimal hc (d := 'f') (by decide), ne_of_isDecimal hc (d := 'F') (by decide)]
  | double x =>
    refine gives_pure (clear_withPoint hshape fun c hc => ?_)
    simp [ne_of_isDecimal hc (d := 'd') (by decide), ne_of_isDecimal hc (d := 'D') (by decide)]
  | boolean b =>
    refine gives_pure ?_
    cases b with
    | true => exact clear_of_isClear (by decide)
    | false => exact clear_of_isClear (by decide)
  | char c =>
    obtain ⟨cs, hcs⟩ := List.head?_eq_some_iff.1 (show text.toList.head? = some '\'' from hshape)
    exact gives_pure (clear_of_head hcs (by decide) (hone (.inl rfl)))
  | string c =>
    obtain ⟨cs, hcs⟩ := List.head?_eq_some_iff.1 (show text.toList.head? = some '"' from hshape)
    exact gives_pure (clear_of_head hcs (by decide) (hone (.inr rfl)))
  | null => exact gives_throw _

end Target

end ClassLang
