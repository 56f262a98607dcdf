import ClassLang.Proofs.Grammar.LexicalErrors

set_option autoImplicit false

/-!
# What lexemes start with

The kind of a token says what its lexeme starts with: a word starts with a letter or an underscore,
a number with a digit or a point, which may have a sign in front, and a literal with its quotation
mark. The literal of a character also ends with its mark. This holds of the tokens of every text, so of those that a parser scans anew too, and a number
that loses its sign keeps the shape of a number.

## Main definitions

* `ClassLang.Scan.Numeral` — the shape of numbers.
* `ClassLang.Scan.Shaped` — the shape of the lexemes of a kind.

## Main results

* `ClassLang.Scan.shaped_step` — what a step takes has the shape of its kind.
* `ClassLang.Token.shaped_of_mem_tokenize`, `ClassLang.Token.shaped_of_mem_rescan` — so have the
  tokens of a text.
* `ClassLang.Token.Shaped.behead` — a number without its sign is a number.
* `ClassLang.Token.quoted_of_mem_tokenize`, `ClassLang.Token.quoted_of_mem_rescan` — literals of
  characters stand between marks.
-/

namespace ClassLang

namespace Scan

/-- A digit or a point stands first. -/
def StartsDigits (text : List Char) : Prop :=
  ∃ c rest, text = c :: rest ∧ (c.isDigit = true ∨ c = '.')

/-- Digits or a point stand first, or a sign in front of them, and there is no line feed. -/
def Numeral (text : List Char) : Prop :=
  '\n' ∉ text ∧
    (StartsDigits text ∨ ∃ c rest, text = c :: rest ∧ (c = '+' ∨ c = '-') ∧ StartsDigits rest)

/-- The shape of lexemes of a kind. -/
def Shaped : Kind → List Char → Prop
  | .keyword, text | .identifier, text =>
    (∃ c rest, text = c :: rest ∧ startsWord c = true) ∧ ∀ c ∈ text, continuesWord c = true
  | .number, text | .floatNumber, text => Numeral text
  | .stringLiteral, text => text.head? = some '"'
  | .charLiteral, text => text.head? = some '\''
  | .operator, _ | .error, _ | .unknown, _ => True

lemma shaped_iff_numeral {kind : Kind} {text : List Char}
    (h : kind = .number ∨ kind = .floatNumber) : Shaped kind text ↔ Numeral text := by
  rcases h with rfl | rfl <;> rfl

lemma startsDigits_number {cs : List Char} (h : startsNumber cs = true) :
    StartsDigits (number cs).text := by
  obtain ⟨c, rest, htext⟩ := List.exists_cons_of_ne_nil (number_text_ne_nil h)
  have happend := number_text_append_rest cs
  rw [htext] at happend
  refine ⟨c, rest, htext, ?_⟩
  rw [← happend] at h
  simp only [List.cons_append, startsNumber, Bool.or_eq_true, Bool.and_eq_true,
    decide_eq_true_eq] at h
  exact h.imp_right And.left

/-- A numeral has the shape of every kind that a number can turn out to be. -/
lemma Numeral.shaped {cs text : List Char} (htext : Numeral text) :
    ∀ kind ∈ (number cs).kind, Shaped kind text := by
  intro kind hkind
  cases numberTaken_number cs with
  | number hnumber =>
    simp only [show (number cs).kind = some kind from hkind, Option.some.injEq] at hnumber
    exact (shaped_iff_numeral hnumber).2 htext
  | cut herror | exponent herror =>
    obtain rfl := Option.some.inj (herror.symm.trans hkind)
    trivial

lemma shaped_word {c : Char} (hc : startsWord c = true) (cs : List Char) :
    ∀ kind ∈ (word (c :: cs)).kind, Shaped kind (word (c :: cs)).text := by
  have hshape : (∃ d rest, (word (c :: cs)).text = d :: rest ∧ startsWord d = true) ∧
      ∀ d ∈ (word (c :: cs)).text, continuesWord d = true :=
    ⟨⟨c, _, List.takeWhile_cons_of_pos (continuesWord_of_startsWord hc), hc⟩,
      fun d => List.mem_takeWhile_imp⟩
  simp only [word]
  split
  · rintro _ ⟨⟩
    exact hshape
  · rintro _ ⟨⟩
    exact hshape

lemma shaped_charLiteral (cs : List Char) :
    ∀ kind ∈ (charLiteral cs).kind, Shaped kind (charLiteral cs).text := by
  have hclose : ∀ body rest, ∀ kind ∈ (closeChar ('\'' :: body) rest).kind,
      Shaped kind (closeChar ('\'' :: body) rest).text := by
    intro body rest
    unfold closeChar
    split
    · rintro _ ⟨⟩
      rfl
    · rintro _ ⟨⟩
      trivial
  unfold charLiteral
  split
  all_goals exact hclose _ _

lemma shaped_stringLiteral (cs : List Char) :
    ∀ kind ∈ (stringLiteral cs).kind, Shaped kind (stringLiteral cs).text := by
  intro kind hkind
  simp only [stringLiteral, Option.mem_some_iff] at hkind
  split at hkind
  · subst hkind
    rfl
  · subst hkind
    trivial

/-- **What a step takes has the shape of its kind.** -/
lemma shaped_step (before : Option Char) (c : Char) (cs : List Char) :
    ∀ kind ∈ (step before c cs).kind, Shaped kind (step before c cs).text := by
  rw [step]
  by_cases hblank : Text.isBlank c = true
  · rw [if_pos hblank]
    rintro _ ⟨⟩
  rw [if_neg hblank]
  by_cases hword : startsWord c = true
  · rw [if_pos hword]
    exact shaped_word hword cs
  rw [if_neg hword]
  by_cases hnumber : startsNumber (c :: cs) = true
  · rw [if_pos hnumber]
    exact Numeral.shaped ⟨(oneLine_number _).text, .inl (startsDigits_number hnumber)⟩
  rw [if_neg hnumber]
  by_cases hstring : c = '"'
  · rw [if_pos hstring]
    exact shaped_stringLiteral cs
  rw [if_neg hstring]
  by_cases hchar : c = '\''
  · rw [if_pos hchar]
    exact shaped_charLiteral cs
  rw [if_neg hchar]
  split
  · rintro _ ⟨⟩
  split
  · rintro _ ⟨⟩
  split
  next hsign =>
    simp only [Bool.and_eq_true, Bool.or_eq_true, decide_eq_true_eq] at hsign
    obtain ⟨⟨hc, -⟩, hnumber⟩ := hsign
    have hfeed : c ≠ '\n' := by rcases hc with rfl | rfl <;> decide
    exact Numeral.shaped
      ⟨(oneLine_signedNumber hfeed cs).text, .inr ⟨c, _, rfl, hc, startsDigits_number hnumber⟩⟩
  split
  · rintro _ ⟨⟩
    trivial
  · rintro _ ⟨⟩
    trivial

lemma shaped_of_mem_pieces {before : Option Char} {line : Nat} {cs : List Char} {p : Piece}
    (hp : p ∈ pieces before line cs) : Shaped p.kind p.text := by
  fun_induction pieces before line cs with
  | case1 => cases hp
  | case2 before line c cs s more kind hkind ih =>
    rcases List.mem_cons.1 hp with rfl | hp
    · exact shaped_step before c cs kind hkind
    · exact ih hp
  | case3 before line c cs s more hkind ih => exact ih hp

/-- The literal of a character stands between quotation marks. -/
lemma exists_of_mem_pieces {before : Option Char} {line : Nat} {cs : List Char} {p : Piece}
    (hp : p ∈ pieces before line cs) (hkind : p.kind = .charLiteral) :
    ∃ u, p.text = '\'' :: (u ++ ['\'']) := by
  obtain ⟨pre, post, hsplit⟩ := List.append_of_mem hp
  rcases settled_pieces before line cs pre p post hsplit with hwhole | ⟨herror, -⟩
  · rw [hkind] at hwhole
    generalize p.text = text at hwhole
    cases hwhole with
    | word hword => simp at hword
    | plain hplain => simp at hplain
    | char hu => exact ⟨_, rfl⟩
  · simp [hkind] at herror

/-- A text of characters of words is on one line and has no spaces. -/
lemma not_mem_of_continuesWord {cs : List Char} (h : ∀ c ∈ cs, continuesWord c = true) :
    ' ' ∉ cs ∧ '\n' ∉ cs :=
  ⟨fun hmem => absurd (h _ hmem) (by decide), fun hmem => absurd (h _ hmem) (by decide)⟩

end Scan

/-! ## Tokens -/

namespace Token

/-- The lexeme of the token has the shape of its kind. -/
def Shaped (t : Token) : Prop :=
  Scan.Shaped t.kind t.lexeme.toList

lemma shaped_of_mem_tokenize {source : String} {t : Token} (h : t ∈ tokenize source) :
    t.Shaped := by
  have hpiece : t.piece ∈ Scan.pieces none 1 source.toList := by
    rw [← Grammar.map_piece_tokenize]
    exact List.mem_map_of_mem h
  exact Scan.shaped_of_mem_pieces hpiece

lemma shaped_of_mem_rescan {line : Nat} {cs : List Char} {t : Token}
    (h : t ∈ Grammar.rescan line cs) : t.Shaped := by
  obtain ⟨p, hp, hkind, htext⟩ := Grammar.exists_of_mem_rescan h
  rw [Shaped, ← hkind, ← htext]
  exact Scan.shaped_of_mem_pieces hp

/-- A token with a sign to split off is a number that starts with it. -/
lemma exists_of_signOp? {t : Token} (h : (Grammar.signOp? t).isSome = true) :
    (t.kind = .number ∨ t.kind = .floatNumber) ∧
      ∃ c rest, t.lexeme.toList = c :: rest ∧ (c = '+' ∨ c = '-') := by
  unfold Grammar.signOp? at h
  split at h
  next hkind =>
    refine ⟨by simpa using hkind, ?_⟩
    split at h
    next rest hplus => exact ⟨'+', rest, hplus, .inl rfl⟩
    next rest hminus => exact ⟨'-', rest, hminus, .inr rfl⟩
    next => cases h
  next => cases h

/-- A number that loses its sign has the shape of a number, and an operator may have any. -/
lemma Shaped.behead {t : Token} (ht : t.Shaped)
    (hkind : t.kind = .operator ∨ (Grammar.signOp? t).isSome = true) : t.behead.Shaped := by
  rcases hkind with hkind | hsign
  · simp only [Shaped, Token.behead, hkind, Scan.Shaped]
  obtain ⟨hkind, c, rest, htext, hc⟩ := exists_of_signOp? hsign
  rw [Shaped, Scan.shaped_iff_numeral hkind, htext] at ht
  obtain ⟨hfeed, ⟨d, more, heq, hd⟩ | ⟨d, more, heq, -, hmore⟩⟩ := ht
  · obtain ⟨rfl, -⟩ := List.cons.inj heq
    rcases hc with rfl | rfl <;> simp at hd
  · obtain ⟨-, rfl⟩ := List.cons.inj heq
    have hlexeme : t.behead.lexeme.toList = rest := by simp [Token.behead, htext]
    rw [Shaped, hlexeme]
    refine (Scan.shaped_iff_numeral hkind).2 ?_
    exact ⟨fun hmem => hfeed (List.mem_cons_of_mem _ hmem), .inl hmore⟩

/-- The characters of a word. -/
lemma continuesWord_of_shaped {t : Token} (ht : t.Shaped) (hword : t.isWord = true) :
    (∃ c cs, t.lexeme.toList = c :: cs ∧ Scan.startsWord c = true) ∧
      ∀ c ∈ t.lexeme.toList, Scan.continuesWord c = true := by
  unfold Token.Shaped at ht
  rcases Grammar.kind_of_isWord hword with hkind | hkind <;> rwa [hkind] at ht

/-- If the token is the literal of a character, it stands between quotation marks. -/
def Quoted (t : Token) : Prop :=
  t.kind = .charLiteral → ∃ u, t.lexeme.toList = '\'' :: (u ++ ['\''])

lemma quoted_of_mem_tokenize {source : String} {t : Token} (h : t ∈ tokenize source) :
    t.Quoted := by
  have hpiece : t.piece ∈ Scan.pieces none 1 source.toList := by
    rw [← Grammar.map_piece_tokenize]
    exact List.mem_map_of_mem h
  exact Scan.exists_of_mem_pieces hpiece

lemma quoted_of_mem_rescan {line : Nat} {cs : List Char} {t : Token}
    (h : t ∈ Grammar.rescan line cs) : t.Quoted := by
  obtain ⟨p, hp, hkind, htext⟩ := Grammar.exists_of_mem_rescan h
  rw [Quoted, ← hkind, ← htext]
  exact Scan.exists_of_mem_pieces hp

lemma quoted_behead {t : Token} (hkind : t.kind = .operator ∨ (Grammar.signOp? t).isSome = true) :
    t.behead.Quoted := by
  intro hchar
  have hchar : t.kind = .charLiteral := hchar
  rcases hkind with hkind | hsign
  · simp [hchar] at hkind
  · simpa [hchar] using (exists_of_signOp? hsign).1

end Token

end ClassLang
