import ClassLang.Proofs.Token.Tiling

set_option autoImplicit false

/-!
# The lines of tokens

The line of a token is one more than the number of line feeds in front of its lexeme, less those
that earlier lexemes hide: a line feed in a character literal, or behind a backslash in a string
literal, does not count. Blanks and comments hide none.

## Main definitions

* `ClassLang.Scan.allHiddenFeeds` — the line feeds that several lexemes hide.

## Main results

* `ClassLang.Scan.line_add_allHiddenFeeds` — the line of a token from its place in the text.
-/

namespace ClassLang.Scan

/-- The line feeds that do not count in any of the lexemes. -/
def allHiddenFeeds : List (List Char) → Nat
  | [] => 0
  | lexeme :: lexemes => hiddenFeeds lexeme + allHiddenFeeds lexemes

/-- A place of the lexeme `p.text` in the text `cs`, whose first line has the number `line`. The
lexemes `front` tile what stands before it and the lexemes `back` tile what stands behind it. The
line of `p` is the line of this place, less the line feeds that `front` hides. -/
structure Placed (line : Nat) (cs : List Char) (front : List (List Char)) (p : Piece)
    (back : List (List Char)) (before after : List Char) : Prop where
  whole : cs = before ++ p.text ++ after
  tiles_before : Tiles (p.text ++ after) front before
  tiles_after : Tiles [] back after
  line_eq : p.line + allHiddenFeeds front = line + before.count '\n'

variable {line : Nat} {cs before after : List Char} {front back : List (List Char)} {p : Piece}

/-- A blank or a comment in front of the text moves a place. -/
lemma Placed.item {item : List Char} (hitem : GapItem cs item)
    (h : Placed (line + item.count '\n') cs front p back before after) :
    Placed line (item ++ cs) front p back (item ++ before) after where
  whole := by simp only [h.whole, List.append_assoc]
  tiles_before := h.tiles_before.item (by rwa [h.whole, List.append_assoc] at hitem)
  tiles_after := h.tiles_after
  line_eq := by rw [h.line_eq, List.count_append, Nat.add_assoc]

/-- A lexeme in front of the text, which counts `newlines` line feeds, moves a place. -/
lemma Placed.lexeme {lexeme : List Char} {newlines : Nat} (hne : lexeme ≠ [])
    (hfeeds : newlines + hiddenFeeds lexeme = lexeme.count '\n')
    (h : Placed (line + newlines) cs front p back before after) :
    Placed line (lexeme ++ cs) (lexeme :: front) p back (lexeme ++ before) after where
  whole := by simp only [h.whole, List.append_assoc]
  tiles_before := h.tiles_before.lexeme hne
  tiles_after := h.tiles_after
  line_eq := by
    have hline := h.line_eq
    rw [allHiddenFeeds, List.count_append]
    omega

/-- Every piece that the scanner finds has a place in the text, with the pieces before and behind
it tiling the rest. -/
theorem exists_placed_of_pieces_eq {ahead : Option Char} {ps qs : List Piece}
    (h : pieces ahead line cs = ps ++ p :: qs) :
    ∃ before after,
      Placed line cs (ps.map Piece.text) p (qs.map Piece.text) before after := by
  fun_induction pieces ahead line cs generalizing ps
  case case1 => simp at h
  case case2 ahead line c cs s more kind hkind ih =>
    have hwhole : s.text ++ s.rest = c :: cs := step_text_append_rest ahead c cs
    cases ps with
    | nil =>
      obtain ⟨rfl, hmore⟩ := List.cons.inj h
      refine ⟨[], s.rest, hwhole.symm, .last .nil, ?_, rfl⟩
      rw [← hmore]
      exact tiles_pieces _ _ _
    | cons q ps =>
      obtain ⟨rfl, hmore⟩ := List.cons.inj h
      obtain ⟨before, after, hplaced⟩ := ih hmore
      rw [← hwhole]
      exact ⟨_, after, hplaced.lexeme (step_text_ne_nil ahead c cs)
        (newlines_add_hiddenFeeds hkind)⟩
  case case3 ahead line c cs s more hkind ih =>
    obtain ⟨hitem, hfeeds⟩ := gapItem_of_kind_eq_none hkind
    obtain ⟨before, after, hplaced⟩ := ih h
    rw [hfeeds] at hplaced
    rw [← step_text_append_rest ahead c cs]
    exact ⟨_, after, hplaced.item hitem⟩

/-- **The lines of tokens.** Each token of a text has a place in it, between the lexemes of the
tokens before it and those behind it. The number of its line is one more than the number of line
feeds in front of this place, less those that the earlier lexemes hide. -/
theorem line_add_allHiddenFeeds (known : Interner) (source : String) (earlier later : List Token)
    (t : Token) (h : (tokens known source).1 = earlier ++ t :: later) :
    ∃ before after, source.toList = before ++ t.lexeme.toList ++ after ∧
      Tiles (t.lexeme.toList ++ after) (earlier.map fun t => t.lexeme.toList) before ∧
      Tiles [] (later.map fun t => t.lexeme.toList) after ∧
      t.line + allHiddenFeeds (earlier.map fun t => t.lexeme.toList) =
        1 + before.count '\n' := by
  have hpieces := map_piece_tokens known source
  rw [h, List.map_append, List.map_cons] at hpieces
  obtain ⟨before, after, hwhole, hfront, hback, hline⟩ := exists_placed_of_pieces_eq hpieces.symm
  rw [List.map_map] at hfront hback hline
  exact ⟨before, after, hwhole, hfront, hback, hline⟩

/-- The word behind a string literal with two line feeds, one of them behind a backslash. -/
theorem line_add_allHiddenFeeds_behind_string :
    (tokens {} "\"\\\n\n\" x").1 =
        [⟨.stringLiteral, "\"\\\n\n\"", 1, 1⟩] ++ ⟨.identifier, "x", 2, 2⟩ :: [] ∧
      ∃ before after, "\"\\\n\n\" x".toList = before ++ "x".toList ++ after ∧
        Tiles ("x".toList ++ after) ["\"\\\n\n\"".toList] before ∧ Tiles [] [] after ∧
        2 + allHiddenFeeds ["\"\\\n\n\"".toList] = 1 + before.count '\n' := by
  have h : (tokens {} "\"\\\n\n\" x").1 =
      [⟨.stringLiteral, "\"\\\n\n\"", 1, 1⟩] ++ ⟨.identifier, "x", 2, 2⟩ :: [] := by
    decide +kernel
  exact ⟨h, line_add_allHiddenFeeds {} _ _ _ _ h⟩

/-- A line feed in a character literal is missing from the line of the word behind it. -/
theorem exists_line_ne_behind_charLiteral :
    ∃ t ∈ tokenize "'\n'x", ∀ before after,
      "'\n'x".toList = before ++ t.lexeme.toList ++ after → t.line ≠ 1 + before.count '\n' := by
  refine ⟨⟨.identifier, "x", 1, 2⟩, by decide +kernel, fun before after hwhole => ?_⟩
  have hbefore : before = ['\'', '\n', '\''] := by
    rcases before with _ | ⟨a, _ | ⟨b, _ | ⟨c, _ | ⟨d, before⟩⟩⟩⟩ <;> simp_all [eq_comm]
  subst hbefore
  decide

end ClassLang.Scan
