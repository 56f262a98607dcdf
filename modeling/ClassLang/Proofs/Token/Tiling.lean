import ClassLang.Proofs.Token.Retraction

set_option autoImplicit false

/-!
# Lexemes tile the text

The lexemes of a text, with gaps between them, in front of the first and behind the last, make up
the text: no character is lost, repeated or moved. The gaps consist of blanks and comments.

## Main definitions

* `ClassLang.Scan.Gap` — blanks and comments one behind the other.
* `ClassLang.Scan.Tiles` — gaps and lexemes in turn make up a text.
* `ClassLang.Token.piece` — a token without the number of its lexeme.

## Main results

* `ClassLang.Scan.tiles_pieces` — what the scanner finds tiles the text.
* `ClassLang.Scan.lexemes_tile_source` — the lexemes of the tokens of a text tile it, and they are
  those that are found by taking back signs.
-/

namespace ClassLang

/-- A token without the number of its lexeme. -/
def Token.piece (t : Token) : Scan.Piece :=
  { kind := t.kind, text := t.lexeme.toList, line := t.line }

namespace Scan

/-! ## Tilings -/

/-- Blanks and comments one behind the other, in front of the text `rest`. -/
inductive Gap (rest : List Char) : List Char → Prop
  | nil : Gap rest []
  | cons {item gap : List Char} (hitem : GapItem (gap ++ rest) item) (hgap : Gap rest gap) :
      Gap rest (item ++ gap)

/-- Gaps and lexemes in turn, from a gap to a gap, in front of the text `rest`. Gaps may be empty,
lexemes may not. -/
inductive Tiles (rest : List Char) : List (List Char) → List Char → Prop
  | last {gap : List Char} (hgap : Gap rest gap) : Tiles rest [] gap
  | cons {gap lexeme text : List Char} {lexemes : List (List Char)}
      (hgap : Gap (lexeme ++ text ++ rest) gap) (hne : lexeme ≠ [])
      (htiles : Tiles rest lexemes text) : Tiles rest (lexeme :: lexemes) (gap ++ lexeme ++ text)

variable {rest text : List Char} {lexemes : List (List Char)}

/-- A blank or a comment in front of a tiled text. -/
lemma Tiles.item {item : List Char} (hitem : GapItem (text ++ rest) item)
    (h : Tiles rest lexemes text) : Tiles rest lexemes (item ++ text) := by
  cases h with
  | last hgap => exact .last (.cons hitem hgap)
  | @cons gap lexeme text lexemes hgap hne htiles =>
    have hassoc : item ++ (gap ++ lexeme ++ text) = (item ++ gap) ++ lexeme ++ text := by
      simp only [List.append_assoc]
    rw [hassoc]
    refine .cons (.cons ?_ hgap) hne htiles
    simpa only [List.append_assoc] using hitem

/-- A lexeme in front of a tiled text. -/
lemma Tiles.lexeme {lexeme : List Char} (hne : lexeme ≠ []) (h : Tiles rest lexemes text) :
    Tiles rest (lexeme :: lexemes) (lexeme ++ text) :=
  .cons .nil hne h

/-- The lexemes that the scanner finds tile the text. -/
theorem tiles_pieces (before : Option Char) (line : Nat) (cs : List Char) :
    Tiles [] ((pieces before line cs).map Piece.text) cs := by
  fun_induction pieces before line cs with
  | case1 => exact .last .nil
  | case2 before line c cs s more kind hkind ih =>
    have htiles := ih.lexeme (step_text_ne_nil before c cs)
    rwa [step_text_append_rest] at htiles
  | case3 before line c cs s more hkind ih =>
    have hitem := (gapItem_of_kind_eq_none hkind).1
    have htiles := ih.item (by rwa [List.append_nil])
    rwa [step_text_append_rest] at htiles

/-! ## Tokens -/

lemma piece_toToken (known : Interner) (p : Piece) : (p.toToken known).1.piece = p := by
  simp [Piece.toToken, Token.piece]

/-- Numbering the lexemes of a text changes nothing else. -/
lemma map_piece_internAll (known : Interner) (ps : List Piece) :
    (internAll known ps).1.map Token.piece = ps := by
  induction ps generalizing known with
  | nil => rfl
  | cons p ps ih =>
    simp only [internAll, List.map_cons, piece_toToken, ih]

lemma map_piece_tokens (known : Interner) (source : String) :
    (tokens known source).1.map Token.piece = pieces none 1 source.toList :=
  map_piece_internAll known _

/-- **Lexemes tile the text.** The lexemes of the tokens of a text are nonempty, and in their order
and with gaps of blanks and comments between them they make up the text. They are also what a
scanner emits that takes back signs, so that this loses, repeats and moves no character. -/
theorem lexemes_tile_source (known : Interner) (source : String) :
    Tiles [] ((tokens known source).1.map fun t => t.lexeme.toList) source.toList ∧
      (tokens known source).1.map Token.piece = Head.scan { ahead := source.toList } := by
  have hpieces := map_piece_tokens known source
  constructor
  · have htiles := tiles_pieces none 1 source.toList
    rwa [← hpieces, List.map_map] at htiles
  · rw [hpieces, Head.scan_eq_pieces]

end Scan

end ClassLang
