import ClassLang.Proofs.Grammar.GluedAngles
import ClassLang.Proofs.Target.Scanning
import ClassLang.Proofs.Token.Respelling

set_option autoImplicit false

/-!
# Reading the text of a type back

The text of a type is scanned into its spellings, but for closing angle brackets in a row, of which
the scanner takes up to three at a time. The array suffixes of a name alone are part of its word,
and those behind type arguments are signs of their own. How a run of closing brackets is cut depends
on its whole length, which is known only from outside the type. So a text is scanned from its end,
and what is kept of the text behind is that it may stand behind any number of closing brackets.

## Main definitions

* `ClassLang.Word.NamesType`, `ClassLang.TypeExpr.WellNamed` — the names of types, and the types
  with such names at every depth.
* `ClassLang.Scan.ScansTo`, `ClassLang.Scan.ScansBehind` — a text is scanned into given spellings,
  wherever it stands, or behind closing angle brackets too.

## Main results

* `ClassLang.TypeExpr.scansTo_text` — the text of a type is scanned into its spellings.
* `ClassLang.Grammar.typeExpr_inverts_text` — the text of a type is read back as the type.
-/

namespace ClassLang

open Spelling (sign typeWord unglued)

/-! ## Names of types -/

namespace Word

/-- A text of letters, digits and underscores that does not start with a digit. -/
structure IsName (text : String) : Prop where
  starts : text.toList.head?.any Scan.startsWord = true
  continues : text.toList.all Scan.continuesWord = true
  bracketFree : BracketFree text

/-- The names of types are the keywords that name a type, and all names that are no keywords. -/
def NamesType (text : String) : Prop :=
  text ∈ typeKeywords ∨ IsName text ∧ isKeyword text = false

lemma isName_of_mem_typeKeywords {text : String} (h : text ∈ typeKeywords) : IsName text := by
  have hall : (typeKeywords.all fun text => text.toList.head?.any Scan.startsWord &&
      text.toList.all Scan.continuesWord && decide ('[' ∉ text.toList) &&
      decide (']' ∉ text.toList)) = true := by decide
  have htext := List.all_eq_true.1 hall text h
  simp only [Bool.and_eq_true, decide_eq_true_eq] at htext
  obtain ⟨⟨⟨hstarts, hcontinues⟩, hopen⟩, hclose⟩ := htext
  exact ⟨hstarts, hcontinues, hopen, hclose⟩

variable {text : String}

lemma IsName.starts_append (h : IsName text) (more : List Char) :
    (text.toList ++ more).head?.any Scan.startsWord = true := by
  have hstarts := h.starts
  cases htext : text.toList with
  | nil => simp [htext] at hstarts
  | cons c cs => simpa [htext] using hstarts

lemma NamesType.isName (h : NamesType text) : IsName text :=
  h.elim isName_of_mem_typeKeywords And.left

lemma NamesType.isTypeKeyword (h : NamesType text) (hkeyword : isKeyword text = true) :
    isTypeKeyword text = true := by
  rcases h with htype | ⟨-, hnot⟩
  · rw [Word.isTypeKeyword, List.contains_iff_mem.2 htype, Bool.true_or]
  · rw [hnot] at hkeyword
    cases hkeyword

end Word

namespace TypeExpr

mutual

/-- The types whose names, at every depth, are names of types. -/
def WellNamed : TypeExpr → Prop
  | mk text args _ => Word.NamesType text ∧ AllWellNamed args

/-- Every type of a list is well named. -/
def AllWellNamed : List TypeExpr → Prop
  | [] => True
  | type :: types => type.WellNamed ∧ AllWellNamed types

end

lemma WellNamed.isName {type : TypeExpr} (h : type.WellNamed) : Word.IsName type.name := by
  obtain ⟨name, args, dimensions⟩ := type
  exact h.1.isName

mutual

lemma WellNamed.plain : (type : TypeExpr) → type.WellNamed → type.Plain
  | mk _ args _, h => ⟨h.1.isName.bracketFree, h.1.isTypeKeyword, AllWellNamed.allPlain args h.2⟩

lemma AllWellNamed.allPlain : (types : List TypeExpr) → AllWellNamed types → AllPlain types
  | [], _ => trivial
  | type :: types, h => ⟨WellNamed.plain type h.1, AllWellNamed.allPlain types h.2⟩

end

/-! ## The characters of a type -/

lemma toList_text_nil (name : String) (dimensions : Nat) :
    (mk name [] dimensions).text.toList = (name ++ brackets dimensions).toList := by
  simp [text]

lemma toList_text_cons (name : String) (arg : TypeExpr) (args : List TypeExpr)
    (dimensions : Nat) :
    (mk name (arg :: args) dimensions).text.toList = name.toList ++
      '<' :: ((", ".intercalate (texts (arg :: args))).toList ++
        '>' :: (brackets dimensions).toList) := by
  simp [text]

/-- The texts of types in a list start with a word. -/
lemma startsWord_texts {arg : TypeExpr} (harg : arg.WellNamed) (args : List TypeExpr)
    (rest : List Char) :
    ((", ".intercalate (texts (arg :: args))).toList ++ rest).head?.any Scan.startsWord = true := by
  obtain ⟨more, hfirst⟩ : ∃ more, arg.text.toList = arg.name.toList ++ more := by
    obtain ⟨name, _ | ⟨inner, others⟩, dimensions⟩ := arg
    · exact ⟨_, by rw [toList_text_nil, String.toList_append]; rfl⟩
    · exact ⟨_, toList_text_cons name inner others dimensions⟩
  obtain ⟨more, hlist⟩ : ∃ more,
      (", ".intercalate (texts (arg :: args))).toList = arg.name.toList ++ more := by
    cases args with
    | nil => exact ⟨more, by rw [texts, texts, String.intercalate_singleton, hfirst]⟩
    | cons other args =>
      exact ⟨_, by rw [texts, texts, String.intercalate_cons_cons, String.toList_append,
        String.toList_append, hfirst, List.append_assoc, List.append_assoc]⟩
  rw [hlist, List.append_assoc]
  exact harg.isName.starts_append _

lemma toList_brackets_cons (dimensions : Nat) :
    (brackets (dimensions + 1)).toList = '[' :: ']' :: (brackets dimensions).toList := by
  simp [brackets, List.replicate_succ]

end TypeExpr

/-! ## Scanning -/

namespace Scan

/-- Wherever the text `cs` stands, it is scanned into `ss`, up to closing angle brackets in one
sign. -/
def ScansTo (cs : List Char) (ss : List Spelling) : Prop :=
  ∀ before line, unglued ((pieces before line cs).map Piece.spelling) = ss

/-- The text `cs` is scanned into `ss`, with however many closing angle brackets in front. -/
def ScansBehind (cs : List Char) (ss : List Spelling) : Prop :=
  ∀ n, ScansTo (List.replicate n '>' ++ cs) (List.replicate n (sign ">") ++ ss)

variable {c : Char} {cs rest : List Char} {ss : List Spelling}

lemma ScansBehind.scansTo (h : ScansBehind rest ss) : ScansTo rest ss := h 0

/-- A closing bracket in front is one more of them. -/
lemma ScansBehind.close (h : ScansBehind rest ss) :
    ScansBehind ('>' :: rest) (sign ">" :: ss) := by
  intro n
  have hmore := h (n + 1)
  rwa [List.replicate_succ', List.append_assoc, List.replicate_succ', List.append_assoc] at hmore

/-- A step that takes a lexeme on one line. -/
lemma scansTo_of_step {kind : Kind} {text : List Char}
    (hstep : ∀ before, step before c cs = { kind := some kind, text, rest })
    (hrest : ScansTo rest ss) :
    ScansTo (c :: cs) (Spelling.angles (kind, String.ofList text) ++ ss) := by
  intro before line
  rw [pieces_of_step (hstep before), List.map_cons, Spelling.unglued_cons, hrest]
  rfl

/-- A step that takes an operator. -/
lemma scansTo_operator {text : List Char} (hc : c = '<' ∨ c = '>' ∨ c ∈ ['[', ']', ','])
    (htext : extendOperator [c] cs = (text, rest)) (hrest : ScansTo rest ss) :
    ScansTo (c :: cs) (Spelling.angles (sign (String.ofList text)) ++ ss) := by
  refine scansTo_of_step (fun before => ?_) hrest
  have hstep : step before c cs = operator c cs := by
    simp only [List.mem_cons, List.not_mem_nil, or_false] at hc
    rcases hc with rfl | rfl | rfl | rfl | rfl <;> rfl
  rw [hstep, operator, htext]

lemma scansTo_nil : ScansTo [] [] := by
  intro before line
  rw [pieces]
  rfl

/-! ### Closing angle brackets -/

/-- No operator goes on with three closing angle brackets. -/
lemma extendOperator_three (cs : List Char) :
    extendOperator ['>', '>', '>'] cs = (['>', '>', '>'], cs) := by
  have hshort : ∀ op ∈ Word.operators, op.toList.length ≤ 3 := by decide
  refine extendOperator_of_not_mem fun c _ hmem => ?_
  have hlen := hshort _ hmem
  simp at hlen

/-- **Runs of closing angle brackets**, of which up to three are taken at a time, in front of a text
that does not go on with them. -/
lemma scansBehind_of_head (hhead : ∀ c ∈ rest.head?, c ∉ operatorTails) (h : ScansTo rest ss) :
    ScansBehind rest ss
  | 0 => h
  | 1 => by
    have htext : extendOperator ['>'] rest = (['>'], rest) :=
      extendOperator_stop (List.cons_ne_nil _ _) hhead
    exact scansTo_operator (.inr (.inl rfl)) htext h
  | 2 => by
    have htext : extendOperator ['>'] ('>' :: rest) = (['>', '>'], rest) :=
      extendOperator_stop (List.cons_ne_nil '>' ['>']) hhead
    exact scansTo_operator (.inr (.inl rfl)) htext h
  | n + 3 => by
    have htext : extendOperator ['>'] ('>' :: '>' :: (List.replicate n '>' ++ rest)) =
        (['>', '>', '>'], List.replicate n '>' ++ rest) := extendOperator_three _
    exact scansTo_operator (.inr (.inl rfl)) htext (scansBehind_of_head hhead h n)

/-! ### Brackets, commas and words -/

/-- A bracket or a comma. -/
lemma ScansTo.alone (hc : c ∈ ['[', ']', ',']) (h : ScansTo rest ss) :
    ScansTo (c :: rest) (sign (String.ofList [c]) :: ss) := by
  have htext : extendOperator [c] rest = ([c], rest) :=
    extendOperator_alone (List.mem_cons_of_mem _ (List.mem_cons_of_mem _ hc)) rest
  have hsingle : (sign (String.ofList [c])).angles = [sign (String.ofList [c])] := by
    simp only [List.mem_cons, List.not_mem_nil, or_false] at hc
    rcases hc with rfl | rfl | rfl <;> decide
  have hscans := scansTo_operator (.inr (.inr hc)) htext h
  rwa [hsingle] at hscans

/-- A comma, and the blank behind it. -/
lemma ScansTo.comma (h : ScansTo rest ss) : ScansBehind (',' :: ' ' :: rest) (sign "," :: ss) := by
  have hblank : ScansTo (' ' :: rest) ss := fun before line => by rw [pieces_blank, h]
  refine scansBehind_of_head ?_ (hblank.alone (by decide))
  rintro _ ⟨⟩
  decide

/-- Pairs of brackets. -/
lemma ScansBehind.pairs (h : ScansBehind rest ss) : ∀ dimensions : Nat,
    ScansBehind ((TypeExpr.brackets dimensions).toList ++ rest) (TypeExpr.pairs dimensions ++ ss)
  | 0 => h
  | dimensions + 1 => by
    rw [TypeExpr.toList_brackets_cons]
    have hmore := (h.pairs dimensions).scansTo
    refine scansBehind_of_head ?_ ((hmore.alone (c := ']') (by decide)).alone (c := '[') (by decide))
    rintro _ ⟨⟩
    decide

/-- An opening angle bracket in front of a word. -/
lemma ScansTo.opening (hstarts : rest.head?.any startsWord = true) (h : ScansTo rest ss) :
    ScansTo ('<' :: rest) (sign "<" :: ss) := by
  have hplain : (operatorTails.all fun c => !startsWord c) = true := by decide
  have htext : extendOperator ['<'] rest = (['<'], rest) := by
    refine extendOperator_stop (List.cons_ne_nil _ _) fun c hc hmem => ?_
    have hnot := List.all_eq_true.1 hplain c hmem
    rw [hc, Option.any_some] at hstarts
    rw [hstarts] at hnot
    cases hnot
  exact scansTo_operator (.inl rfl) htext h

/-- A word in front of anything that does not go on with it. -/
lemma ScansTo.word {text : String} (hstarts : text.toList.head?.any startsWord = true)
    (hall : text.toList.all continuesWord = true)
    (hends : ∀ c ∈ rest.head?, continuesWord c = false) (h : ScansTo rest ss) :
    ScansTo (text.toList ++ rest) (typeWord text :: ss) := by
  intro before line
  rw [pieces_word hstarts hall hends, List.map_cons, Spelling.unglued_cons, h, Piece.spelling,
    String.ofList_toList]
  exact congrArg (· ++ ss) (Spelling.angles_typeWord text)

end Scan

/-! ### Types -/

namespace TypeExpr

open Scan

/-- A name with array suffixes is one word. -/
lemma scansTo_nameWithBrackets {name : String} (hname : Word.IsName name) (dimensions : Nat)
    {rest : List Char} {ss : List Spelling} (hends : ∀ c ∈ rest.head?, continuesWord c = false)
    (h : ScansTo rest ss) :
    ScansTo ((name ++ brackets dimensions).toList ++ rest)
      (typeWord (name ++ brackets dimensions) :: ss) := by
  have hbrackets : (brackets dimensions).toList.all continuesWord = true := by
    induction dimensions with
    | zero => rfl
    | succ dimensions ih =>
      rw [toList_brackets_cons]
      exact ih
  refine h.word ?_ ?_ hends
  · rw [String.toList_append]
    exact hname.starts_append _
  · rw [String.toList_append, List.all_append, hname.continues, hbrackets]
    rfl

mutual

/-- **The text of a type is scanned into its spellings**, in front of a text that goes on neither
with a word nor with a run of closing brackets. -/
lemma scansTo_text : (type : TypeExpr) → type.WellNamed → ∀ {rest : List Char}
    {ss : List Spelling}, (∀ c ∈ rest.head?, continuesWord c = false) → ScansBehind rest ss →
      ScansTo (type.text.toList ++ rest) (type.spellings ++ ss)
  | mk name [] dimensions, hname, rest, ss, hends, h => by
    rw [toList_text_nil, spellings]
    exact scansTo_nameWithBrackets hname.1.isName dimensions hends h.scansTo
  | mk name (arg :: args) dimensions, hname, rest, ss, _, h => by
    -- What follows the list may be its own pairs of brackets, or closing brackets from outside.
    have hlist := scansTo_texts (arg :: args) (by simp) hname.2 (h.pairs dimensions)
    have hopen := hlist.opening (startsWord_texts hname.2.1 args _)
    have hword := hopen.word hname.1.isName.starts hname.1.isName.continues (by simp; decide)
    rw [toList_text_cons, spellings]
    simpa using hword

/-- The texts of type arguments up to the closing bracket are scanned into their spellings. -/
lemma scansTo_texts : (args : List TypeExpr) → args ≠ [] → AllWellNamed args →
    ∀ {rest : List Char} {ss : List Spelling}, ScansBehind rest ss →
      ScansTo ((", ".intercalate (texts args)).toList ++ '>' :: rest) (spellingsOfArgs args ++ ss)
  | [], hne, _, _, _, _ => absurd rfl hne
  | [arg], _, hnamed, rest, ss, h => by
    have harg := scansTo_text arg hnamed.1 (by simp; decide) h.close
    simpa [texts, spellingsOfArgs] using harg
  | arg :: other :: args, _, hnamed, rest, ss, h => by
    have hothers := scansTo_texts (other :: args) (by simp) hnamed.2 h
    have harg := scansTo_text arg hnamed.1 (by simp; decide) hothers.comma
    simpa [texts, spellingsOfArgs] using harg

end

end TypeExpr

/-! ## Reading types back -/

namespace Grammar

open ClassLang.Parser

/-- **The text of a type is read back.** The tokens of the text are read as the type, to the last of
them, however deep the type arguments are nested and however many dimensions there are at each
level. The lexemes `known` before only number the tokens. -/
theorem typeExpr_inverts_text (type : TypeExpr) (htype : type.WellNamed) (known : Interner) :
    Reads typeExpr (Scan.tokens known type.text).1 type [] := by
  have hend : Scan.ScansBehind [] [] := Scan.scansBehind_of_head (by simp) Scan.scansTo_nil
  have hscans := type.scansTo_text htype (by simp) hend none 1
  rw [List.append_nil, List.append_nil, ← map_spelling_tokens known] at hscans
  exact reads_typeExpr (TypeExpr.WellNamed.plain type htype) hscans

/-- A type with arrays at several levels, and with four closing brackets in a row. -/
def mapOfBoxes : TypeExpr :=
  let boxOf (type : TypeExpr) (dimensions : Nat) := TypeExpr.mk "Box" [type] dimensions
  .mk "HashMap" [boxOf (.mk "int" [] 2) 1,
    .mk "ArrayList" [boxOf (boxOf (.mk "String" [] 0) 0) 0] 0] 1

theorem typeExpr_inverts_text_fourClosings :
    mapOfBoxes.WellNamed ∧
      mapOfBoxes.text = "HashMap<Box<int[][]>[], ArrayList<Box<Box<String>>>>[]" ∧
      Reads typeExpr (tokenize mapOfBoxes.text) mapOfBoxes [] := by
  have hbox : Word.NamesType "Box" :=
    .inr ⟨⟨by decide, by decide, by decide, by decide⟩, by decide⟩
  have hnamed : mapOfBoxes.WellNamed :=
    ⟨.inl (by decide), ⟨hbox, ⟨.inl (by decide), trivial⟩, trivial⟩,
      ⟨.inl (by decide), ⟨hbox, ⟨hbox, ⟨.inl (by decide), trivial⟩, trivial⟩, trivial⟩, trivial⟩,
      trivial⟩
  exact ⟨hnamed, by decide, typeExpr_inverts_text mapOfBoxes hnamed .empty⟩

end Grammar

end ClassLang
