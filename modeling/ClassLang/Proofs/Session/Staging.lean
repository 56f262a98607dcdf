import ClassLang.Proofs.Token.DumpRoundTrip
import ClassLang.Proofs.Token.Numbering
import ClassLang.Proofs.Token.Tiling
import ClassLang.Session.Basic

set_option autoImplicit false

/-!
# Parsing in two stages

A text can be parsed at once, or its tokens can be dumped and the dump parsed later. Both give the
same, provided that the dump gives the tokens back. Only literals can run over several lines, and so
only two sorts of lexemes are lost in a dump: character literals with a line feed, and string
literals that show the mark behind a lexeme before their last line.

## Main definitions

* `ClassLang.Dump.Stageable` — lexemes of a text that are not lost in a dump.

## Main results

* `ClassLang.Session.parseDump_write_tokenize` — when a dump gives the tokens of a text back, and
  that parsing it is then parsing the text.
-/

namespace ClassLang

/-! ## Lexemes with line feeds -/

namespace Scan

/-- A piece with a line feed starts with a quotation mark or a quote. -/
lemma quote_of_feed_mem_piece {before : Option Char} {line : Nat} {cs : List Char} {p : Piece}
    (h : p ∈ pieces before line cs) (hfeed : '\n' ∈ p.text) :
    p.text.head? = some '"' ∨ p.text.head? = some '\'' := by
  fun_induction pieces before line cs with
  | case1 => simp at h
  | case2 before line c cs s more kind hkind ih =>
    rcases List.mem_cons.1 h with rfl | hmore
    · obtain ⟨tail, htext⟩ := step_text_eq_cons before c cs
      have hhead : s.text.head? = some c := by rw [htext, List.head?_cons]
      simpa only [hhead, Option.some.injEq] using quote_of_feed_mem hkind hfeed
    · exact ih hmore
  | case3 before line c cs s more hkind ih => exact ih h

lemma quote_of_feed_mem_lexeme {known : Interner} {source : String} {t : Token}
    (h : t ∈ (tokens known source).1) (hfeed : '\n' ∈ t.lexeme.toList) :
    t.lexeme.toList.head? = some '"' ∨ t.lexeme.toList.head? = some '\'' := by
  have hpiece : t.piece ∈ pieces none 1 source.toList := by
    rw [← map_piece_tokens known source]
    exact List.mem_map_of_mem h
  exact quote_of_feed_mem_piece hpiece hfeed

end Scan

/-! ## Lexemes that are not lost -/

namespace Dump

/-- The part of a lexeme before its last line feed. -/
def beforeLastFeed (lexeme : List Char) : List Char :=
  (lexeme.rdropWhile (· ≠ '\n')).dropLast

/-- Lexemes of a text that are not lost in a dump: there is no line feed behind a leading quote, and
the mark behind a lexeme does not stand before the last line feed. -/
def Stageable (lexeme : List Char) : Prop :=
  (lexeme.head? = some '\'' → '\n' ∉ lexeme) ∧ ¬ "@ Line: ".toList <:+: beforeLastFeed lexeme

instance (lexeme : List Char) : Decidable (Stageable lexeme) :=
  inferInstanceAs (Decidable (_ ∧ _))

variable {lexeme before after : List Char}

private lemma rdropWhile_eq_nil (h : '\n' ∉ lexeme) : lexeme.rdropWhile (· ≠ '\n') = [] := by
  refine List.rdropWhile_eq_nil_iff.2 fun c hc => ?_
  simpa using ne_of_mem_of_not_mem hc h

private lemma beforeLastFeed_append (hafter : '\n' ∉ after) :
    beforeLastFeed (before ++ '\n' :: after) = before := by
  have hkept : (before ++ '\n' :: after).rdropWhile (· ≠ '\n') =
      before ++ '\n' :: after.rdropWhile (· ≠ '\n') :=
    Text.dropEndWhile_append_cons (by decide) before
  rw [beforeLastFeed, hkept, rdropWhile_eq_nil hafter, List.dropLast_concat]

private lemma exists_last_feed (h : '\n' ∈ lexeme) :
    ∃ before after, lexeme = before ++ '\n' :: after ∧ '\n' ∉ after := by
  obtain ⟨after, before, heq, hafter⟩ := List.eq_append_cons_of_mem (List.mem_reverse.2 h)
  refine ⟨before.reverse, after.reverse, ?_, by simpa using hafter⟩
  rw [← List.reverse_reverse lexeme, heq]
  simp

/-- Lexemes of which only literals have line feeds are dumpable exactly if they are not lost. -/
lemma dumpableLexeme_iff_stageable
    (hquote : '\n' ∈ lexeme → lexeme.head? = some '"' ∨ lexeme.head? = some '\'') :
    DumpableLexeme lexeme ↔ Stageable lexeme := by
  by_cases hfeed : '\n' ∈ lexeme
  · constructor
    · rintro (hnone | ⟨before, after, rfl, hafter, hhead, hmark⟩)
      · exact absurd hfeed hnone
      · refine ⟨fun hchar => ?_, by rwa [beforeLastFeed_append hafter]⟩
        rw [hhead] at hchar
        exact absurd hchar (by decide)
    · rintro ⟨hchar, hmark⟩
      obtain ⟨before, after, rfl, hafter⟩ := exists_last_feed hfeed
      rw [beforeLastFeed_append hafter] at hmark
      have hhead := (hquote hfeed).resolve_right fun hhead => hchar hhead hfeed
      exact .inr ⟨before, after, rfl, hafter, hhead, hmark⟩
  · refine iff_of_true (.inl hfeed) ⟨fun _ => hfeed, ?_⟩
    rw [beforeLastFeed, rdropWhile_eq_nil hfeed]
    decide

end Dump

/-! ## Sessions -/

/-- The tokens of a feed without failures are parsed as they are in a list. -/
lemma Program.ofFeed_ofTokens (ts : List Token) :
    Program.ofFeed (Feed.ofTokens ts) = Program.ofTokens ts := by
  simp only [Program.ofFeed, Program.ofTokens, Parser.onTokens, Cursor.ofFeed, Cursor.ofTokens,
    Feed.tokens_ofTokens, Feed.failure?_ofTokens]

namespace Session

open Dump

/-- A text that is parsed after it has been tokenized gets the same tokens as before. -/
lemma parse_tokenize (s : Session) (source : String) :
    ((s.tokenize source).2.parse source).1 = (s.parse source).1 := by
  simp only [parse, tokenize, Scan.tokens_again]

/-- **Parsing in two stages.** Let the lines and numbers of the tokens of a text have 32 bits. Then
their dump gives them back exactly if none of their lexemes is lost. In this case parsing the dump
gives the same program or the same error as parsing the text, be it in the session before the text
was tokenized or in the one after. -/
theorem parseDump_write_tokenize (s : Session) (source : String)
    (hnumbers : ∀ t ∈ (s.tokenize source).1, t.line < numberBound ∧ t.id < numberBound) :
    (read (ofBytes (write (s.tokenize source).1).toUTF8) = Feed.ofTokens (s.tokenize source).1 ↔
        ∀ t ∈ (s.tokenize source).1, Stageable t.lexeme.toList) ∧
      ((∀ t ∈ (s.tokenize source).1, Stageable t.lexeme.toList) →
        parseDump (write (s.tokenize source).1).toUTF8 = (s.parse source).1 ∧
          parseDump (write (s.tokenize source).1).toUTF8 =
            ((s.tokenize source).2.parse source).1) := by
  have hread : read (ofBytes (write (s.tokenize source).1).toUTF8) =
      Feed.ofTokens (s.tokenize source).1 ↔
        ∀ t ∈ (s.tokenize source).1, Stageable t.lexeme.toList := by
    rw [read_write_eq_ofTokens_iff]
    refine forall₂_congr fun t ht => ?_
    rw [← dumpableLexeme_iff_stageable (Scan.quote_of_feed_mem_lexeme ht)]
    exact ⟨Dumpable.lexeme, fun h => ⟨h, (hnumbers t ht).1, (hnumbers t ht).2⟩⟩
  refine ⟨hread, fun hstageable => ?_⟩
  have hparse : parseDump (write (s.tokenize source).1).toUTF8 = (s.parse source).1 := by
    rw [parseDump, hread.2 hstageable, Program.ofFeed_ofTokens]
    rfl
  exact ⟨hparse, by rw [hparse, parse_tokenize]⟩

/-- A text with a string literal over two lines that shows the marks of a dump. -/
def twoLineSource : String :=
  "public class A \x7b String s = \" Lexem: @\n@ Line: 3\"; char c = 'x'; \x7d"

theorem parseDump_write_tokenize_twoLineSource :
    (∀ t ∈ (tokenize {} twoLineSource).1, t.line < numberBound ∧ t.id < numberBound) ∧
      (∀ t ∈ (tokenize {} twoLineSource).1, Stageable t.lexeme.toList) ∧
      parseDump (write (tokenize {} twoLineSource).1).toUTF8 = (parse {} twoLineSource).1 := by
  have htokens : ∀ t ∈ (tokenize {} twoLineSource).1,
      (t.line < numberBound ∧ t.id < numberBound) ∧ Stageable t.lexeme.toList := by
    decide +kernel
  have hnumbers := fun t ht => (htokens t ht).1
  have hstageable := fun t ht => (htokens t ht).2
  have hparse := (parseDump_write_tokenize {} twoLineSource hnumbers).2 hstageable
  exact ⟨hnumbers, hstageable, hparse.1⟩

/-- A text with a line feed in a character literal. -/
def charFeedSource : String :=
  "public class A \x7b char c = '\n'; \x7d"

/-- The text with a line feed in a character literal is a program, but its dump is not. -/
theorem parseDump_write_tokenize_ne :
    parseDump (write (tokenize {} charFeedSource).1).toUTF8 ≠ (parse {} charFeedSource).1 := by
  -- The dump is evaluated as a list of characters, which is much faster than as bytes.
  rw [parseDump, ofBytes_toUTF8, ofText, toList_write]
  intro h
  have hok := congrArg Except.isOk h
  revert hok
  decide +kernel

end Session

end ClassLang
