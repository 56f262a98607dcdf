import ClassLang.Proofs.Grammar.Termination
import ClassLang.Proofs.Session.Staging

set_option autoImplicit false

/-!
# A failing source

A source of tokens that fails never gives a program. Where the tokens before the failure are no
program, parsing fails on the way; where they are one, parsing goes on to the end of them, looks
for the next class, and so meets the failure, which is its result. A line of a dump that cannot be
read is such a failure, wherever it stands.

## Main definitions

* `ClassLang.Dump.Malformed` — lines of a dump that stand for no token.

## Main results

* `ClassLang.Program.verdict_ofFeed` — parsing with and without a failure at the end.
* `ClassLang.Dump.readFrom_append` — a dump goes on where a complete one has ended.
* `ClassLang.Session.failing_source_never_parses` — a failing source, and a dump with a malformed
  line.
-/

namespace ClassLang

namespace Feed

lemma tokens_append_error (ts : List Token) (e : SyntaxError) (rest : Feed) :
    tokens (ofTokens ts ++ .error e :: rest) = ts := by
  induction ts with
  | nil => rfl
  | cons t ts ih => exact congrArg (t :: ·) ih

lemma failure?_append_error (ts : List Token) (e : SyntaxError) (rest : Feed) :
    failure? (ofTokens ts ++ .error e :: rest) = some (e, rest) := by
  induction ts with
  | nil => rfl
  | cons t ts ih => exact ih

/-- A feed with a failure is a list of tokens up to the first one. -/
lemma exists_eq_append_error {feed : Feed} {e : SyntaxError} (h : .error e ∈ feed) :
    ∃ ts e' rest, feed = ofTokens ts ++ .error e' :: rest := by
  induction feed with
  | nil => cases h
  | cons item feed ih =>
    cases item with
    | error e' => exact ⟨[], e', feed, rfl⟩
    | ok t =>
      have hfeed : Except.error e ∈ feed := by simpa using h
      obtain ⟨ts, e', rest, rfl⟩ := ih hfeed
      exact ⟨t :: ts, e', rest, rfl⟩

end Feed

namespace Program

open Grammar

/-- The tokens `ts` are parsed alike with a failure behind them and without one, up to the end. -/
lemma verdict_ofFeed (ts : List Token) (e : SyntaxError) (rest : Feed) :
    Verdict none (some (e, rest)) (ofTokens ts)
      (ofFeed (Feed.ofTokens ts ++ .error e :: rest)) := by
  have htokens := Feed.tokens_append_error ts e rest
  have hbefore := Cursor.before_ofFeed (Feed.ofTokens ts ++ .error e :: rest)
  rw [Feed.failure?_append_error] at hbefore
  have hcd : Cursor.Abreast none (some (e, rest)) (.ofTokens ts)
      (.ofFeed (Feed.ofTokens ts ++ .error e :: rest)) :=
    ⟨htokens.symm, rfl, ⟨rfl, Nat.zero_le _⟩, hbefore⟩
  have hverdict := verdict_programWithin hcd (Nat.lt_succ_self (totalWeight ts))
    (Nat.lt_succ_self (totalWeight ts))
  rw [ofTokens, Parser.onTokens, ofFeed, program, Parser.runFrom_withBudget,
    Parser.runFrom_withBudget, Cursor.weight_eq, Cursor.weight_eq]
  show Verdict none (some (e, rest)) _
    ((programWithin (totalWeight (Feed.tokens _) + 1)).runFrom _).1
  rw [htokens]
  exact hverdict

lemma ofFeed_ne_ok (ts : List Token) (e : SyntaxError) (rest : Feed) (p : Program) :
    ofFeed (Feed.ofTokens ts ++ .error e :: rest) ≠ .ok p := by
  intro hp
  rcases verdict_ofFeed ts e rest with ⟨program, -, hs⟩ | ⟨-, e', -, hs, -⟩
  · cases hp.symm.trans hs
  · cases hp.symm.trans hs

/-- If the tokens before the failure are a program, the failure is the result. -/
lemma ofFeed_eq_error {ts : List Token} {p : Program} (h : ofTokens ts = .ok p) (e : SyntaxError)
    (rest : Feed) : ofFeed (Feed.ofTokens ts ++ .error e :: rest) = .error e := by
  rcases verdict_ofFeed ts e rest with ⟨program, -, hs⟩ | ⟨e', -, hr, -⟩
  · exact hs
  · cases h.symm.trans hr

end Program

namespace Dump

/-- Lines of a dump that stand for no token, neither on their own nor with the lines behind them:
they are not blank, do not break off inside a lexeme, and have a fault. -/
def Malformed : RawLine → Prop
  | .undecodable => True
  | .text cs => (Text.trim cs).isEmpty = false ∧ breaksOff cs = false ∧
      ∃ fault, parseLine (Text.dropEndWhile (· = '\r') cs) = .error fault

/-- Lines that are read without errors end with a complete lexeme, and reading goes on behind
them. -/
lemma readFrom_append {count : Nat} {pending : Option (Nat × List Char)} {before : List RawLine}
    {ts : List Token} (h : readFrom count pending before = Feed.ofTokens ts) :
    ∃ count', ∀ after, readFrom count pending (before ++ after) =
      Feed.ofTokens ts ++ readFrom count' none after := by
  induction before generalizing count pending ts with
  | nil =>
    cases pending with
    | none =>
      obtain rfl : ts = [] := by simpa [readFrom, Feed.ofTokens] using h.symm
      exact ⟨count, fun _ => rfl⟩
    | some start => cases ts <;> simp [readFrom, Feed.ofTokens] at h
  | cons line before ih =>
    -- A complete line gives one token in front of those of the lines behind it.
    have hcomplete : ∀ {item : Except SyntaxError Token} {count : Nat},
        item :: readFrom count none before = Feed.ofTokens ts →
        ∃ count', ∀ after, item :: readFrom count none (before ++ after) =
          Feed.ofTokens ts ++ readFrom count' none after := by
      intro item count h
      cases ts with
      | nil => cases h
      | cons t ts =>
        obtain ⟨rfl, htail⟩ := List.cons.inj h
        obtain ⟨count', hafter⟩ := ih htail
        exact ⟨count', fun after => congrArg (Except.ok t :: ·) (hafter after)⟩
    cases line with
    | undecodable => exact hcomplete h
    | text cs =>
      cases pending with
      | none =>
        simp only [List.cons_append, readFrom] at h ⊢
        split at h
        next hblank => simpa only [hblank, if_true] using ih h
        next hblank =>
          split at h
          next hbreaks =>
            simpa only [hblank, hbreaks, Bool.false_eq_true, if_true, if_false] using ih h
          next hbreaks =>
            simpa only [hblank, hbreaks, Bool.false_eq_true, if_false] using hcomplete h
      | some start =>
        simp only [List.cons_append, readFrom] at h ⊢
        split at h
        next hbreaks => simpa only [hbreaks, if_true] using ih h
        next hbreaks => simpa only [hbreaks, Bool.false_eq_true, if_false] using hcomplete h

/-- A malformed line behind lines that are read without errors is an error. -/
lemma exists_read_malformed {before : List RawLine} {ts : List Token} {line : RawLine}
    (hbefore : read before = Feed.ofTokens ts) (hline : Malformed line) (after : List RawLine) :
    ∃ e rest, read (before ++ line :: after) = Feed.ofTokens ts ++ .error e :: rest := by
  obtain ⟨count, hafter⟩ := readFrom_append hbefore
  rw [read, hafter]
  cases line with
  | undecodable => exact ⟨_, _, rfl⟩
  | text cs =>
    obtain ⟨hblank, hbreaks, fault, hfault⟩ := hline
    refine ⟨⟨.malformedDump fault (String.ofList (Text.dropEndWhile (· = '\r') cs)), count + 1⟩,
      readFrom (count + 1) none after, ?_⟩
    simp only [readFrom, hblank, hbreaks, Bool.false_eq_true, if_false, complete, hfault]

end Dump

namespace Session

open Dump

/-- **A failing source never gives a program.** Over tokens with a failure behind them, parsing
never succeeds, and if the tokens alone are a program, the result is that failure. So a dump in
which an error is read gives no program, and that is the case where a malformed line stands behind
a complete dump, whatever comes after it.

**Proof sketch.** The two runs, with the failure and without it, are in lockstep until all classes
have been read. Then both have looked beyond the last token, where the one has met the failure. -/
theorem failing_source_never_parses (ts : List Token) :
    (∀ (e : SyntaxError) (rest : Feed) (p : Program),
        Program.ofFeed (Feed.ofTokens ts ++ .error e :: rest) ≠ .ok p) ∧
      (∀ (e : SyntaxError) (rest : Feed) (p : Program), Program.ofTokens ts = .ok p →
        Program.ofFeed (Feed.ofTokens ts ++ .error e :: rest) = .error e) ∧
      (∀ (dump : ByteArray) (e : SyntaxError) (p : Program), .error e ∈ read (ofBytes dump) →
        parseDump dump ≠ .ok p) ∧
      ∀ (dump : ByteArray) (before after : List RawLine) (line : RawLine) (p : Program),
        ofBytes dump = before ++ line :: after → read before = Feed.ofTokens ts →
        Malformed line → parseDump dump ≠ .ok p := by
  refine ⟨Program.ofFeed_ne_ok ts, fun e rest p h => Program.ofFeed_eq_error h e rest, ?_, ?_⟩
  · intro dump e p he
    obtain ⟨us, e', rest, hfeed⟩ := Feed.exists_eq_append_error he
    rw [parseDump, hfeed]
    exact Program.ofFeed_ne_ok us e' rest p
  · intro dump before after line p hdump hbefore hline
    obtain ⟨e, rest, hread⟩ := exists_read_malformed hbefore hline after
    rw [parseDump, hdump, hread]
    exact Program.ofFeed_ne_ok ts e rest p

/-- The tokens of a program with nothing in it. -/
def emptyClass : List Token :=
  ClassLang.tokenize "public class A \x7b \x7d"

/-- The dump of a program with a line behind it that stands for nothing. -/
def strayDump : String :=
  write emptyClass ++ "stray\n"

/-- A stray line behind a complete program is not passed over. -/
theorem failing_source_never_parses_strayDump :
    (∃ p, Program.ofTokens emptyClass = .ok p) ∧
      Program.ofFeed (Feed.ofTokens emptyClass ++ [.error ⟨.undecodableDump, 0⟩]) =
        .error ⟨.undecodableDump, 0⟩ ∧
      Malformed (.text "stray".toList) ∧ ∀ p, parseDump strayDump.toUTF8 ≠ .ok p := by
  have hok : (Program.ofTokens emptyClass).isOk = true := by decide +kernel
  obtain ⟨p, hp⟩ : ∃ p, Program.ofTokens emptyClass = .ok p := by
    cases hrun : Program.ofTokens emptyClass with
    | ok p => exact ⟨p, rfl⟩
    | error e => simp [hrun, Except.isOk, Except.toBool] at hok
  have hlines : ofBytes strayDump.toUTF8 =
      ofText (write emptyClass) ++ [.text "stray".toList] := by
    -- Lists of characters are evaluated much faster than bytes.
    rw [ofBytes_toUTF8, strayDump, ofText, ofText, String.toList_append, toList_write]
    decide +kernel
  have hdumpable : ∀ t ∈ emptyClass, Dumpable t := by
    have hplain : ∀ t ∈ emptyClass,
        '\n' ∉ t.lexeme.toList ∧ t.line < numberBound ∧ t.id < numberBound := by
      decide +kernel
    intro t ht
    obtain ⟨hlexeme, hline, hid⟩ := hplain t ht
    exact ⟨.inl hlexeme, hline, hid⟩
  have hstray : Malformed (.text "stray".toList) := ⟨by decide, by decide, .noMark, by rfl⟩
  obtain ⟨-, hfailure, -, hdump⟩ := failing_source_never_parses emptyClass
  exact ⟨⟨p, hp⟩, hfailure _ [] p hp, hstray,
    fun p => hdump _ _ [] _ p hlines (read_ofText_write hdumpable) hstray⟩

end Session

end ClassLang
