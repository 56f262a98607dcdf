import ClassLang.Proofs.Text.Marks
import ClassLang.Token.Dump
import Mathlib.Data.List.DropRight

set_option autoImplicit false

/-!
# Reading a dump of tokens back

A dump writes lexemes as they are. It is read back all the same, since only a string literal can run
over several lines, and since the mark behind a lexeme is looked for from the end. Which lexemes
survive is told by `Dump.DumpableLexeme`: those on one line, and those that start with a quotation
mark and do not show the mark that ends a lexeme before their last line. These are also the only
lexemes that a reader ever gives.

## Main definitions

* `ClassLang.Dump.DumpableLexeme`, `ClassLang.Dump.Dumpable` — what a dump can hold.

## Main results

* `ClassLang.Dump.read_ofText_write` — a dump of dumpable tokens is read back.
* `ClassLang.Dump.dumpable_of_mem_readFrom` — every token that is read is dumpable.
* `ClassLang.Dump.read_write_eq_ofTokens_iff`, `ClassLang.Dump.reads_back_exactly_dumpable` — both,
  for dumps as sequences of bytes.
-/

namespace ClassLang

/-! ## Numbers and white space -/

namespace Text

variable {cs : List Char}

lemma isWhiteSpace_of_isDigit {c : Char} (h : c.isDigit = true) : isWhiteSpace c = false := by
  obtain ⟨hlow, hhigh⟩ := Char.isDigit_iff_toNat.1 h
  change 48 ≤ c.toNat at hlow
  change c.toNat ≤ 57 at hhigh
  simp only [isWhiteSpace, whiteSpaceRanges, List.any_cons, List.any_nil, Bool.or_false,
    Bool.or_eq_false_iff, Bool.and_eq_false_iff, decide_eq_false_iff_not]
  omega

/-- A text without white space is trimmed already. -/
lemma trim_of_forall (h : ∀ c ∈ cs, isWhiteSpace c = false) : trim cs = cs := by
  have hstart : trimStart cs = cs := by
    cases cs with
    | nil => rfl
    | cons c cs => simp [trimStart, h c (by simp)]
  rw [trim, hstart]
  refine List.rdropWhile_eq_self_iff.2 fun hne => ?_
  simp [h _ (List.getLast_mem hne)]

/-- A text that starts with a character other than white space is not blank. -/
lemma trim_cons_isEmpty {c : Char} (hc : isWhiteSpace c = false) :
    (trim (c :: cs)).isEmpty = false := by
  have hstart : trimStart (c :: cs) = c :: cs := by simp [trimStart, hc]
  rw [trim, hstart, List.isEmpty_eq_false_iff]
  intro hnil
  have hall := List.rdropWhile_eq_nil_iff.1 hnil c (by simp)
  simp [hc] at hall

/-- Dropping from the end stops at a character that is kept. -/
lemma dropEndWhile_append_cons {p : Char → Bool} {c : Char} (hc : p c = false)
    (front : List Char) :
    dropEndWhile p (front ++ c :: cs) = front ++ c :: dropEndWhile p cs := by
  simp only [dropEndWhile, List.reverse_append, List.reverse_cons, List.append_assoc,
    List.dropWhile_append]
  split <;> simp_all

end Text

namespace Number

/-- A number is read back from its digits. -/
lemma readBelow?_toDigits {bound n : Nat} (h : n < bound) :
    readBelow? bound (Nat.toDigits 10 n) = some n := by
  have hdigits : (Nat.toDigits 10 n).all Char.isDigit = true :=
    List.all_eq_true.2 fun c hc => Nat.isDigit_of_mem_toDigits (by decide) (by decide) hc
  have hread : readDigits? (Nat.toDigits 10 n) = some n := by
    simp only [readDigits?, hdigits, Bool.and_true, Bool.not_eq_true', List.isEmpty_eq_false_iff,
      ne_eq, Nat.toDigits_ne_nil, not_false_eq_true, if_true]
    exact congrArg some Nat.ofDigitChars_ten_toDigits
  -- No digit is a plus sign, so the digits are read from the first one on.
  have hplus : ∀ digits, Nat.toDigits 10 n ≠ '+' :: digits := by
    intro digits heq
    rw [heq] at hdigits
    simp at hdigits
  have hmatch : readBelow? bound (Nat.toDigits 10 n) =
      (readDigits? (Nat.toDigits 10 n)).filter (· < bound) := by
    unfold readBelow?
    split
    next digits heq => exact absurd heq (hplus digits)
    next => rfl
  simp [hmatch, hread, h]

lemma lt_of_readBelow? {bound n : Nat} {cs : List Char} (h : readBelow? bound cs = some n) :
    n < bound := by
  simpa using (Option.filter_eq_some_iff.1 h).2

end Number

namespace Dump

/-! ## What a dump can hold -/

/-- Lexemes that a dump can hold: those without a line feed, and those that start with a quotation
mark and in which the mark behind a lexeme does not stand before the last line feed. -/
def DumpableLexeme (lexeme : List Char) : Prop :=
  '\n' ∉ lexeme ∨
    ∃ before after, lexeme = before ++ '\n' :: after ∧ '\n' ∉ after ∧
      lexeme.head? = some '"' ∧ ¬ "@ Line: ".toList <:+: before

/-- Tokens that a dump can hold. Their numbers have 32 bits. -/
structure Dumpable (t : Token) : Prop where
  lexeme : DumpableLexeme t.lexeme.toList
  line : t.line < numberBound
  id : t.id < numberBound

variable {t : Token}

/-! ## The line of a token -/

/-- What stands in front of the lexeme in the line of a token. -/
def opening (t : Token) : List Char :=
  startMark ++ (t.kind.name.toList ++ lexemeMark)

/-- What stands behind the lexeme in the line of a token. -/
def closing (t : Token) : List Char :=
  lineMark ++ (Nat.toDigits 10 t.line ++ idMark ++ Nat.toDigits 10 t.id)

lemma toList_line (t : Token) :
    (line t).toList = opening t ++ (t.lexeme.toList ++ closing t) := by
  unfold line
  simp only [String.toList_append, Nat.toString_eq_repr, Nat.toList_repr]
  change startMark ++ t.kind.name.toList ++ lexemeMark ++ t.lexeme.toList ++ lineMark ++
    Nat.toDigits 10 t.line ++ idMark ++ Nat.toDigits 10 t.id = _
  simp only [opening, closing, List.append_assoc]

lemma space_not_mem_name (kind : Kind) : ' ' ∉ kind.name.toList := by
  cases kind <;> decide

lemma feed_not_mem_opening (t : Token) : '\n' ∉ opening t := by
  have hname : '\n' ∉ t.kind.name.toList := by cases t.kind <;> decide
  simp only [opening, List.mem_append, not_or]
  exact ⟨by decide, hname, by decide⟩

private lemma not_mem_toDigits {c : Char} (hc : c.isDigit = false) (n : Nat) :
    c ∉ Nat.toDigits 10 n := by
  intro hmem
  rw [Nat.isDigit_of_mem_toDigits (by decide) (by decide) hmem] at hc
  exact Bool.noConfusion hc

/-- No character but a digit and those of the mark is in the numbers of a token. -/
private lemma not_mem_numbers {c : Char} (hc : c.isDigit = false) (hid : c ∉ idMark) (t : Token) :
    c ∉ Nat.toDigits 10 t.line ++ idMark ++ Nat.toDigits 10 t.id := by
  simp only [List.mem_append, not_or]
  exact ⟨⟨not_mem_toDigits hc _, hid⟩, not_mem_toDigits hc _⟩

lemma feed_not_mem_closing (t : Token) : '\n' ∉ closing t := by
  rw [closing, List.mem_append, not_or]
  exact ⟨by decide, not_mem_numbers (by decide) (by decide) t⟩

/-- The mark in front of the lexeme is found behind the name of a kind. -/
private lemma cut_lexemeMark (kind : Kind) (rest : List Char) :
    Text.cut lexemeMark (kind.name.toList ++ lexemeMark ++ rest) = some (kind.name.toList, rest) :=
  Text.cut_of_not_mem (by decide) (space_not_mem_name kind)

private lemma behind?_opening (t : Token) (rest : List Char) :
    Text.behind? startMark (opening t ++ rest) =
      some (t.kind.name.toList ++ lexemeMark ++ rest) := by
  rw [opening, List.append_assoc, Text.behind?_append]

/-- The line of a token breaks off after a part of a string literal without the closing mark. -/
lemma breaksOff_opening_append (t : Token) (part : List Char) :
    breaksOff (opening t ++ part) =
      (part.head? = some '"' && !Text.contains lineMark part) := by
  simp only [breaksOff, behind?_opening, cut_lexemeMark]

/-- The line of a token is complete. -/
lemma breaksOff_line (t : Token) :
    breaksOff (opening t ++ (t.lexeme.toList ++ closing t)) = false := by
  have hmark : Text.contains lineMark (t.lexeme.toList ++ closing t) = true :=
    Text.contains_iff.2 ⟨t.lexeme.toList, _, List.append_assoc _ _ _⟩
  rw [breaksOff_opening_append, hmark, Bool.not_true, Bool.and_false]

/-- The line of a token is read as that token. -/
lemma parseLine_line (hline : t.line < numberBound) (hid : t.id < numberBound) :
    parseLine (opening t ++ (t.lexeme.toList ++ closing t)) = .ok t := by
  have hdigits : ∀ n, Text.trim (Nat.toDigits 10 n) = Nat.toDigits 10 n := fun n =>
    Text.trim_of_forall fun c hc =>
      Text.isWhiteSpace_of_isDigit (Nat.isDigit_of_mem_toDigits (by decide) (by decide) hc)
  have hlast : Text.cutLast lineMark (t.lexeme.toList ++ closing t) =
      some (t.lexeme.toList, Nat.toDigits 10 t.line ++ idMark ++ Nat.toDigits 10 t.id) := by
    rw [closing, ← List.append_assoc]
    exact Text.cutLast_of_not_mem (m := '@') (by decide) (by decide)
      (not_mem_numbers (by decide) (by decide) t)
  have hfirst : Text.cut idMark (Nat.toDigits 10 t.line ++ idMark ++ Nat.toDigits 10 t.id) =
      some (Nat.toDigits 10 t.line, Nat.toDigits 10 t.id) := by
    exact Text.cut_of_not_mem (m := ' ') (by decide) (not_mem_toDigits (by decide) _)
  simp only [parseLine, behind?_opening, cut_lexemeMark, String.ofList_toList, Kind.ofName?_name,
    hlast, hfirst, hdigits, Number.readBelow?_toDigits hline, Number.readBelow?_toDigits hid]
  rfl

/-! ## Reading what was written -/

/-- The lines of a text as they are read. -/
def rawLines (cs : List Char) : List RawLine :=
  (Text.lines '\n' cs).map .text

private lemma rawLines_append_feed {cs : List Char} (h : '\n' ∉ cs) (rest : List Char) :
    rawLines (cs ++ '\n' :: rest) = .text cs :: rawLines rest := by
  rw [rawLines, Text.lines_append_feed h]
  rfl

/-- A line that breaks off starts with a mark and is not blank. -/
private lemma trim_of_breaksOff {cs : List Char} (h : breaksOff cs = true) :
    (Text.trim cs).isEmpty = false := by
  rw [breaksOff] at h
  cases hbehind : Text.behind? startMark cs with
  | none => simp [hbehind] at h
  | some body =>
    obtain rfl := Text.eq_append_of_behind? hbehind
    exact Text.trim_cons_isEmpty (c := 'T') (by decide)

/-- A text that breaks off at each of its line feeds, and not at its end, is read to its end.

**Proof sketch.** Induction on the length of what is left of the text. The next line either ends
the text, or is followed by a line feed at which the text breaks off once more. -/
private lemma readFrom_pending {text : List Char} (hstop : breaksOff text = false)
    (hbreaks : ∀ p q, text = p ++ '\n' :: q → breaksOff p = true) (start count : Nat)
    (p q rest : List Char) (htext : text = p ++ '\n' :: q) :
    ∃ count', readFrom count (some (start, p)) (rawLines (q ++ '\n' :: rest)) =
      complete start text :: readFrom count' none (rawLines rest) := by
  induction hlength : q.length using Nat.strong_induction_on generalizing count p q with
  | _ n ih =>
    by_cases hfeed : '\n' ∈ q
    · obtain ⟨a, b, rfl, ha⟩ := List.eq_append_cons_of_mem hfeed
      have hsplit : text = (p ++ '\n' :: a) ++ '\n' :: b := by simp [htext]
      obtain ⟨count', hread⟩ :=
        ih b.length (by simp [← hlength]; omega) (count + 1) (p ++ '\n' :: a) b hsplit rfl
      refine ⟨count', ?_⟩
      rw [List.append_assoc, List.cons_append, rawLines_append_feed ha, readFrom]
      simpa only [hbreaks _ _ hsplit, if_true] using hread
    · refine ⟨count + 1, ?_⟩
      rw [rawLines_append_feed hfeed, readFrom]
      simp only [← htext, hstop, if_false, Bool.false_eq_true]

/-- A text that is not blank, and that breaks off at each of its line feeds but not at its end, is
read to its end. -/
private lemma readFrom_text {text : List Char} (hblank : (Text.trim text).isEmpty = false)
    (hstop : breaksOff text = false)
    (hbreaks : ∀ p q, text = p ++ '\n' :: q → breaksOff p = true) (count : Nat)
    (rest : List Char) :
    ∃ count', readFrom count none (rawLines (text ++ '\n' :: rest)) =
      complete (count + 1) text :: readFrom count' none (rawLines rest) := by
  by_cases hfeed : '\n' ∈ text
  · obtain ⟨p, q, rfl, hp⟩ := List.eq_append_cons_of_mem hfeed
    have hopen := hbreaks p q rfl
    obtain ⟨count', hread⟩ := readFrom_pending hstop hbreaks (count + 1) (count + 1) p q rest rfl
    refine ⟨count', ?_⟩
    rw [List.append_assoc, List.cons_append, rawLines_append_feed hp, readFrom]
    simpa only [trim_of_breaksOff hopen, hopen, if_true, if_false, Bool.false_eq_true] using hread
  · refine ⟨count + 1, ?_⟩
    rw [rawLines_append_feed hfeed, readFrom]
    simp only [hblank, hstop, if_false, Bool.false_eq_true]

/-- The line of a dumpable token breaks off at each of its line feeds: they all belong to the
lexeme, and no part of the lexeme up to one of them has the closing mark. -/
private lemma breaksOff_of_line_eq (h : DumpableLexeme t.lexeme.toList) {p q : List Char}
    (heq : opening t ++ (t.lexeme.toList ++ closing t) = p ++ '\n' :: q) : breaksOff p = true := by
  obtain ⟨part, rfl, hpart⟩ :=
    Text.append_eq_append_cons_of_not_mem_left (feed_not_mem_opening t) heq
  obtain ⟨more, hlexeme, -⟩ :=
    Text.append_eq_append_cons_of_not_mem_right (feed_not_mem_closing t) hpart
  rcases h with hnone | ⟨before, after, hlast, hafter, hquote, hmark⟩
  · exact absurd (by simp [hlexeme]) hnone
  have hhead : part.head? = some '"' := by
    cases part with
    | nil => simp [hlexeme] at hquote
    | cons c part => simpa [hlexeme] using hquote
  have hearly : part <+: before := by
    have hsame : (before ++ ['\n']) ++ after = part ++ '\n' :: more := by
      rw [← hlexeme, hlast, List.append_assoc, List.singleton_append]
    obtain ⟨b, hb, -⟩ := Text.append_eq_append_cons_of_not_mem_right hafter hsame
    have hbefore : part <+: before ++ ['\n'] := ⟨_, hb.symm⟩
    refine List.prefix_of_prefix_length_le hbefore (List.prefix_append _ _) ?_
    have := congrArg List.length hb
    simp only [List.length_append, List.length_cons, List.length_nil] at this
    omega
  have hcontains : Text.contains lineMark part = false := by
    rw [← Bool.not_eq_true, Text.contains_iff]
    exact fun hinside => hmark (hinside.trans hearly.isInfix)
  rw [breaksOff_opening_append, hhead, hcontains]
  rfl

/-- The line of a token does not end with a carriage return. -/
private lemma complete_line (h : Dumpable t) (start : Nat) :
    complete start (opening t ++ (t.lexeme.toList ++ closing t)) = .ok t := by
  have hkeep : Text.dropEndWhile (· = '\r') (opening t ++ (t.lexeme.toList ++ closing t)) =
      opening t ++ (t.lexeme.toList ++ closing t) := by
    refine List.rdropWhile_eq_self_iff.2 fun hne => ?_
    have hlast : ∀ h', (opening t ++ (t.lexeme.toList ++ closing t)).getLast h' =
        (Nat.toDigits 10 t.id).getLast Nat.toDigits_ne_nil := by
      intro h'
      simp [closing]
    rw [hlast]
    have hdigit := Nat.isDigit_of_mem_toDigits (by decide) (by decide)
      (List.getLast_mem (Nat.toDigits_ne_nil (n := t.id) (b := 10)))
    intro hreturn
    rw [of_decide_eq_true hreturn] at hdigit
    exact absurd hdigit (by decide)
  simp only [complete, hkeep, parseLine_line h.line h.id]

/-- The line of a dumpable token is read as that token, whatever follows it. -/
private lemma readFrom_line (h : Dumpable t) (count : Nat) (rest : List Char) :
    ∃ count', readFrom count none
        (rawLines (opening t ++ (t.lexeme.toList ++ closing t) ++ '\n' :: rest)) =
      .ok t :: readFrom count' none (rawLines rest) := by
  rw [← complete_line h (count + 1)]
  refine readFrom_text ?_ (breaksOff_line t) (fun p q => breaksOff_of_line_eq h.lexeme) count rest
  exact Text.trim_cons_isEmpty (c := 'T') (by decide)

lemma toList_write (ts : List Token) : (write ts).toList =
    ts.flatMap fun t => opening t ++ (t.lexeme.toList ++ closing t) ++ ['\n'] := by
  simp only [write, String.toList_join, List.flatMap_map, String.toList_append, toList_line]
  rfl

/-- **Reading undoes writing.** A dump of dumpable tokens gives back these tokens and no error. -/
theorem read_ofText_write {ts : List Token} (h : ∀ t ∈ ts, Dumpable t) :
    read (ofText (write ts)) = Feed.ofTokens ts := by
  suffices hfrom : ∀ count, readFrom count none (rawLines (write ts).toList) = Feed.ofTokens ts from
    hfrom 0
  rw [toList_write]
  induction ts with
  | nil => exact fun count => rfl
  | cons t ts ih =>
    intro count
    rw [List.flatMap_cons, List.append_assoc, List.singleton_append]
    obtain ⟨count', hread⟩ := readFrom_line (h t (by simp)) count (ts.flatMap _)
    rw [hread, ih (fun t ht => h t (by simp [ht]))]
    rfl

/-! ## Whatever is read is dumpable -/

/-- What a line says if it is read as a token. -/
private lemma parseLine_eq_ok {text : List Char} (h : parseLine text = .ok t) :
    ∃ body kindName rest numbers, Text.behind? startMark text = some body ∧
      Text.cut lexemeMark body = some (kindName, rest) ∧
      Text.cutLast lineMark rest = some (t.lexeme.toList, numbers) ∧
      t.line < numberBound ∧ t.id < numberBound := by
  simp only [parseLine] at h
  split at h
  case h_2 => cases h
  rename_i body hbody
  split at h
  case h_2 => cases h
  rename_i kindName rest hrest
  split at h
  case h_2 => cases h
  rename_i kind hkind
  split at h
  case h_2 => cases h
  rename_i lexeme numbers hlexeme
  split at h
  case h_2 => cases h
  rename_i lineText idText hnumbers
  split at h
  case h_2 => cases h
  rename_i line hline
  split at h
  case h_2 => cases h
  rename_i id hid
  obtain rfl := Except.ok.inj h
  refine ⟨body, kindName, rest, numbers, hbody, hrest, ?_, Number.lt_of_readBelow? hline,
    Number.lt_of_readBelow? hid⟩
  rw [hlexeme, String.toList_ofList]

/-- A line without line feeds is read as a dumpable token. -/
private lemma dumpable_of_parseLine {text : List Char} (hfeed : '\n' ∉ text)
    (h : parseLine text = .ok t) : Dumpable t := by
  obtain ⟨body, kindName, rest, numbers, hbody, hrest, hlexeme, hline, hid⟩ := parseLine_eq_ok h
  refine ⟨.inl fun hmem => hfeed ?_, hline, hid⟩
  rw [Text.eq_append_of_behind? hbody, Text.append_of_cut hrest, Text.append_of_cutLast hlexeme]
  simp [hmem]

/-- A line that broke off, with the line that ends it, is read as a dumpable token.

**Proof sketch.** The first marks are found where they were found before. What broke off is a part
of a lexeme that starts with a quotation mark and is without the closing mark, and so that mark
stands in the last line: it has no line feed in it. -/
private lemma dumpable_of_parseLine_append {text last : List Char} (hbreaks : breaksOff text = true)
    (hlast : '\n' ∉ last) (h : parseLine (text ++ '\n' :: last) = .ok t) : Dumpable t := by
  obtain ⟨body, kindName, rest, numbers, hbody, hrest, hlexeme, hline, hid⟩ := parseLine_eq_ok h
  simp only [breaksOff] at hbreaks
  split at hbreaks
  case h_1 => cases hbreaks
  rename_i front hfront
  split at hbreaks
  case h_1 => cases hbreaks
  rename_i name part hpart
  simp only [Bool.and_eq_true, decide_eq_true_eq, Bool.not_eq_true'] at hbreaks
  obtain ⟨hquote, hmark⟩ := hbreaks
  have hbody' : body = front ++ '\n' :: last := by
    have htext := Text.eq_append_of_behind? hbody
    rw [Text.eq_append_of_behind? hfront, List.append_assoc] at htext
    exact (List.append_cancel_left htext).symm
  have hrest' : rest = part ++ '\n' :: last := by
    rw [hbody', Text.cut_append hpart] at hrest
    exact (Prod.mk.inj (Option.some.inj hrest)).2.symm
  have hcut : part ++ '\n' :: last = t.lexeme.toList ++ (lineMark ++ numbers) := by
    rw [← hrest', Text.append_of_cutLast hlexeme, List.append_assoc]
  rcases List.append_eq_append_iff.1 hcut with ⟨a, hlex, hlines⟩ | ⟨a, hearly, hlines⟩
  · cases a with
    | nil =>
      have hhead : some '\n' = some '@' := congrArg List.head? hlines
      exact absurd hhead (by decide)
    | cons c a =>
      obtain ⟨rfl, hlast'⟩ := List.cons.inj hlines
      have ha : '\n' ∉ a := fun hmem => hlast (by simp [hlast', hmem])
      refine ⟨.inr ⟨part, a, hlex, ha, ?_, ?_⟩, hline, hid⟩
      · rw [hlex, List.head?_append, hquote]
        rfl
      · rw [← Bool.not_eq_true, Text.contains_iff] at hmark
        exact hmark
  · obtain ⟨b, rfl, -⟩ :=
      Text.append_eq_append_cons_of_not_mem_left (x := lineMark) (by decide) hlines
    have hinside : lineMark <:+: part := ⟨t.lexeme.toList, b, by rw [hearly, List.append_assoc]⟩
    rw [Text.contains_iff.2 hinside] at hmark
    exact Bool.noConfusion hmark

private lemma parseLine_of_complete {start : Nat} {text : List Char}
    (h : complete start text = .ok t) :
    parseLine (Text.dropEndWhile (· = '\r') text) = .ok t := by
  simp only [complete] at h
  split at h
  next hparse => rwa [← Except.ok.inj h]
  next => cases h

/-- A line that waits for its end is one that breaks off. -/
def Waits : Option (Nat × List Char) → Prop
  | none => True
  | some (_, text) => breaksOff text = true

lemma waits_none : Waits none := trivial

/-- The tokens that are read from lines without line feeds are dumpable. -/
theorem dumpable_of_mem_readFrom {count : Nat} {pending : Option (Nat × List Char)}
    {lines : List RawLine} (hpending : Waits pending)
    (hlines : ∀ cs, .text cs ∈ lines → '\n' ∉ cs)
    (h : .ok t ∈ readFrom count pending lines) : Dumpable t := by
  fun_induction readFrom count pending lines with
  | case1 => cases h
  | case2 => simp at h
  | case3 count pending rest ih =>
    have hrest : .ok t ∈ readFrom count none rest := by simpa using h
    exact ih waits_none (fun cs hcs => hlines cs (by simp [hcs])) hrest
  | case4 count cs rest hblank ih =>
    exact ih waits_none (fun cs hcs => hlines cs (by simp [hcs])) h
  | case5 count cs rest hblank hbreaks ih =>
    exact ih hbreaks (fun cs hcs => hlines cs (by simp [hcs])) h
  | case6 count cs rest hblank hbreaks ih =>
    rcases List.mem_cons.1 h with hfirst | hrest
    · refine dumpable_of_parseLine ?_ (parseLine_of_complete hfirst.symm)
      exact fun hfeed => hlines cs (by simp) ((List.rdropWhile_prefix _ cs).subset hfeed)
    · exact ih waits_none (fun cs hcs => hlines cs (by simp [hcs])) hrest
  | case7 count cs rest start text text' hbreaks ih =>
    exact ih hbreaks (fun cs hcs => hlines cs (by simp [hcs])) h
  | case8 count cs rest start text text' hbreaks ih =>
    rcases List.mem_cons.1 h with hfirst | hrest
    · have hparse := parseLine_of_complete hfirst.symm
      rw [Text.dropEndWhile_append_cons (by decide)] at hparse
      refine dumpable_of_parseLine_append hpending ?_ hparse
      exact fun hfeed => hlines cs (by simp) ((List.rdropWhile_prefix _ cs).subset hfeed)
    · exact ih waits_none (fun cs hcs => hlines cs (by simp [hcs])) hrest

/-! ## Dumps as sequences of bytes -/

lemma toList_eq_toList_data (bytes : ByteArray) : bytes.toList = bytes.data.toList := by
  have hloop : ∀ i r, ByteArray.toList.loop bytes i r = r.reverse ++ bytes.data.toList.drop i := by
    intro i r
    fun_induction ByteArray.toList.loop bytes i r with
    | case1 i r hi ih =>
      have hi' : i < bytes.data.toList.length := by simpa using hi
      have hbyte : bytes.get! i = bytes.data.toList.get ⟨i, hi'⟩ := getElem!_pos bytes.data i hi
      rw [ih, List.drop_eq_getElem_cons hi', hbyte]
      simp
    | case2 i r hi =>
      have hi' : bytes.data.toList.length ≤ i := by simpa using hi
      rw [List.drop_of_length_le hi', List.append_nil]
  rw [ByteArray.toList, hloop]
  rfl

/-- The line feed is the only character with the byte 10 in its code. -/
lemma ten_not_mem_utf8EncodeChar {c : Char} (hc : c ≠ '\n') : 10 ∉ String.utf8EncodeChar c := by
  have hval : c.val.toNat ≠ 10 := fun h => hc (Char.ext (UInt32.toNat.inj h))
  have hbyte : ∀ n : Nat, n % 256 ≠ 10 → (10 : UInt8) ≠ UInt8.ofNat n := by
    intro n hn h
    have hnat := congrArg UInt8.toNat h
    simp only [UInt8.toNat_ofNat', UInt8.reduceToNat] at hnat
    omega
  -- All bytes of a longer code are at least 128.
  simp only [String.utf8EncodeChar]
  split_ifs <;> simp only [List.mem_cons, List.not_mem_nil, or_false, not_or]
  · exact hbyte _ (by omega)
  · exact ⟨hbyte _ (by omega), hbyte _ (by omega)⟩
  · exact ⟨hbyte _ (by omega), hbyte _ (by omega), hbyte _ (by omega)⟩
  · exact ⟨hbyte _ (by omega), hbyte _ (by omega), hbyte _ (by omega), hbyte _ (by omega)⟩

/-- A text is decoded from its code and from nothing else. -/
lemma fromUTF8?_eq_some_iff {bytes : List UInt8} {text : String} :
    String.fromUTF8? ⟨bytes.toArray⟩ = some text ↔
      bytes = text.toList.flatMap String.utf8EncodeChar := by
  have hmk : ∀ bytes : List UInt8, ByteArray.mk bytes.toArray = bytes.toByteArray :=
    fun bytes => ByteArray.ext (by simp)
  constructor
  · intro h
    unfold String.fromUTF8? at h
    split at h
    next hvalid =>
      have hcode : text.toByteArray = bytes.toByteArray := by
        rw [← Option.some.inj h, ← hmk]
        rfl
      rw [← String.utf8Encode_toList] at hcode
      exact (List.toByteArray_inj.1 hcode).symm
    next => cases h
  · rintro rfl
    have hvalid : (text.toList.flatMap String.utf8EncodeChar).toByteArray.IsValidUTF8 :=
      ⟨text.toList, rfl⟩
    rw [hmk, String.fromUTF8?, dif_pos hvalid]
    exact congrArg some (String.toByteArray_inj.1 String.utf8Encode_toList)

/-- The lines of an encoded text are those of the text. -/
lemma ofBytes_toUTF8 (text : String) : ofBytes text.toUTF8 = ofText text := by
  have hbytes : text.toUTF8.toList = text.toList.flatMap String.utf8EncodeChar := by
    rw [toList_eq_toList_data, String.toUTF8_eq_toByteArray, ← String.utf8Encode_toList,
      List.utf8Encode, List.toList_data_toByteArray]
  have hfeed : String.utf8EncodeChar '\n' = [10] := rfl
  rw [ofBytes, hbytes, Text.lines_flatMap hfeed (fun c => ten_not_mem_utf8EncodeChar)
    (fun c => String.utf8EncodeChar_ne_nil), List.map_map]
  refine List.map_congr_left fun l hl => ?_
  have hdecoded : String.fromUTF8? ⟨(l.flatMap String.utf8EncodeChar).toArray⟩ =
      some (String.ofList l) := fromUTF8?_eq_some_iff.2 (by rw [String.toList_ofList])
  simp [hdecoded]

/-- No line of a sequence of bytes has a line feed in it. -/
lemma feed_not_mem_of_mem_ofBytes {bytes : ByteArray} {cs : List Char}
    (h : .text cs ∈ ofBytes bytes) : '\n' ∉ cs := by
  obtain ⟨l, hl, hdecoded⟩ := List.mem_map.1 h
  cases htext : String.fromUTF8? ⟨l.toArray⟩ with
  | none => simp [htext] at hdecoded
  | some text =>
    obtain rfl : text.toList = cs := by simpa [htext] using hdecoded
    intro hfeed
    refine Text.not_mem_of_mem_lines hl ?_
    rw [fromUTF8?_eq_some_iff.1 htext]
    exact List.mem_flatMap.2 ⟨'\n', hfeed, by decide⟩

/-- Every token that is read from a dump is dumpable, whatever the dump. -/
lemma dumpable_of_mem_read {bytes : ByteArray} (h : .ok t ∈ read (ofBytes bytes)) : Dumpable t :=
  dumpable_of_mem_readFrom waits_none (fun _ => feed_not_mem_of_mem_ofBytes) h

/-- Tokens that are read without errors are all dumpable. -/
lemma dumpable_of_read_eq {bytes : ByteArray} {ts : List Token}
    (h : read (ofBytes bytes) = Feed.ofTokens ts) : ∀ t ∈ ts, Dumpable t := by
  intro t ht
  have hread : .ok t ∈ read (ofBytes bytes) := by
    rw [h]
    exact List.mem_map.2 ⟨t, ht, rfl⟩
  exact dumpable_of_mem_read hread

/-- The tokens that come back from their dump are the dumpable ones. -/
theorem read_write_eq_ofTokens_iff {ts : List Token} :
    read (ofBytes (write ts).toUTF8) = Feed.ofTokens ts ↔ ∀ t ∈ ts, Dumpable t := by
  refine ⟨dumpable_of_read_eq, fun h => ?_⟩
  rw [ofBytes_toUTF8, read_ofText_write h]

/-- **A dump is read back on exactly the tokens that a reader gives.** Reading the dump of dumpable
tokens gives these tokens and no error; every token that is ever read, among whatever errors, is
dumpable; and so what was read without errors can be dumped and read again. -/
theorem reads_back_exactly_dumpable :
    (∀ ts : List Token, (∀ t ∈ ts, Dumpable t) →
        read (ofBytes (write ts).toUTF8) = Feed.ofTokens ts) ∧
      (∀ (bytes : ByteArray) (t : Token), .ok t ∈ read (ofBytes bytes) → Dumpable t) ∧
      ∀ (bytes : ByteArray) (ts : List Token), read (ofBytes bytes) = Feed.ofTokens ts →
        read (ofBytes (write ts).toUTF8) = Feed.ofTokens ts := by
  refine ⟨fun ts => read_write_eq_ofTokens_iff.2, fun bytes t => dumpable_of_mem_read, ?_⟩
  intro bytes ts hread
  exact read_write_eq_ofTokens_iff.2 (dumpable_of_read_eq hread)

/-- Tokens whose lexemes look like the marks of a dump, the second one over two lines. -/
def markedTokens : List Token :=
  [⟨.error, "@ Line: 1 Id: 2\r Lexem: @", 4294967295, 0⟩,
    ⟨.stringLiteral, "\" Lexem: @\n@ Line: 3\"", 7, 8⟩]

/-- Lexemes that look like the marks of a dump come back. -/
theorem reads_back_exactly_dumpable_markedTokens :
    (∀ t ∈ markedTokens, Dumpable t) ∧
      read (ofBytes (write markedTokens).toUTF8) = Feed.ofTokens markedTokens := by
  have hdumpable : ∀ t ∈ markedTokens, Dumpable t := by
    intro t ht
    simp only [markedTokens, List.mem_cons, List.not_mem_nil, or_false] at ht
    rcases ht with rfl | rfl
    · exact ⟨.inl (by decide), by decide, by decide⟩
    · refine ⟨.inr ⟨"\" Lexem: @".toList, "@ Line: 3\"".toList, ?_⟩, by decide, by decide⟩
      decide
  exact ⟨hdumpable, reads_back_exactly_dumpable.1 _ hdumpable⟩

end Dump

end ClassLang
