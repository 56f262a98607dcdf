import ClassLang.Proofs.Token.Numbering
import ClassLang.Session.Basic
import Mathlib.Data.List.Nodup

set_option autoImplicit false

/-!
# The numbers of tokens in a session

A session is asked to tokenize, parse, check and compile texts, in any order and with any outcome.
Each request scans its text with the interner of the session, so the interner only grows, and it
never holds a lexeme twice. Hence the number of a token stands for its lexeme from the moment the
token is returned, and no other number ever does.

## Main definitions

* `ClassLang.Session.Request`, `ClassLang.Session.Reply` — what a session is asked and what it
  answers.
* `ClassLang.Session.serve`, `ClassLang.Session.serveAll` — one request, and several in a row.
* `ClassLang.Session.Names` — the number of a token stands for its lexeme.

## Main results

* `ClassLang.Session.interner_serve` — a request changes the interner as scanning its text does.
* `ClassLang.Session.names_of_mem_returned` — all tokens returned so far are named.
* `ClassLang.Session.token_ids_name_lexemes` — numbers of tokens stand for their lexemes for good.
-/

namespace ClassLang

/-! ## Interners without repetition -/

namespace Interner

variable {known more : Interner} {lexeme : String} {id other : Nat}

/-- An interner never takes in a lexeme that it knows. -/
lemma nodup_intern (h : known.lexemes.Nodup) (lexeme : String) :
    (known.intern lexeme).2.lexemes.Nodup := by
  unfold intern
  split
  case h_1 => exact h
  case h_2 hnone =>
    have hnew : lexeme ∉ known.lexemes := by
      intro hmem
      rw [List.idxOf?, List.findIdx?_eq_none_iff] at hnone
      simpa using hnone lexeme hmem
    rw [← List.concat_eq_append]
    exact h.concat hnew

/-- As an interner grows, a number goes on standing for its lexeme. -/
lemma lexeme?_of_isPrefix (hgrows : known.lexemes <+: more.lexemes)
    (h : known.lexeme? id = some lexeme) : more.lexeme? id = some lexeme := by
  obtain ⟨tail, htail⟩ := hgrows
  cases id with
  | zero => cases h
  | succ index =>
    simp only [lexeme?] at h ⊢
    obtain ⟨hlt, -⟩ := List.getElem?_eq_some_iff.1 h
    rwa [← htail, List.getElem?_append_left hlt]

/-- Without repetition, only one number stands for a lexeme. -/
lemma eq_of_lexeme? (hnodup : known.lexemes.Nodup) (h : known.lexeme? id = some lexeme)
    (hother : known.lexeme? other = some lexeme) : id = other := by
  cases id with
  | zero => cases h
  | succ i =>
    cases other with
    | zero => cases hother
    | succ j =>
      simp only [lexeme?] at h hother
      obtain ⟨hi, -⟩ := List.getElem?_eq_some_iff.1 h
      rw [(List.getElem?_inj hi hnodup).1 (h.trans hother.symm)]

end Interner

namespace Scan

variable {known : Interner}

lemma nodup_toToken (h : known.lexemes.Nodup) (p : Piece) :
    (p.toToken known).2.lexemes.Nodup := by
  simp only [Piece.toToken]
  split
  · exact Interner.nodup_intern (Interner.nodup_intern h _) _
  · exact Interner.nodup_intern h _

lemma nodup_internAll (h : known.lexemes.Nodup) (ps : List Piece) :
    (internAll known ps).2.lexemes.Nodup := by
  induction ps generalizing known with
  | nil => exact h
  | cons p ps ih => exact ih (nodup_toToken h p)

lemma lexeme?_toToken (known : Interner) (p : Piece) :
    (p.toToken known).2.lexeme? (p.toToken known).1.id = some (p.toToken known).1.lexeme :=
  Interner.lexeme?_intern _ _

/-- The numbers of the tokens of a text stand for their lexemes. -/
lemma lexeme?_of_mem_internAll {ps : List Piece} {t : Token} (h : t ∈ (internAll known ps).1) :
    (internAll known ps).2.lexeme? t.id = some t.lexeme := by
  induction ps generalizing known with
  | nil => cases h
  | cons p ps ih =>
    rcases List.mem_cons.1 h with rfl | hlater
    · exact Interner.lexeme?_of_isPrefix (isPrefix_internAll _ ps) (lexeme?_toToken known p)
    · exact ih hlater

end Scan

/-! ## Requests -/

namespace Session

/-- What a session is asked to do with a text. -/
inductive Request where
  | tokenize (source : String)
  | parse (source : String)
  | check (source : String)
  | compile (source : String)

/-- What a session answers. -/
inductive Reply where
  | tokens (tokens : List Token)
  | program (result : Except SyntaxError Program)
  | errors (result : Except SyntaxError (List SemanticError))
  | text (result : Except CompileError String)

/-- The text of a request. -/
def Request.source : Request → String
  | tokenize source | parse source | check source | compile source => source

/-- The tokens that an answer returns. -/
def Reply.returned : Reply → List Token
  | tokens ts => ts
  | program _ | errors _ | text _ => []

/-- The answer to a request, and the session after it. -/
def serve (s : Session) : Request → Reply × Session
  | .tokenize source => (.tokens (s.tokenize source).1, (s.tokenize source).2)
  | .parse source => (.program (s.parse source).1, (s.parse source).2)
  | .check source => (.errors ((s.parse source).1.map s.check), (s.parse source).2)
  | .compile source => (.text (s.compile source).1, (s.compile source).2)

/-- The answers to requests one after the other, and the session after them. -/
def serveAll (s : Session) : List Request → List Reply × Session
  | [] => ([], s)
  | r :: rs => ((s.serve r).1 :: ((s.serve r).2.serveAll rs).1, ((s.serve r).2.serveAll rs).2)

/-- The tokens that a session returns when requests are made one after the other. -/
def returned (s : Session) (rs : List Request) : List Token :=
  (s.serveAll rs).1.flatMap Reply.returned

/-- The session after requests. -/
def after (s : Session) (rs : List Request) : Session :=
  (s.serveAll rs).2

variable {s : Session}

lemma returned_cons (s : Session) (r : Request) (rs : List Request) :
    s.returned (r :: rs) = (s.serve r).1.returned ++ (s.serve r).2.returned rs := rfl

lemma after_cons (s : Session) (r : Request) (rs : List Request) :
    s.after (r :: rs) = (s.serve r).2.after rs := rfl

lemma after_append (s : Session) (rs later : List Request) :
    s.after (rs ++ later) = (s.after rs).after later := by
  induction rs generalizing s with
  | nil => rfl
  | cons r rs ih => exact ih (s.serve r).2

/-! ## What one request does -/

/-- Whatever a request asks for and whether or not it fails, the interner changes as it does when
the text is scanned. -/
lemma interner_serve (s : Session) (r : Request) :
    (s.serve r).2.interner = (Scan.tokens s.interner r.source).2 := by
  cases r with
  | tokenize source => rfl
  | parse source => rfl
  | check source => rfl
  | compile source =>
    simp only [serve, compile, Request.source]
    split
    case h_1 hparse => rw [← congrArg Session.interner (congrArg Prod.snd hparse)]; rfl
    case h_2 hparse => rw [← congrArg Session.interner (congrArg Prod.snd hparse)]; rfl

/-- The number of a token stands for its lexeme. -/
def Names (s : Session) (t : Token) : Prop :=
  s.lexeme? t.id = some t.lexeme

lemma names_of_mem_serve {r : Request} {t : Token} (h : t ∈ (s.serve r).1.returned) :
    (s.serve r).2.Names t := by
  cases r with
  | tokenize source => exact Scan.lexeme?_of_mem_internAll h
  | parse | check | compile => cases h

lemma isPrefix_serve (s : Session) (r : Request) :
    s.interner.lexemes <+: (s.serve r).2.interner.lexemes := by
  rw [interner_serve]
  exact Scan.isPrefix_internAll _ _

lemma nodup_serve (h : s.interner.lexemes.Nodup) (r : Request) :
    (s.serve r).2.interner.lexemes.Nodup := by
  rw [interner_serve]
  exact Scan.nodup_internAll h _

/-! ## What requests in a row do -/

lemma isPrefix_after (s : Session) (rs : List Request) :
    s.interner.lexemes <+: (s.after rs).interner.lexemes := by
  induction rs generalizing s with
  | nil => exact List.prefix_rfl
  | cons r rs ih => exact (s.isPrefix_serve r).trans (ih (s.serve r).2)

lemma nodup_after (h : s.interner.lexemes.Nodup) (rs : List Request) :
    (s.after rs).interner.lexemes.Nodup := by
  induction rs generalizing s with
  | nil => exact h
  | cons r rs ih => exact ih (nodup_serve h r)

lemma Names.after {t : Token} (h : s.Names t) (rs : List Request) : (s.after rs).Names t :=
  Interner.lexeme?_of_isPrefix (s.isPrefix_after rs) h

/-- The tokens of all requests are named afterwards. -/
lemma names_of_mem_returned {rs : List Request} {t : Token} (h : t ∈ s.returned rs) :
    (s.after rs).Names t := by
  induction rs generalizing s with
  | nil => cases h
  | cons r rs ih =>
    rw [returned_cons, List.mem_append] at h
    rw [after_cons]
    rcases h with hfirst | hlater
    · exact (names_of_mem_serve hfirst).after rs
    · exact ih hlater

/-- **Numbers of tokens stand for their lexemes for good.** Take a new session with any settings, any
requests to it, and two tokens that it returns in the course of them. Whatever is asked afterwards,
the number of the first one stands for its lexeme. The two tokens have the same number exactly if
they have the same lexeme. No token has the number zero.

**Proof sketch.** Every request scans its text with the interner of the session
(`interner_serve`). That interner grows at its end only, and never holds a lexeme twice. -/
theorem token_ids_name_lexemes (settings : Settings) (requests later : List Request) (t u : Token)
    (ht : t ∈ Session.returned { settings } requests)
    (hu : u ∈ Session.returned { settings } requests) :
    (Session.after { settings } (requests ++ later)).lexeme? t.id = some t.lexeme ∧
      (t.id = u.id ↔ t.lexeme = u.lexeme) ∧ 1 ≤ t.id := by
  have hnamed : (Session.after { settings } requests).Names t := names_of_mem_returned ht
  have hnamed' : (Session.after { settings } requests).Names u := names_of_mem_returned hu
  have hnodup : (Session.after { settings } requests).interner.lexemes.Nodup :=
    nodup_after List.nodup_nil requests
  refine ⟨?_, ⟨fun hid => ?_, fun hlexeme => ?_⟩, ?_⟩
  · rw [after_append]
    exact hnamed.after later
  · rw [Names, hid] at hnamed
    exact Option.some.inj (hnamed.symm.trans hnamed')
  · rw [Names, hlexeme] at hnamed
    exact Interner.eq_of_lexeme? hnodup hnamed hnamed'
  · by_contra hzero
    rw [Names, Nat.lt_one_iff.1 (Nat.lt_of_not_le hzero)] at hnamed
    cases hnamed

/-- Texts with a sign that a number takes back, an open literal, an index to be scanned again, and no
program at all. -/
def mixedRequests : List Request :=
  [.tokenize "x = -1 'y", .compile "public class A \x7b int f = a[ z]; \x7d", .parse "class",
    .tokenize "- z -1"]

/-- The number and the lexeme of the first token of the last text, which the first text has only as
a sign that is taken back. -/
theorem token_ids_name_lexemes_retractedSign :
    ⟨.operator, "-", 1, 3⟩ ∈ Session.returned {} mixedRequests ∧
      ⟨.number, "-1", 1, 4⟩ ∈ Session.returned {} mixedRequests ∧
      (Session.after {} (mixedRequests ++ [.check "0 -"])).lexeme? 3 = some "-" := by
  have hsign : ⟨.operator, "-", 1, 3⟩ ∈ Session.returned {} mixedRequests := by decide +kernel
  have hnumber : ⟨.number, "-1", 1, 4⟩ ∈ Session.returned {} mixedRequests := by decide +kernel
  exact ⟨hsign, hnumber,
    (token_ids_name_lexemes {} mixedRequests [.check "0 -"] _ _ hsign hnumber).1⟩

end Session

end ClassLang
