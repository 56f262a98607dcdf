import ClassLang.Proofs.Grammar.Rendering

set_option autoImplicit false

/-!
# Parsers on spellings

What a parser makes of tokens depends on their kinds and lexemes, but for the lines that it copies
into its value. A parser decodes a list of spellings if it reads all tokens that spell them, and no
token more, as some value with a given property. What stands behind the tokens matters only as far
as the parser looks ahead, so that it is described by its spellings too. Decoding composes along the
steps of a parser, and never speaks of single tokens.

## Main definitions

* `ClassLang.Parser.Decodes` — a parser decodes spellings in front of other ones.

## Main results

* `ClassLang.Parser.Decodes.bind` — decoding in two steps.
* `ClassLang.Parser.decodes_expectWhere`, `ClassLang.Parser.decodes_peek_bind` — what the
  steps decode.
-/

namespace ClassLang

open Spelling (sign)

namespace Spelling

/-- The spelling of a keyword. -/
abbrev word (text : String) : Spelling := (.keyword, text)

/-- The spelling of a name. -/
abbrev name (text : String) : Spelling := (.identifier, text)

end Spelling

open Spelling (word name)

lemma Token.isOperator_eq_decide (t : Token) (op : String) :
    t.isOperator op = decide (t.spelling = sign op) := by
  simp [Token.isOperator, Token.spelling, Prod.ext_iff]

lemma Token.isKeyword_eq_decide (t : Token) (text : String) :
    t.isKeyword text = decide (t.spelling = word text) := by
  simp [Token.isKeyword, Token.spelling, Prod.ext_iff]

namespace Parser

variable {α β : Type}

/-- All tokens that spell `ss` are read as a value with the property `Q`, and nothing behind them is
touched, if what stands behind them has the property `ok`. -/
def Decodes (p : Parser α) (ss : List Spelling) (ok : List Spelling → Prop) (Q : α → Prop) : Prop :=
  ∀ ts : List Token, ts.map Token.spelling = ss →
    ∃ x, Q x ∧ ∀ rest, ok (rest.map Token.spelling) → Reads p (ts ++ rest) x rest

/-- The parser does not care what stands behind the tokens. -/
def Anything (_ : List Spelling) : Prop := True

variable {p : Parser α} {f : α → Parser β} {ss us : List Spelling} {ok ok' : List Spelling → Prop}
  {P Q : α → Prop} {R : β → Prop}

lemma decodes_pure {x : α} (h : Q x) : Decodes (pure x) [] ok Q := by
  intro ts hts
  obtain rfl := List.map_eq_nil_iff.1 hts
  exact ⟨x, h, fun rest _ => reads_pure x rest⟩

/-- Decoding in two steps. What may follow the second one, with its spellings in front, has to be
what may follow the first one. -/
lemma Decodes.bind (hp : Decodes p ss ok P) (hf : ∀ x, P x → Decodes (f x) us ok' R)
    (hok : ∀ rest, ok' rest → ok (us ++ rest)) : Decodes (p >>= f) (ss ++ us) ok' R := by
  intro ts hts
  obtain ⟨front, back, rfl, hfront, hback⟩ := List.map_eq_append_iff.1 hts
  obtain ⟨x, hx, hread⟩ := hp front hfront
  obtain ⟨y, hy, hread'⟩ := hf x hx back hback
  refine ⟨y, hy, fun rest hrest => ?_⟩
  have hfollows : ok ((back ++ rest).map Token.spelling) := by
    rw [List.map_append, hback]
    exact hok _ hrest
  rw [List.append_assoc]
  exact (hread _ hfollows).bind (hread' rest hrest)

/-- Decoding one spelling, and then the others. -/
lemma Decodes.bind_cons {s : Spelling} (hp : Decodes p [s] Anything P)
    (hf : ∀ x, P x → Decodes (f x) us ok' R) : Decodes (p >>= f) (s :: us) ok' R :=
  hp.bind hf fun _ _ => trivial

/-- Decoding one spelling with a known result, and then the others. -/
lemma Decodes.bind_known {s : Spelling} {x : α} (hp : Decodes p [s] Anything (· = x))
    (hf : Decodes (f x) us ok' R) : Decodes (p >>= f) (s :: us) ok' R :=
  hp.bind_cons fun _ hx => hx ▸ hf

/-- A look at the spellings first, of which the result is known. -/
lemma Decodes.bind_look {x : α} (hp : Decodes p [] ok (· = x)) (hf : Decodes (f x) us ok' R)
    (hok : ∀ rest, ok' rest → ok (us ++ rest)) : Decodes (p >>= f) us ok' R :=
  hp.bind (fun _ hx => hx ▸ hf) hok

lemma Decodes.mono (hp : Decodes p ss ok P) (hok : ∀ rest, ok' rest → ok rest)
    (hP : ∀ x, P x → Q x) : Decodes p ss ok' Q := by
  intro ts hts
  obtain ⟨x, hx, hread⟩ := hp ts hts
  exact ⟨x, hP x hx, fun rest hrest => hread rest (hok _ hrest)⟩

lemma Decodes.anywhere (hp : Decodes p ss Anything P) : Decodes p ss ok P :=
  hp.mono (fun _ _ => trivial) fun _ => id

/-- The last step turns the value into another one. -/
lemma Decodes.bind_pure {g : α → β} (hp : Decodes p ss ok P) (hg : ∀ x, P x → R (g x)) :
    Decodes (p >>= fun x => pure (g x)) ss ok R := by
  have hlast : Decodes (p >>= fun x => pure (g x)) (ss ++ []) ok R :=
    hp.bind (fun x hx => decodes_pure (hg x hx)) fun _ => id
  rwa [List.append_nil] at hlast

/-! ## Looking ahead -/

/-- A look ahead that settles the value. -/
lemma decodes_look {f : Option Token → Parser β} (n : Nat) {x : β} {S : Option Spelling → Prop}
    (hf : ∀ o : Option Token, S (o.map Token.spelling) → f o = pure x) :
    Decodes (peekAt n >>= f) [] (fun rest => S rest[n]?) (· = x) := by
  intro ts hts
  obtain rfl := List.map_eq_nil_iff.1 hts
  refine ⟨x, rfl, fun rest hrest => (reads_peekAt n rest).bind ?_⟩
  have hseen : S (rest[n]?.map Token.spelling) := by rwa [← List.getElem?_map]
  rw [hf _ hseen]
  exact reads_pure x rest

lemma decodes_hasOperatorAt (n : Nat) (op : String) (b : Bool) :
    Decodes (hasOperatorAt n op) [] (fun rest => decide (rest[n]? = some (sign op)) = b)
      (· = b) := by
  refine decodes_look n (S := fun o => decide (o = some (sign op)) = b) fun o ho => ?_
  rw [← ho]
  cases o with
  | none => rfl
  | some t => simp [Token.isOperator_eq_decide]

lemma decodes_hasOperator (op : String) (b : Bool) :
    Decodes (hasOperator op) [] (fun rest => decide (rest.head? = some (sign op)) = b) (· = b) := by
  simp only [List.head?_eq_getElem?]
  exact decodes_hasOperatorAt 0 op b

lemma decodes_hasKeyword (text : String) (b : Bool) :
    Decodes (hasKeyword text) [] (fun rest => decide (rest.head? = some (word text)) = b)
      (· = b) := by
  simp only [List.head?_eq_getElem?]
  refine decodes_look 0 (S := fun o => decide (o = some (word text)) = b) fun o ho => ?_
  rw [← ho]
  cases o with
  | none => rfl
  | some t => simp [Token.isKeyword_eq_decide]

lemma decodes_atEnd (b : Bool) : Decodes atEnd [] (fun rest => rest.isEmpty = b) (· = b) := by
  have hlook := decodes_look 0 (f := fun o => pure o.isNone) (x := b)
    (S := fun o => o.isNone = b) fun o ho => by rw [← ho, Option.isNone_map]
  refine hlook.mono (fun rest hrest => ?_) fun _ => id
  cases rest <;> exact hrest

/-- A look at the first spelling. -/
lemma decodes_peek_bind {f : Option Token → Parser β} {s : Spelling}
    (hf : ∀ t : Token, t.spelling = s → Decodes (f (some t)) (s :: us) ok' R) :
    Decodes (peek >>= f) (s :: us) ok' R := by
  intro ts hts
  obtain ⟨t, tail, rfl, ht, -⟩ := List.map_eq_cons_iff.1 hts
  obtain ⟨y, hy, hread⟩ := hf t ht _ hts
  exact ⟨y, hy, fun rest hrest => (reads_peek_cons t (tail ++ rest)).bind (hread rest hrest)⟩

/-! ## Consuming a token -/

/-- A parser that reads one token. -/
lemma decodes_token {s : Spelling} {g : Token → α}
    (h : ∀ t rest, t.spelling = s → Reads p (t :: rest) (g t) rest)
    (hQ : ∀ t : Token, t.spelling = s → Q (g t)) : Decodes p [s] ok Q := by
  intro ts hts
  obtain ⟨t, rfl, ht⟩ := List.map_eq_singleton_iff.1 hts
  exact ⟨g t, hQ t ht, fun rest _ => h t rest ht⟩

lemma decodes_next (s : Spelling) :
    Decodes next [s] ok fun o => ∃ t, o = some t ∧ t.spelling = s :=
  decodes_token (fun t rest _ => reads_next t rest) fun t ht => ⟨t, rfl, ht⟩

lemma decodes_expectWhere {good : Token → Bool} (expected : String) {s : Spelling}
    (hgood : ∀ t : Token, t.spelling = s → good t = true) :
    Decodes (expectWhere good expected) [s] ok (·.spelling = s) := by
  refine decodes_token (g := id) (fun t rest ht => (reads_peek_cons t rest).bind ?_) fun _ => id
  simpa [hgood t ht] using reads_anyToken t rest

lemma decodes_expectOperator (op : String) :
    Decodes (expectOperator op) [sign op] ok (·.spelling = sign op) :=
  decodes_expectWhere _ fun t ht => by rw [t.isOperator_eq_decide, decide_eq_true ht]

lemma decodes_expectKeyword (text : String) :
    Decodes (expectKeyword text) [word text] ok (·.spelling = word text) :=
  decodes_expectWhere _ fun t ht => by rw [t.isKeyword_eq_decide, decide_eq_true ht]

lemma decodes_expectIdentifier (text : String) :
    Decodes expectIdentifier [name text] ok (·.spelling = name text) :=
  decodes_expectWhere _ fun _ ht => decide_eq_true (congrArg Prod.fst ht)

lemma decodes_acceptOperator_true (op : String) :
    Decodes (acceptOperator op) [sign op] ok (· = true) :=
  decodes_token (g := fun _ => true)
    (fun _ rest ht => reads_acceptOperator_true (Token.isOperator_of_spelling ht) rest)
    fun _ _ => rfl

lemma decodes_acceptOperator_false (op : String) :
    Decodes (acceptOperator op) [] (fun rest => rest.head? ≠ some (sign op)) (· = false) :=
  (decodes_hasOperator op false).bind_look (decodes_pure rfl) fun _ h => decide_eq_false h

lemma decodes_acceptKeyword_true (text : String) :
    Decodes (acceptKeyword text) [word text] ok (· = true) :=
  (decodes_hasKeyword text true).bind_look
    ((decodes_next _).bind_pure fun _ _ => rfl) fun _ _ => decide_eq_true rfl

lemma decodes_acceptKeyword_false (text : String) :
    Decodes (acceptKeyword text) [] (fun rest => rest.head? ≠ some (word text)) (· = false) :=
  (decodes_hasKeyword text false).bind_look (decodes_pure rfl) fun _ h => decide_eq_false h

end Parser

end ClassLang
