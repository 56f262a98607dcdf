import ClassLang.Proofs.Grammar.DeclRoundTrip
import ClassLang.Proofs.Grammar.Lockstep

set_option autoImplicit false

/-!
# Closing angle brackets in one token

Several closing angle brackets in a row are scanned as one operator, so that a token may close more
than one list of type arguments, and the end of an inner list may lie in the middle of a token.
Tokens are therefore compared with the spellings of a type after such operators have been taken
apart. A parser decodes glued spellings if it reads tokens that are taken apart into them, and
leaves tokens that are taken apart into what stands behind them. Where no closing bracket is among
the spellings, this is decoding as before, and only the parser of closing brackets is new.

## Main definitions

* `ClassLang.Spelling.unglued` — spellings with every closing angle bracket on its own.
* `ClassLang.Parser.DecodesGlued` — a parser decodes spellings of which closing angle brackets may
  be glued together, also to those behind them.

## Main results

* `ClassLang.Parser.Decodes.glued` — decoding without closing angle brackets.
* `ClassLang.Grammar.decodesGlued_closeAngle` — one closing bracket is taken off a token.
* `ClassLang.Grammar.decodesGlued_typeExprWithin` — types are read back.
-/

namespace ClassLang

open Spelling (sign typeWord)

/-! ## Taking operators apart -/

namespace Spelling

/-- A spelling, or the closing angle brackets that it is made of. -/
def angles (s : Spelling) : List Spelling :=
  if s = sign ">>" then [sign ">", sign ">"]
  else if s = sign ">>>" then [sign ">", sign ">", sign ">"]
  else [s]

/-- Spellings with every closing angle bracket on its own. -/
def unglued (ss : List Spelling) : List Spelling :=
  ss.flatMap angles

variable {s : Spelling} {ss us rest : List Spelling}

@[simp]
lemma unglued_nil : unglued [] = [] := rfl

@[simp]
lemma unglued_cons (s : Spelling) (ss : List Spelling) :
    unglued (s :: ss) = s.angles ++ unglued ss := rfl

lemma angles_typeWord (text : String) : (typeWord text).angles = [typeWord text] := by
  rw [angles, if_neg (Grammar.typeWord_ne_sign text _), if_neg (Grammar.typeWord_ne_sign text _)]

/-- What comes first without being a closing angle bracket is a spelling of its own. -/
lemma exists_of_unglued_eq_cons (hs : s ≠ sign ">") (h : unglued ss = s :: rest) :
    ∃ tail, ss = s :: tail ∧ unglued tail = rest := by
  cases ss with
  | nil => cases h
  | cons u us =>
    rw [unglued_cons, angles] at h
    split_ifs at h
    · exact absurd (List.cons.inj h).1.symm hs
    · exact absurd (List.cons.inj h).1.symm hs
    · obtain ⟨rfl, hrest⟩ := List.cons.inj h
      exact ⟨us, rfl, hrest⟩

/-- Spellings without closing angle brackets are found as they are. -/
lemma exists_of_unglued_eq_append (hus : sign ">" ∉ us) (h : unglued ss = us ++ rest) :
    ∃ tail, ss = us ++ tail ∧ unglued tail = rest := by
  induction us generalizing ss with
  | nil => exact ⟨ss, rfl, h⟩
  | cons u us ih =>
    rw [List.mem_cons, not_or] at hus
    obtain ⟨tail, rfl, htail⟩ := exists_of_unglued_eq_cons (Ne.symm hus.1) h
    obtain ⟨tail, rfl, hrest⟩ := ih hus.2 htail
    exact ⟨tail, rfl, hrest⟩

/-- What is not taken apart stays in front. -/
lemma head?_unglued (hs : s.angles = [s]) (h : ss.head? = some s) :
    (unglued ss).head? = some s := by
  obtain ⟨tail, rfl⟩ := List.head?_eq_some_iff.1 h
  rw [unglued_cons, hs]
  rfl

lemma head?_of_head?_unglued (hs : s ≠ sign ">") (h : (unglued ss).head? = some s) :
    ss.head? = some s := by
  obtain ⟨rest, hrest⟩ := List.head?_eq_some_iff.1 h
  obtain ⟨tail, rfl, -⟩ := exists_of_unglued_eq_cons hs hrest
  rfl

lemma unglued_eq_nil_iff : unglued ss = [] ↔ ss = [] := by
  refine ⟨fun h => ?_, fun h => by rw [h, unglued_nil]⟩
  cases ss with
  | nil => rfl
  | cons u us =>
    rw [unglued_cons, angles] at h
    split_ifs at h <;> cases h

end Spelling

open Spelling (unglued)

/-- A token weighs no less than the operators that it is taken apart into. -/
lemma Token.length_angles_le_weight (t : Token) : t.spelling.angles.length ≤ t.weight := by
  have hpos := t.weight_pos
  unfold Spelling.angles
  split_ifs with htwo hthree
  · have hlexeme : t.lexeme = ">>" := congrArg Prod.snd htwo
    rw [Token.weight, hlexeme]
    decide
  · have hlexeme : t.lexeme = ">>>" := congrArg Prod.snd hthree
    rw [Token.weight, hlexeme]
    decide
  · exact hpos

lemma length_unglued_le_totalWeight (ts : List Token) :
    (unglued (ts.map Token.spelling)).length ≤ totalWeight ts := by
  induction ts with
  | nil => exact le_rfl
  | cons t ts ih =>
    rw [List.map_cons, Spelling.unglued_cons, List.length_append, totalWeight_cons]
    exact Nat.add_le_add t.length_angles_le_weight ih

/-! ## Decoding -/

namespace Parser

variable {α β : Type}

/-- All tokens that are taken apart into `ss` and something behind it with the property `ok` are
read as a value with the property `Q`, and those left are taken apart into what stands behind. -/
def DecodesGlued (p : Parser α) (ss : List Spelling) (ok : List Spelling → Prop)
    (Q : α → Prop) : Prop :=
  ∀ (ts : List Token) (rest : List Spelling), unglued (ts.map Token.spelling) = ss ++ rest →
    ok rest → ∃ x us, Q x ∧ Reads p ts x us ∧ unglued (us.map Token.spelling) = rest

variable {p : Parser α} {f : α → Parser β} {ss us : List Spelling} {ok ok' : List Spelling → Prop}
  {P Q : α → Prop} {R : β → Prop}

/-- Where no closing angle bracket is among the spellings, no token is taken apart. -/
lemma Decodes.glued (hp : Decodes p ss ok Q) (hss : sign ">" ∉ ss)
    (hok : ∀ us, ok' (unglued us) → ok us) : DecodesGlued p ss ok' Q := by
  intro ts rest hts hrest
  obtain ⟨tail, hsplit, htail⟩ := Spelling.exists_of_unglued_eq_append hss hts
  obtain ⟨front, back, rfl, hfront, rfl⟩ := List.map_eq_append_iff.1 hsplit
  obtain ⟨x, hx, hread⟩ := hp front hfront
  exact ⟨x, back, hx, hread back (hok _ (by rwa [htail])), htail⟩

/-- Decoding in two steps. What may follow the second one, with its spellings in front, has to be
what may follow the first one. -/
lemma DecodesGlued.bind (hp : DecodesGlued p ss ok P)
    (hf : ∀ x, P x → DecodesGlued (f x) us ok' R) (hok : ∀ rest, ok' rest → ok (us ++ rest)) :
    DecodesGlued (p >>= f) (ss ++ us) ok' R := by
  intro ts rest hts hrest
  rw [List.append_assoc] at hts
  obtain ⟨x, mid, hx, hread, hmid⟩ := hp ts _ hts (hok rest hrest)
  obtain ⟨y, left, hy, hread', hleft⟩ := hf x hx mid rest hmid hrest
  exact ⟨y, left, hy, hread.bind hread', hleft⟩

end Parser

namespace Grammar

open ClassLang.Parser

/-! ## Closing brackets -/

lemma reads_pushFront (t : Token) (ts : List Token) : Reads (pushFront t) ts () (t :: ts) := by
  rintro c rfl
  exact ⟨c.pushFront t, rfl, rfl⟩

/-- A token that closes lists is consumed, or loses its first character. -/
lemma reads_closeAngle {t : Token} {op : String} (ht : t.spelling = sign op)
    (hop : op = ">" ∨ op = ">>" ∨ op = ">>>") (ts : List Token) :
    Reads closeAngle (t :: ts) () (if op = ">" then ts else t.behead :: ts) := by
  have hcloses : closesAngle t = true := by
    rcases hop with rfl | rfl | rfl <;> simp [closesAngle, Token.isOperator_of_spelling ht]
  obtain rfl : t.lexeme = op := congrArg Prod.snd ht
  have hexpect : Reads (expectWhere closesAngle "'>'") (t :: ts) t ts := by
    refine (reads_peek_cons t ts).bind ?_
    simpa [hcloses] using reads_anyToken t ts
  refine hexpect.bind ?_
  by_cases hshort : t.lexeme = ">"
  · rw [if_neg (not_not.2 hshort), if_pos hshort]
    exact reads_pure () ts
  · rw [if_pos hshort, if_neg hshort]
    exact reads_pushFront t.behead ts

lemma spelling_behead {t : Token} {op : String} (ht : t.spelling = sign op) :
    t.behead.spelling = sign (String.ofList op.toList.tail) := by
  obtain ⟨hkind, rfl⟩ : t.kind = .operator ∧ t.lexeme = op := Prod.ext_iff.1 ht
  rw [Token.spelling, Token.behead, hkind]

/-- **One closing bracket is taken off a token.** -/
lemma decodesGlued_closeAngle : DecodesGlued closeAngle [sign ">"] Anything fun _ => True := by
  intro ts rest hts _
  cases ts with
  | nil => cases hts
  | cons t ts =>
    rw [List.map_cons, Spelling.unglued_cons, Spelling.angles] at hts
    split_ifs at hts with htwo hthree
    · refine ⟨(), _, trivial, reads_closeAngle htwo (by decide) ts, ?_⟩
      rw [if_neg (by decide), List.map_cons, spelling_behead htwo]
      exact (List.cons.inj hts).2
    · refine ⟨(), _, trivial, reads_closeAngle hthree (by decide) ts, ?_⟩
      rw [if_neg (by decide), List.map_cons, spelling_behead hthree]
      exact (List.cons.inj hts).2
    · obtain ⟨hone, hrest⟩ := List.cons.inj hts
      exact ⟨(), _, trivial, reads_closeAngle hone (by decide) ts, hrest⟩

/-! ## Types -/

lemma typeDecoding_decodesGlued : TypeDecoding unglued DecodesGlued where
  bind := DecodesGlued.bind
  of_decodes := Decodes.glued
  closeAngle := decodesGlued_closeAngle
  head?_view hop _ h := by
    refine Spelling.head?_unglued ?_ h
    have hall : ∀ op ∈ ["<", ">", "[", ","], (sign op).angles = [sign op] := by decide
    exact hall _ hop
  head?_of_view h := Spelling.head?_of_head?_unglued (by decide) h

/-- **Types are read back**, with their closing brackets glued together or not. -/
lemma decodesGlued_typeExprWithin {type : TypeExpr} (htype : type.Plain) {budget : Nat}
    (hlen : type.spellings.length ≤ budget) :
    DecodesGlued (typeExprWithin budget) type.spellings EndsType (· = type) :=
  typeDecoding_decodesGlued.typeExprWithin type htype hlen

/-- Tokens that are taken apart into the spellings of a type are read as the type, to the end. -/
lemma reads_typeExpr {type : TypeExpr} (htype : type.Plain) {ts : List Token}
    (hts : unglued (ts.map Token.spelling) = type.spellings) : Reads typeExpr ts type [] := by
  rintro c rfl
  have hlen : type.spellings.length ≤ c.weight + 1 := by
    have hweight := length_unglued_le_totalWeight c.upcoming
    rw [hts, ← c.weight_eq] at hweight
    omega
  have hdecodes := decodesGlued_typeExprWithin htype hlen
  obtain ⟨_, us, rfl, hread, hus⟩ := hdecodes c.upcoming [] (by rw [hts, List.append_nil])
    ⟨nofun, nofun⟩
  obtain rfl := List.map_eq_nil_iff.1 (Spelling.unglued_eq_nil_iff.1 hus)
  rw [typeExpr, runFrom_withBudget]
  exact hread c rfl

end Grammar

end ClassLang
