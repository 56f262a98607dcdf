import ClassLang.Proofs.Grammar.Mirror
import ClassLang.Proofs.Grammar.Productions

set_option autoImplicit false

/-!
# Mirrored runs of operands

Runs of the parser for operands are mirrored as soon as it is known what becomes of words with
brackets in them and of `new`. A word with indices may stand on the other side with its brackets set
apart: then the name is read first, and the loop behind primary expressions reads the indices. So a primary expression is mirrored by where the other side enters that loop.

## Main definitions

* `ClassLang.Grammar.Indices` — indices in brackets of their own.
* `ClassLang.Grammar.LeadsTo` — the loop behind primary expressions gets from here to there.
* `ClassLang.Grammar.Mirror.Unglued` — what becomes of a word that is taken apart.
* `ClassLang.Grammar.Mirror.Level` — a parser of expressions that is mirrored.
* `ClassLang.Grammar.Mirror.Words` — what has to be known of a mirror.

## Main results

* `ClassLang.Grammar.Mirror.Words.primaryOf` — primary expressions.
* `ClassLang.Grammar.Mirror.Words.trailers` — the loop behind primary expressions.
* `ClassLang.Grammar.Mirror.Words.operand` — operands.
-/

namespace ClassLang

/-- An operator with one operand. -/
def Expr.IsUnary : Expr → Prop
  | .unary _ _ _ => True
  | _ => False

namespace Grammar

open ClassLang.Parser

/-! ## Indices behind an expression -/

/-- The tokens `us` start with indices in brackets, which are read as `ys`, and `rest` is left. -/
inductive Indices : List Token → List Expr → List Token → Prop
  | nil (us : List Token) : Indices us [] us
  | cons {opening closing : Token} {us mid rest : List Token} {y : Expr} {ys : List Expr}
      (hopen : opening.isOperator "[" = true) (hclose : closing.isOperator "]" = true)
      (hfull : (us.head?.any fun t => t.isOperator "]") = false)
      (hy : Attains (fun e _ _ => e) us y (closing :: mid)) (hys : Indices mid ys rest) :
      Indices (opening :: us) (y :: ys) rest

/-- Whatever the loop behind primary expressions reads from the expression `y` in front of `us'`, it
reads from `x` in front of `us`. -/
def LeadsTo (x : Expr) (us : List Token) (y : Expr) (us' : List Token) : Prop :=
  ∀ z rest, Attains (fun e b s => trailers e b s y) us' z rest →
    Attains (fun e b s => trailers e b s x) us z rest

/-- An operand starts with `us`, and the loop behind primary expressions is entered with `y` in
front of `us'`. -/
def Enters (us : List Token) (y : Expr) (us' : List Token) : Prop :=
  ∀ z rest, Attains (fun e b s => trailers e b s y) us' z rest →
    Attains (fun e b _ => operand e b) us z rest

lemma LeadsTo.refl (x : Expr) (us : List Token) : LeadsTo x us x us :=
  fun _ _ h => h

lemma LeadsTo.trans {x y z : Expr} {us us' us'' : List Token} (h : LeadsTo x us y us')
    (h' : LeadsTo y us' z us'') : LeadsTo x us z us'' :=
  fun w rest hw => h w rest (h' w rest hw)

lemma enters_of_primary {us us' : List Token} {y : Expr}
    (h : Attains (fun e b _ => primaryOf e b) us y us') : Enters us y us' :=
  fun _ _ hz => h.bind hz.start

lemma Enters.leadsTo {us us' us'' : List Token} {x y : Expr} (h : Enters us x us')
    (h' : LeadsTo x us' y us'') : Enters us y us'' :=
  fun z rest hz => h z rest (h' z rest hz)

/-- One index in brackets. -/
lemma leadsTo_index {opening closing : Token} {us mid : List Token} {x y : Expr}
    (hopen : opening.isOperator "[" = true) (hclose : closing.isOperator "]" = true)
    (hy : Attains (fun e _ _ => e) us y (closing :: mid)) :
    LeadsTo x (opening :: us) (.index opening.line x y) mid := by
  intro z rest hz
  have hpoint : ((opening :: us).head?.any fun t => t.isOperator ".") = false := by
    obtain ⟨-, htext⟩ : opening.kind = .operator ∧ opening.lexeme = "[" := by
      simpa [Token.isOperator] using hopen
    simp [Token.isOperator, htext]
  refine Attains.step ?_
  obtain ⟨n, hy⟩ := hy
  obtain ⟨k, hz⟩ := hz
  refine ⟨n + k, fun m b s hm hb hs => ?_⟩
  refine (reads_acceptOperator_false hpoint).bind ?_
  have hhas : Reads (hasOperator "[") (opening :: us) true (opening :: us) := by
    simpa [hopen] using reads_hasOperator "[" (opening :: us)
  refine hhas.bind ((reads_expectOperator hopen us).bind ?_)
  refine (hy m b s (by omega) (by omega) (by omega)).bind ((reads_expectOperator hclose mid).bind ?_)
  exact hz m b s (by omega) (by omega) (by omega)

lemma indexed_cons (x y : Expr) (ys : List Expr) :
    indexed x (y :: ys) = indexed (.index x.line x y) ys := rfl

/-- Expressions with the same indices are the same. -/
lemma same_indexed {xs ys : List Expr} (hs : same xs ys) {x y : Expr} (h : same x y) :
    same (indexed x xs) (indexed y ys) := by
  induction xs generalizing ys x y with
  | nil =>
    cases ys with
    | nil => exact h
    | cons y ys => cases hs
  | cons x' xs ih =>
    cases ys with
    | nil => cases hs
    | cons y' ys =>
      obtain ⟨hhead, htail⟩ := List.cons.inj hs
      exact ih htail (same_index h hhead)

/-- What holds of an expression with indices that is tidy. -/
lemma tidy_of_indexed {xs : List Expr} {x : Expr} (h : (indexed x xs).Tidy) :
    x.Tidy ∧ Expr.AllTidy xs ∧ (xs ≠ [] → ∀ name ∈ x.varName?, Word.isKeyword name = false) := by
  induction xs generalizing x with
  | nil => exact ⟨h, trivial, fun hne => absurd rfl hne⟩
  | cons y ys ih =>
    obtain ⟨⟨hx, hy, hname⟩, hys, -⟩ := ih h
    exact ⟨hx, ⟨hy, hys⟩, fun _ => hname⟩

/-- The loop reads indices one by one. -/
lemma Indices.leadsTo {us rest : List Token} {ys : List Expr} (h : Indices us ys rest) (x : Expr) :
    ∃ z, same (indexed x ys) z ∧ LeadsTo x us z rest := by
  induction h generalizing x with
  | nil us => exact ⟨x, rfl, .refl x us⟩
  | @cons opening closing us mid rest y ys hopen hclose _ hy _ ih =>
    obtain ⟨z, hz, hleads⟩ := ih (.index opening.line x y)
    refine ⟨z, ?_, (leadsTo_index hopen hclose hy).trans hleads⟩
    rw [indexed_cons]
    exact (same_indexed (Likeness.same_refl ys) (x := .index x.line x y)
      (y := .index opening.line x y) rfl).trans hz

/-- In front of indices there is no argument list. -/
lemma Indices.reads_hasOperator_call {us rest : List Token} {ys : List Expr}
    (h : Indices us ys rest) (hne : ys ≠ []) : Reads (hasOperator "(") us false us := by
  cases h with
  | nil => exact absurd rfl hne
  | @cons opening closing us mid rest y ys hopen hclose hfull hy hys =>
    have htext : opening.lexeme = "[" := by
      simp only [Token.isOperator, Bool.and_eq_true, decide_eq_true_eq] at hopen
      exact hopen.2
    have hno : ((opening :: us).head?.any fun t => t.isOperator "(") = false := by
      simp [Token.isOperator, htext]
    exact hno ▸ reads_hasOperator "(" (opening :: us)

/-! ## What has to be known of a mirror -/

namespace Mirror

/-- What becomes of a word in front of the tokens `us` of the other side, when on the one side it
has been taken apart into a name and indices, and `ts` is left. -/
inductive Unglued (M : Mirror) (t : Token) (name : String) (indices : List Expr)
    (ts us : List Token) : Prop
  /-- The word is the same there, and is taken apart too. -/
  | whole {u : Token} {us₁ us₂ : List Token} {indices' : List Expr} (hus : us = u :: us₁)
      (hkind : u.kind = t.kind) (hrun : Attains (fun e b _ => glued e b u) us₁ (name, indices') us₂)
      (hsame : same indices indices') (hrel : M.rel ts us₂)
  /-- The name stands there alone, and its indices behind it. -/
  | setApart {u : Token} {us₁ us₂ : List Token} {indices' : List Expr} (hstrict : M.strict)
      (hus : us = u :: us₁) (hword : u.isWord = true)
      (hkind : Word.isKeyword name = false → u.kind = .identifier)
      (hname : u.lexeme = name) (hne : indices ≠ []) (hindices : Indices us₁ indices' us₂)
      (hsame : same indices indices') (hrel : M.rel ts us₂)

/-- The parser `p` is mirrored by `q`, if at the end of the tokens on the one side every expression
ends on the other, and reads at least one token. -/
structure Level (M : Mirror) (p : Parser Expr) (q : Parser Expr → Nat → Parser Expr) : Prop where
  thru : M.Thru M.ends M.ends True p fun e b _ => q e b
  fails : Ensures p [] fun _ _ => False

/-- The parser `inner` for the expressions inside others is mirrored, and so are words with brackets
and `new`. -/
structure Words (M : Mirror) (inner : Parser Expr) : Prop
    extends M.Level inner (fun e _ => e) where
  unglues : ∀ (budget : Nat) ⦃t : Token⦄ ⦃ts us : List Token⦄, M.rel (t :: ts) us →
    t.isWord = true → Ensures (glued inner budget t) ts fun r ts' =>
      (M.strict → BracketFree r.1) → M.Unglued t r.1 r.2 ts' us
  news : ∀ (budget : Nat) ⦃ts us : List Token⦄, M.rel ts us →
    M.At True (newExpr inner budget) (fun e b _ => newExpr e b) ts us

variable {M : Mirror} {L K P : Prop} {inner : Parser Expr} {ts us : List Token} {t u : Token}

/-! ## Lists of expressions -/

lemma fails_bind {α β : Type} {p : Parser α} {f : α → Parser β}
    (h : Ensures p [] fun _ _ => False) : Ensures (p >>= f) [] fun _ _ => False :=
  Ensures.bind h fun _ _ hfalse => hfalse.elim

section Lists

variable (h : M.Level inner fun e _ => e)
include h

lemma Level.fails_argumentList : ∀ budget, Ensures (argumentList inner budget) [] fun _ _ => False
  | 0 => ensures_throw _
  | _ + 1 => fails_bind h.fails

lemma Level.argumentList : ∀ budget,
    M.Thru True K True (argumentList inner budget) fun e _ s => argumentList e s
  | 0 => thru_throw _
  | budget + 1 => by
    refine Thru.step (Thru.of_fails (J := M.ends) ?_ (h.fails_argumentList _))
    refine h.thru.bind fun first first' hfirst => ?_
    refine thru_acceptOperator_bind (J := True) (N := True) ")" (fails_expectOperator_bind ",") ?_ ?_
    · exact thru_pure (same_cons hfirst rfl) fun _ htidy => ⟨trivial, htidy.1⟩
    · refine thru_expectOperator_bind (J := True) "," fun _ _ => ?_
      refine ((Level.argumentList budget).of_fails (h.fails_argumentList budget) (K := True)).bind
        fun others others' hothers => ?_
      exact thru_pure (same_cons hfirst hothers) fun _ htidy => ⟨⟨trivial, htidy.1⟩, htidy.2⟩

lemma Level.arguments (budget : Nat) :
    M.Thru True K True (arguments inner budget) fun e b _ => arguments e b := by
  refine thru_expectOperator_bind (J := True) "(" fun _ _ => ?_
  refine thru_acceptOperator_bind (J := True) (N := True) ")" (h.fails_argumentList budget) ?_ ?_
  · exact thru_pure rfl fun _ _ => trivial
  · exact (h.argumentList budget).start

end Lists

/-! ## Primary expressions -/

/-- Every successful run of `p` on the tokens `ts` is mirrored by the start of an operand on the
tokens `us`, up to where the loop behind primary expressions is entered. -/
def Operates (M : Mirror) (p : Parser Expr) (ts us : List Token) : Prop :=
  Ensures p ts fun x ts' => (ts' = [] → M.calls) → (M.strict → tidy x) →
    ∃ y us', same x y ∧ M.rel ts' us' ∧ Enters us y us'

lemma Operates.of_at {p : Parser Expr} (h : M.At True p (fun e b _ => primaryOf e b) ts us) :
    M.Operates p ts us := by
  refine Ensures.mono h fun x ts' hx _ htidy => ?_
  obtain ⟨y, us', hxy, hrel, hrun⟩ := hx (fun _ => trivial) htidy
  exact ⟨y, us', hxy, hrel, enters_of_primary hrun⟩

/-- A token that is no word, or a keyword, is the same on both sides. -/
lemma exists_of_plain (hrel : M.rel (t :: ts) us)
    (ht : t.isWord = true → t.kind = .keyword ∧ (M.strict → BracketFree t.lexeme)) :
    ∃ u us', us = u :: us' ∧ u.spelling = t.spelling ∧ M.rel ts us' := by
  obtain ⟨u, us, rfl, -, hsame⟩ := M.cons hrel
  obtain ⟨hspell, hrest⟩ := hsame ht
  exact ⟨u, us, rfl, hspell, hrest⟩

/-- The literal of a token, if the other side has the same token and takes it as a literal too. -/
lemma at_literal {value : Option Literal.Value} (hspell : u.spelling = t.spelling)
    (hrel : M.rel ts us)
    (hright : ∀ e b, ∀ v, value = some v →
      Reads (primaryOf e b) (u :: us) (literalExpr u v) us) :
    M.At True (literal t value) (fun e b _ => primaryOf e b) (t :: ts) (u :: us) := by
  refine Ensures.bind (ensures_of_reads (reads_next t ts)) ?_
  rintro _ _ ⟨rfl, rfl⟩
  cases value with
  | none => exact ensures_throw _
  | some v =>
    refine ensures_pure fun _ _ => ⟨literalExpr u v, us, ?_, hrel, ?_⟩
    · change Expr.unlined (.literal _ _) = Expr.unlined (.literal _ _)
      rw [Expr.unlined, Expr.unlined, Token.lexeme_eq_of_spelling hspell]
    · exact attains_of_reads fun e b _ => hright e b v rfl

section Primary

variable (h : M.Words inner)
include h

lemma Words.keywordExpr (budget : Nat) (hkind : t.kind = .keyword) (hrel : M.rel (t :: ts) us) :
    M.At True (keywordExpr inner budget t) (fun e b _ => primaryOf e b) (t :: ts) us := by
  -- Whatever the keyword is read as, the other side has the same keyword.
  have hsides : (M.strict → BracketFree t.lexeme) → ∃ u us', us = u :: us' ∧
      u.kind = .keyword ∧ u.spelling = t.spelling ∧ u.lexeme = t.lexeme ∧ M.rel ts us' := by
    intro hfree
    obtain ⟨u, us', hus, hspell, hrest⟩ := exists_of_plain hrel fun _ => ⟨hkind, hfree⟩
    exact ⟨u, us', hus, (Token.kind_eq_of_spelling hspell).trans hkind, hspell,
      Token.lexeme_eq_of_spelling hspell, hrest⟩
  have hfree : ∀ text : String, BracketFree text → t.lexeme = text → (M.strict → BracketFree t.lexeme) := by
    rintro text htext rfl _
    exact htext
  unfold Grammar.keywordExpr
  split
  next hvalue =>
    have htext : t.lexeme = "true" ∨ t.lexeme = "false" := by simpa using hvalue
    obtain ⟨u, us, rfl, hu, hspell, hlexeme, hrest⟩ := hsides (by
      rcases htext with htext | htext
      · exact hfree "true" (by simp [BracketFree]) htext
      · exact hfree "false" (by simp [BracketFree]) htext)
    refine at_literal hspell hrest fun e b v hv => (reads_peek_cons u us).bind ?_
    obtain rfl := Option.some.inj hv
    simp only [hu, Grammar.keywordExpr, hlexeme, hvalue, if_true]
    exact reads_literal u _ us
  next hvalue =>
    split
    next hnull =>
      obtain ⟨u, us, rfl, hu, hspell, hlexeme, hrest⟩ :=
        hsides (hfree "null" (by simp [BracketFree]) hnull)
      refine at_literal hspell hrest fun e b v hv => (reads_peek_cons u us).bind ?_
      obtain rfl := Option.some.inj hv
      simp only [hu, Grammar.keywordExpr, hlexeme, hnull, if_true]
      exact reads_literal u _ us
    next hnull =>
      split
      next hnew =>
        obtain ⟨u, us, rfl, hu, hspell, hlexeme, hrest⟩ :=
          hsides (hfree "new" (by simp [BracketFree]) hnew)
        refine Ensures.mono (h.news budget hrel) fun x ts' hx hend htidy => ?_
        obtain ⟨y, us', hxy, hrel', n, hy⟩ := hx hend htidy
        refine ⟨y, us', hxy, hrel', n, fun m b s hm hb hs => (reads_peek_cons u us).bind ?_⟩
        simp only [hu, Grammar.keywordExpr, hlexeme, hnew, if_true]
        exact hy m b s hm hb hs
      next hnew =>
        split
        next htype =>
          refine Ensures.bind (ensures_hasOperatorAt 1 "." (t :: ts)) ?_
          rintro _ _ ⟨rfl, rfl⟩
          split
          next hpoint =>
            refine Ensures.bind (ensures_of_reads (reads_next t ts)) ?_
            rintro _ ts ⟨rfl, rfl⟩
            refine ensures_pure fun _ htidy => ?_
            obtain ⟨u, us, rfl, hu, hspell, hlexeme, hrest⟩ := hsides fun hstrict => htidy hstrict
            refine ⟨.var u.line u.lexeme, us, ?_, hrest, ?_⟩
            · change Expr.unlined (.var _ _) = Expr.unlined (.var _ _)
              rw [Expr.unlined, Expr.unlined, hlexeme]
            · refine attains_of_reads fun e b _ => (reads_peek_cons u us).bind ?_
              simp only [hu, Grammar.keywordExpr, hlexeme]
              rw [if_neg hvalue, if_neg hnull, if_neg hnew, if_pos htype]
              cases ts with
              | nil => simp at hpoint
              | cons d ts =>
                have hd : d.isOperator "." = true := by simpa using hpoint
                obtain ⟨v, us, rfl, hv, -⟩ := exists_of_isOperator hrest hd
                have hhas : Reads (hasOperatorAt 1 ".") (u :: v :: us) true (u :: v :: us) := by
                  simpa [hv] using reads_hasOperatorAt 1 "." (u :: v :: us)
                exact hhas.bind ((reads_next u (v :: us)).bind (reads_pure _ _))
          next => exact ensures_throw _
        next => exact ensures_throw _

lemma Words.grouped (hopen : t.kind = .operator) (htext : t.lexeme = "(")
    (hrel : M.rel (t :: ts) us) :
    M.At True (grouped inner) (fun e b _ => primaryOf e b) (t :: ts) us := by
  have hword : ¬ t.isWord = true := by simp [Token.isWord, hopen]
  obtain ⟨u, us, rfl, hspell, hrest⟩ := exists_of_plain hrel fun hw => absurd hw hword
  have hu : u.kind = .operator := (Token.kind_eq_of_spelling hspell).trans hopen
  have hlexeme : u.lexeme = "(" := (Token.lexeme_eq_of_spelling hspell).trans htext
  have hinside : M.At True (do
      let x ← inner
      let _ ← expectOperator ")"
      return x) (fun e _ _ => do
      let x ← e
      let _ ← expectOperator ")"
      return x) ts us := by
    refine (h.thru.run hrest).bind fun x y hxy => ?_
    exact thru_expectOperator_bind (J := True) ")" fun _ _ => thru_pure hxy fun _ htidy => htidy
  refine Ensures.bind (ensures_of_reads (reads_next t ts)) ?_
  rintro _ _ ⟨rfl, rfl⟩
  refine Ensures.mono hinside fun x ts' hx hend htidy => ?_
  obtain ⟨y, us', hxy, hrel', n, hy⟩ := hx hend htidy
  refine ⟨y, us', hxy, hrel', n, fun m b s hm hb hs => (reads_peek_cons u us).bind ?_⟩
  simp only [hu, hlexeme, if_true]
  exact (reads_next u us).bind (hy m b s hm hb hs)

omit h in
/-- On both sides an argument list follows. -/
lemma reads_hasOperator_of_call (hrel : M.rel ts us)
    (hts : (ts[0]?.any fun t => t.isOperator "(") = true) :
    Reads (hasOperator "(") us true us := by
  cases ts with
  | nil => simp at hts
  | cons t ts =>
    have hus := (any_isOperator hrel "(").trans (by simpa using hts)
    exact hus ▸ reads_hasOperator "(" us

omit h in
/-- On neither side an argument list follows. -/
lemma reads_hasOperator_call (hrel : M.rel ts us) (hcalls : ts = [] → M.calls)
    (hts : (ts.head?.any fun t => t.isOperator "(") = false) :
    Reads (hasOperator "(") us false us := by
  cases ts with
  | nil => exact (M.opensNoCall hrel (hcalls rfl)).reads_hasOperator
  | cons t ts =>
    have hus : (us.head?.any fun u => u.isOperator "(") = false := (any_isOperator hrel "(").trans hts
    exact hus ▸ reads_hasOperator "(" us

omit h in
/-- A word without indices is the same on both sides. -/
lemma Unglued.of_nil {name : String} (hword : M.Unglued t name [] ts us) :
    ∃ u us₁ us₂, us = u :: us₁ ∧ u.kind = t.kind ∧
      Attains (fun e b _ => glued e b u) us₁ (name, []) us₂ ∧ M.rel ts us₂ := by
  cases hword with
  | @whole u us₁ us₂ indices' hus hkind hrun hsame hrel =>
    cases indices' with
    | nil => exact ⟨u, us₁, us₂, hus, hkind, hrun, hrel⟩
    | cons e es => cases hsame
  | setApart hstrict hus hword hkind hname hne => exact absurd rfl hne

lemma Words.ensures_arguments (budget : Nat) (ts : List Token) :
    Ensures (Grammar.arguments inner budget) ts fun args ts' => ∀ us, M.rel ts us →
      (M.strict → tidy args) → ∃ args' us', same args args' ∧ M.rel ts' us' ∧
        Attains (fun e b _ => Grammar.arguments e b) us args' us' :=
  fun _ _ _ hc hrun _ hrel htidy =>
    (h.arguments budget (K := True)).run hrel hc hrun (fun _ => trivial) htidy

/-- A name, with its indices or its arguments. -/
lemma Words.nameExpr (budget : Nat) (hkind : t.kind = .identifier) (hrel : M.rel (t :: ts) us) :
    M.Operates (nameExpr inner budget t) (t :: ts) us := by
  have hword : t.isWord = true := by simp [Token.isWord, hkind]
  refine Ensures.bind (ensures_of_reads (reads_next t ts)) ?_
  rintro _ ts ⟨rfl, rfl⟩
  refine Ensures.bind (h.unglues budget hrel hword) ?_
  rintro ⟨name, indices⟩ ts₁ hunglued
  by_cases hempty : indices = []
  · subst hempty
    refine Ensures.bind (ensures_hasOperatorAt 0 "(" ts₁) ?_
    rintro _ ts₁ ⟨rfl, rfl⟩
    split
    next hcall =>
      refine Ensures.bind (h.ensures_arguments budget ts₁) ?_
      intro args ts₂ hargs
      refine ensures_pure fun _ htidy => ?_
      obtain ⟨u, us₁, us₂, rfl, hu, ⟨n, hglued⟩, hrel₁⟩ :=
        (hunglued fun hs => (htidy hs).1).of_nil
      obtain ⟨args', us', hsame, hrel', k, hargs'⟩ := hargs us₂ hrel₁ fun hs => (htidy hs).2
      have hhas := reads_hasOperator_of_call hrel₁ hcall
      refine ⟨.call u.line name args', us', ?_, hrel', enters_of_primary
        ⟨n + k, fun m b s hm hb hs => (reads_peek_cons u us₁).bind ?_⟩⟩
      · change Expr.unlined (.call _ _ _) = Expr.unlined (.call _ _ _)
        rw [Expr.unlined, Expr.unlined, show Expr.unlinedAll args = Expr.unlinedAll args' from hsame]
      · simp only [hu, hkind]
        refine (reads_next u us₁).bind ?_
        refine (hglued m b s (by omega) (by omega) (by omega)).bind (hhas.bind ?_)
        exact (hargs' m b s (by omega) (by omega) (by omega)).bind (reads_pure _ _)
    next hcall =>
      refine ensures_pure fun hend htidy => ?_
      obtain ⟨u, us₁, us₂, rfl, hu, ⟨n, hglued⟩, hrel₁⟩ := (hunglued fun hs => htidy hs).of_nil
      have hhas : Reads (hasOperator "(") us₂ false us₂ := by
        refine reads_hasOperator_call hrel₁ hend ?_
        rw [List.head?_eq_getElem?]
        exact Bool.not_eq_true _ ▸ hcall
      refine ⟨.var u.line name, us₂, rfl, hrel₁, enters_of_primary
        ⟨n, fun m b s hm hb hs => (reads_peek_cons u us₁).bind ?_⟩⟩
      simp only [hu, hkind]
      refine (reads_next u us₁).bind ((hglued m b s hm hb hs).bind (hhas.bind ?_))
      exact reads_pure _ _
  · have hnot : indices.isEmpty = false := by simpa using hempty
    simp only [hnot, Bool.false_eq_true, if_false]
    refine ensures_pure fun _ htidy => ?_
    cases hunglued fun hs => (tidy_of_indexed (htidy hs)).1 with
    | @whole u us₁ us₂ indices' hus hu hrun hsame hrel₁ =>
      subst hus
      obtain ⟨n, hglued⟩ := hrun
      have hnot' : indices'.isEmpty = false := by
        cases indices' with
        | nil =>
          cases indices with
          | nil => exact absurd rfl hempty
          | cons e es => cases hsame
        | cons e es => rfl
      refine ⟨indexed (.var u.line name) indices', us₂, same_indexed hsame rfl, hrel₁,
        enters_of_primary ⟨n, fun m b s hm hb hs => (reads_peek_cons u us₁).bind ?_⟩⟩
      simp only [hu, hkind]
      refine (reads_next u us₁).bind ((hglued m b s hm hb hs).bind ?_)
      simp only [hnot', Bool.false_eq_true, if_false]
      exact reads_pure _ _
    | @setApart u us₁ us₂ indices' hstrict hus hword hkind' hname hne hindices hsame hrel₁ =>
      subst hus
      obtain ⟨hfree, -, hkeyword⟩ := tidy_of_indexed (htidy hstrict)
      have hu : u.kind = .identifier := hkind' (hkeyword hne name rfl)
      have hne' : indices' ≠ [] := by
        rintro rfl
        cases indices with
        | nil => exact hne rfl
        | cons e es => cases hsame
      obtain ⟨z, hz, hleads⟩ := hindices.leadsTo (.var u.line name)
      refine ⟨z, us₂, (same_indexed hsame (x := .var t.line name)
        (y := .var u.line name) rfl).trans hz, hrel₁, Enters.leadsTo ?_ hleads⟩
      refine enters_of_primary (attains_of_reads fun e b _ => (reads_peek_cons u us₁).bind ?_)
      have hglued : Grammar.glued e b u = pure (name, []) := by
        rw [glued_of_bracketFree e b (by rw [hname]; exact hfree), hname]
      simp only [hu, Grammar.nameExpr, hglued, pure_bind, List.isEmpty_nil, if_true]
      refine (reads_next u us₁).bind ((hindices.reads_hasOperator_call hne').bind ?_)
      exact reads_pure _ _

/-- **A primary expression**, up to where the loop behind it is entered. -/
lemma Words.primaryOf (budget : Nat) (hrel : M.rel ts us) :
    M.Operates (primaryOf inner budget) ts us := by
  refine Ensures.bind (ensures_peekAt 0 ts) ?_
  rintro _ ts ⟨rfl, rfl⟩
  cases ts with
  | nil => exact ensures_failExpected _
  | cons t ts =>
    simp only [List.getElem?_cons_zero]
    have hliteral : ∀ value, t.kind ≠ .keyword → t.kind ≠ .identifier → (∀ e b u, u.kind = t.kind →
        u.lexeme = t.lexeme → ∀ us v, value = some v →
          Reads (Grammar.primaryOf e b) (u :: us) (literalExpr u v) us) →
        M.Operates (literal t value) (t :: ts) us := by
      intro value hkeyword hidentifier hright
      have hword : ¬ t.isWord = true := by simp [Token.isWord, hkeyword, hidentifier]
      obtain ⟨u, us, rfl, hspell, hrest⟩ := exists_of_plain hrel fun hw => absurd hw hword
      exact Operates.of_at (at_literal hspell hrest fun e b => hright e b u
        (Token.kind_eq_of_spelling hspell) (Token.lexeme_eq_of_spelling hspell) us)
    cases hkind : t.kind <;> dsimp only
    case number | floatNumber | stringLiteral | charLiteral =>
      refine hliteral _ (by simp [hkind]) (by simp [hkind]) fun e b u hu hlexeme us v hv => ?_
      refine (reads_peek_cons u us).bind ?_
      simp only [hu, hkind, hlexeme, hv]
      exact reads_literal u v us
    case keyword => exact Operates.of_at (h.keywordExpr budget hkind hrel)
    case identifier => exact h.nameExpr budget hkind hrel
    case operator =>
      split
      next hopen => exact Operates.of_at (h.grouped hkind hopen hrel)
      next => exact ensures_throw _
    case error | unknown => exact ensures_throw _

end Primary

/-! ## Behind primary expressions -/

/-- What follows the point behind the expression `e`, from the word `t` on: a member with its
indices, or a call. -/
def memberOf (expr : Parser Expr) (budget : Nat) (e : Expr) (t : Token) : Parser Expr := do
  let parts ← glued expr budget t
  let opensCall ← hasOperator "("
  if opensCall && parts.2.isEmpty then
    let args ← Grammar.arguments expr budget
    return .methodCall t.line e parts.1 args
  else
    return indexed (.field t.line e parts.1) parts.2

lemma memberOf_bind {β : Type} (expr : Parser Expr) (budget : Nat) (e : Expr) (t : Token)
    (k : Expr → Parser β) : memberOf expr budget e t >>= k = (do
      let parts ← glued expr budget t
      let opensCall ← hasOperator "("
      if opensCall && parts.2.isEmpty then
        let args ← Grammar.arguments expr budget
        k (.methodCall t.line e parts.1 args)
      else
        k (indexed (.field t.line e parts.1) parts.2)) := by
  simp only [memberOf, bind_assoc]
  congr 1
  funext parts
  congr 1
  funext opensCall
  split <;> simp

/-- A word behind a point is read as a member: the loop goes on with `y'` in front of `us'`. -/
def Joins (us : List Token) (y y' : Expr) (us' : List Token) : Prop :=
  ∃ u us₁, us = u :: us₁ ∧ u.isWord = true ∧ ∀ z rest,
    Attains (fun e b s => trailers e b s y') us' z rest →
      Attains (fun e b s => memberOf e b y u >>= trailers e b s) us₁ z rest

/-- A member behind a point is one round of the loop. -/
lemma Joins.leadsTo {point : Token} {us us' : List Token} {y y' : Expr}
    (hpoint : point.isOperator "." = true) (h : Joins us y y' us') :
    LeadsTo y (point :: us) y' us' := by
  obtain ⟨u, us₁, rfl, hword, hmember⟩ := h
  intro z rest hz
  obtain ⟨n, hz⟩ := hmember z rest hz
  refine Attains.step ⟨n, fun m b s hm hb hs => ?_⟩
  refine (reads_acceptOperator_true hpoint (u :: us₁)).bind ?_
  refine (reads_anyToken u us₁).bind ?_
  have hround := hz m b s hm hb hs
  simp only [memberOf_bind] at hround
  rw [if_pos (show (decide (u.kind = .identifier) || decide (u.kind = .keyword)) = true from hword)]
  exact hround

lemma joins_of_attains {us us' : List Token} {y y' : Expr} (hword : u.isWord = true)
    (h : Attains (fun e b _ => memberOf e b y u) us y' us') : Joins (u :: us) y y' us' :=
  ⟨u, us, rfl, hword, fun _ _ hz => h.bind hz⟩

section Trailers

variable (h : M.Words inner)
include h

/-- A member behind a point. -/
lemma Words.memberOf (budget : Nat) (x : Expr) (hword : t.isWord = true) (ts : List Token) :
    Ensures (memberOf inner budget x t) ts fun x' ts' => (tidy x' → tidy x) ∧
      ∀ y us, same x y → M.rel (t :: ts) us → (ts' = [] → M.calls) → (M.strict → tidy x') →
        ∃ y' us', same x' y' ∧ M.rel ts' us' ∧ Joins us y y' us' := by
  have hunglues : Ensures (glued inner budget t) ts fun r ts' => ∀ us, M.rel (t :: ts) us →
      (M.strict → BracketFree r.1) → M.Unglued t r.1 r.2 ts' us :=
    fun _ _ _ hc hrun us hrel => h.unglues budget hrel hword hc hrun
  refine Ensures.bind hunglues ?_
  rintro ⟨name, indices⟩ ts₁ hunglued
  refine Ensures.bind (ensures_hasOperatorAt 0 "(" ts₁) ?_
  rintro _ ts₁ ⟨rfl, rfl⟩
  split
  next hcall =>
    obtain ⟨hopen, hempty⟩ : (ts₁[0]?.any fun t => t.isOperator "(") = true ∧ indices = [] := by
      simpa using hcall
    subst hempty
    refine Ensures.bind (h.ensures_arguments budget ts₁) ?_
    intro args ts₂ hargs
    refine ensures_pure ⟨fun htidy => htidy.1, fun y us hxy hrel _ htidy => ?_⟩
    obtain ⟨u, us₁, us₂, rfl, hu, ⟨n, hglued⟩, hrel₁⟩ :=
      (hunglued us hrel fun hs => (htidy hs).2.1).of_nil
    obtain ⟨args', us', hsame, hrel', k, hargs'⟩ := hargs us₂ hrel₁ fun hs => (htidy hs).2.2
    have hhas := reads_hasOperator_of_call hrel₁ hopen
    refine ⟨.methodCall u.line y name args', us', ?_, hrel', joins_of_attains
      (by rw [Token.isWord, hu]; exact hword) ⟨n + k, fun m b s hm hb hs => ?_⟩⟩
    · change Expr.unlined (.methodCall _ _ _ _) = Expr.unlined (.methodCall _ _ _ _)
      rw [Expr.unlined, Expr.unlined, show Expr.unlinedAll args = Expr.unlinedAll args' from hsame,
        show x.unlined = y.unlined from hxy]
    · refine (hglued m b s (by omega) (by omega) (by omega)).bind (hhas.bind ?_)
      exact (hargs' m b s (by omega) (by omega) (by omega)).bind (reads_pure _ _)
  next hcall =>
    refine ensures_pure ⟨fun htidy => (tidy_of_indexed htidy).1.1,
      fun y us hxy hrel hend htidy => ?_⟩
    have hfield : ∀ line line', same (Expr.field line x name) (Expr.field line' y name) := by
      intro line line'
      change Expr.unlined (.field _ _ _) = Expr.unlined (.field _ _ _)
      rw [Expr.unlined, Expr.unlined, show x.unlined = y.unlined from hxy]
    cases hunglued us hrel fun hs => (tidy_of_indexed (htidy hs)).1.2 with
    | @whole u us₁ us₂ indices' hus hu hrun hsame hrel₁ =>
      subst hus
      obtain ⟨n, hglued⟩ := hrun
      refine ⟨indexed (.field u.line y name) indices', us₂, same_indexed hsame (hfield _ _), hrel₁,
        joins_of_attains (by rw [Token.isWord, hu]; exact hword) ⟨n, fun m b s hm hb hs => ?_⟩⟩
      refine (hglued m b s hm hb hs).bind ((reads_hasOperator "(" us₂).bind ?_)
      have hnot : ((us₂.head?.any fun t => t.isOperator "(") && indices'.isEmpty) = false := by
        cases indices' with
        | cons e es => simp
        | nil =>
          cases indices with
          | cons e es => cases hsame
          | nil =>
            have hopen : (ts₁.head?.any fun t => t.isOperator "(") = false := by
              rw [List.head?_eq_getElem?]
              simpa using hcall
            have hright := ensures_of_reads (reads_hasOperator_call hrel₁ hend hopen)
              (c := .ofTokens us₂) rfl (reads_hasOperator "(" us₂ (.ofTokens us₂) rfl).choose_spec.1
            rw [hright.1, Bool.false_and]
      simp only [hnot, Bool.false_eq_true, if_false]
      exact reads_pure _ _
    | @setApart u us₁ us₂ indices' hstrict hus hword' hkind' hname hne hindices hsame hrel₁ =>
      subst hus
      obtain ⟨⟨-, hfree⟩, -, -⟩ := tidy_of_indexed (htidy hstrict)
      have hne' : indices' ≠ [] := by
        rintro rfl
        cases indices with
        | nil => exact hne rfl
        | cons e es => cases hsame
      obtain ⟨z, hz, hleads⟩ := hindices.leadsTo (.field u.line y name)
      refine ⟨z, us₂, (same_indexed hsame (hfield t.line u.line)).trans hz, hrel₁,
        u, us₁, rfl, hword', fun w rest hw => ?_⟩
      refine Attains.bind (attains_of_reads fun e b _ => ?_) (hleads w rest hw)
      rw [Mirror.memberOf, glued_of_bracketFree e b (by rw [hname]; exact hfree), hname, pure_bind]
      exact (hindices.reads_hasOperator_call hne').bind (reads_pure _ _)

end Trailers

/-- The next token, if there is one, is nothing that the loop behind primary expressions reads. -/
def Halts (ts : List Token) : Prop :=
  ∀ t ∈ ts.head?, t.isOperator "." = false ∧ t.isOperator "[" = false ∧ trailingStep? t = none

lemma Halts.reads (hts : Halts ts) (e : Parser Expr) (b s : Nat) (x : Expr) :
    Reads (trailers e b (s + 1) x) ts x ts := by
  cases ts with
  | nil =>
    have hnone : ∀ op, (([] : List Token).head?.any fun t => t.isOperator op) = false := fun _ => rfl
    refine (reads_acceptOperator_false (hnone ".")).bind ?_
    exact (reads_hasOperator "[" []).bind (reads_peek_nil.bind (reads_pure _ _))
  | cons t ts =>
    obtain ⟨hpoint, hopen, hstep⟩ := hts t rfl
    have hpoint' : ((t :: ts).head?.any fun t => t.isOperator ".") = false := hpoint
    have hhas : Reads (hasOperator "[") (t :: ts) false (t :: ts) := by
      simpa [hopen] using reads_hasOperator "[" (t :: ts)
    refine (reads_acceptOperator_false hpoint').bind (hhas.bind ?_)
    refine (reads_peek_cons t ts).bind ?_
    simp only [Option.bind_some, hstep]
    exact reads_pure _ _

/-- Where the loop halts on the one side, it does on the other. -/
lemma Halts.mirror (hts : Halts ts) (hrel : M.rel ts us) (hends : ts = [] → M.ends) : Halts us := by
  cases ts with
  | nil =>
    intro u hu
    have hfollows := M.follows hrel (hends rfl) u hu
    exact ⟨hfollows.isOperator_eq_false (by decide), hfollows.isOperator_eq_false (by decide),
      hfollows.trailingStep?_eq_none⟩
  | cons t ts =>
    obtain ⟨hpoint, hopen, hstep⟩ := hts t rfl
    rintro u hu
    have hsame : ∀ op, u.isOperator op = t.isOperator op := by
      intro op
      rw [← any_isOperator hrel op, Option.mem_def.mp hu, Option.any_some]
    exact ⟨(hsame _).trans hpoint, (hsame _).trans hopen, by
      rw [trailingStep?, hsame, hsame]
      exact hstep⟩

/-- What the loop behind primary expressions has done from `x` in front of `ts` to `z` in front of
`ts'` is mirrored: the other side has got as far, or it has left the loop too. -/
def Trails (M : Mirror) (x : Expr) (ts : List Token) (z : Expr) (ts' : List Token) : Prop :=
  ∀ y us, same x y → M.rel ts us → (ts' = [] → M.calls) → (M.strict → tidy z) →
    ∃ z' us', same z z' ∧ M.rel ts' us' ∧
      ((LeadsTo y us z' us' ∧ Halts ts') ∨
        (z.IsUnary ∧ Attains (fun e b s => trailers e b s y) us z' us'))

/-- What has led up to the loop can be put in front. -/
lemma trails_of_leadsTo {x x₁ z : Expr} {ts ts₁ ts' : List Token} (hx₁ : M.strict → tidy z → tidy x₁)
    (hnil : ts₁ = [] → ts' = [])
    (hlead : ∀ y us, same x y → M.rel ts us → (ts₁ = [] → M.calls) → (M.strict → tidy x₁) →
      ∃ y₁ us₁, same x₁ y₁ ∧ M.rel ts₁ us₁ ∧ LeadsTo y us y₁ us₁)
    (htrails : M.Trails x₁ ts₁ z ts') : M.Trails x ts z ts' := by
  intro y us hxy hrel hcalls htidy
  obtain ⟨y₁, us₁, hxy₁, hrel₁, hleads⟩ := hlead y us hxy hrel (fun h => hcalls (hnil h))
    fun hs => hx₁ hs (htidy hs)
  obtain ⟨z', us', hzz, hrel', ⟨hmore, hhalts⟩ | ⟨hunary, hrun⟩⟩ :=
    htrails y₁ us₁ hxy₁ hrel₁ hcalls htidy
  · exact ⟨z', us', hzz, hrel', .inl ⟨hleads.trans hmore, hhalts⟩⟩
  · exact ⟨z', us', hzz, hrel', .inr ⟨hunary, hleads z' us' hrun⟩⟩

lemma ensures_acceptOperator (op : String) (ts : List Token) :
    Ensures (acceptOperator op) ts fun v ts' =>
      (v = true ∧ ∃ t, t.isOperator op = true ∧ ts = t :: ts') ∨
        (v = false ∧ ts' = ts ∧ (ts.head?.any fun t => t.isOperator op) = false) := by
  cases ts with
  | nil =>
    refine (ensures_acceptOperator_nil op).mono ?_
    rintro _ _ ⟨rfl, rfl⟩
    exact .inr ⟨rfl, rfl, rfl⟩
  | cons t ts =>
    cases ht : t.isOperator op with
    | true =>
      refine (ensures_of_reads (reads_acceptOperator_true ht ts)).mono ?_
      rintro _ _ ⟨rfl, rfl⟩
      exact .inl ⟨rfl, t, ht, rfl⟩
    | false =>
      have hno : ((t :: ts).head?.any fun t => t.isOperator op) = false := ht
      refine (ensures_of_reads (reads_acceptOperator_false hno)).mono ?_
      rintro _ _ ⟨rfl, rfl⟩
      exact .inr ⟨rfl, rfl, hno⟩

/-- At the end of the tokens the loop behind primary expressions is left. -/
lemma trailers_nil (inner : Parser Expr) (budget : Nat) : ∀ n x,
    Ensures (trailers inner budget n x) [] fun _ ts' => ts' = []
  | 0, _ => ensures_throw _
  | n + 1, x => by
    have hnil : Halts [] := fun t ht => by cases ht
    refine (ensures_of_reads (hnil.reads inner budget n x)).mono ?_
    rintro _ _ ⟨-, rfl⟩
    rfl

section Loop

variable (h : M.Words inner)
include h

/-- **The loop behind primary expressions.** -/
lemma Words.trailers (budget : Nat) : ∀ n x ts, Ensures (trailers inner budget n x) ts
    fun z ts' => (tidy z → tidy x) ∧ M.Trails x ts z ts'
  | 0, _, _ => ensures_throw _
  | n + 1, x, ts => by
    refine Ensures.bind (ensures_acceptOperator "." ts) ?_
    rintro _ ts₁ (⟨rfl, point, hpoint, rfl⟩ | ⟨rfl, rfl, hpoint⟩)
    · refine Ensures.bind (ensures_anyToken ts₁) ?_
      rintro w ts₂ rfl
      split
      next hword =>
        have hround : Ensures (Mirror.memberOf inner budget x w >>= Grammar.trailers inner budget n)
            ts₂ fun z ts' => (tidy z → tidy x) ∧ M.Trails x (point :: w :: ts₂) z ts' := by
          refine Ensures.bind (h.memberOf budget x hword ts₂) ?_
          rintro x₁ ts₃ ⟨hkeeps, hmember⟩ c z c' hc hrun
          obtain ⟨htidy, htrails⟩ := Words.trailers budget n x₁ ts₃ hc hrun
          refine ⟨fun hz => hkeeps (htidy hz), trails_of_leadsTo (fun _ => htidy) ?_ ?_ htrails⟩
          · rintro rfl
            exact trailers_nil inner budget n x₁ hc hrun
          · intro y us hxy hrel hcalls hx₁
            obtain ⟨u, us, rfl, hu, hrest⟩ := exists_of_isOperator hrel hpoint
            obtain ⟨y₁, us₁, hxy₁, hrel₁, hjoins⟩ := hmember y us hxy hrest hcalls hx₁
            exact ⟨y₁, us₁, hxy₁, hrel₁, hjoins.leadsTo hu⟩
        rw [memberOf_bind] at hround
        exact hround
      next => exact ensures_throw _
    · refine Ensures.bind (ensures_hasOperatorAt 0 "[" ts₁) ?_
      rintro _ ts ⟨rfl, rfl⟩
      split
      next =>
        refine Ensures.bind (ensures_expectWhere _ _ ts) ?_
        rintro opening ts₁ ⟨rfl, hopen⟩
        have hinner : Ensures inner ts₁ fun place ts₂ => ∀ us, M.rel ts₁ us → (ts₂ = [] → M.ends) →
            (M.strict → tidy place) → ∃ place' us₂, same place place' ∧ M.rel ts₂ us₂ ∧
              Attains (fun e _ _ => e) us place' us₂ :=
          fun _ _ _ hc hrun us hrel => h.thru.run hrel hc hrun
        refine Ensures.bind hinner ?_
        intro place ts₂ hplace
        refine Ensures.bind (ensures_expectWhere _ _ ts₂) ?_
        rintro closing ts₃ ⟨rfl, hclose⟩ c z c' hc hrun
        obtain ⟨htidy, htrails⟩ := Words.trailers budget n (.index opening.line x place) ts₃ hc hrun
        refine ⟨fun hz => (htidy hz).1, trails_of_leadsTo (fun _ => htidy) ?_ ?_ htrails⟩
        · rintro rfl
          exact trailers_nil inner budget n _ hc hrun
        · intro y us hxy hrel _ hx₁
          obtain ⟨u, us, rfl, hu, hrest⟩ := exists_of_isOperator hrel hopen
          obtain ⟨place', us₂, hsame, hrel₂, hrun'⟩ := hplace us hrest (by simp) fun hs => (hx₁ hs).2.1
          obtain ⟨v, us₃, rfl, hv, hrel₃⟩ := exists_of_isOperator hrel₂ hclose
          exact ⟨.index u.line y place', us₃, same_index hxy hsame, hrel₃, leadsTo_index hu hv hrun'⟩
      next hopen =>
        refine Ensures.bind (ensures_peekAt 0 ts) ?_
        rintro _ ts ⟨rfl, rfl⟩
        have hnone : (ts[0]?.any fun t => t.isOperator "[") = false := by simpa using hopen
        rw [← List.head?_eq_getElem?] at hnone ⊢
        cases hstep : ts.head?.bind trailingStep? with
        | none =>
          refine ensures_pure ⟨id, fun y us hxy hrel _ _ => ?_⟩
          refine ⟨y, us, hxy, hrel, .inl ⟨.refl y us, fun t ht => ?_⟩⟩
          rw [Option.mem_def.mp ht] at hpoint hnone hstep
          exact ⟨hpoint, hnone, hstep⟩
        | some op =>
          cases ts with
          | nil => cases hstep
          | cons t ts =>
            refine Ensures.bind (ensures_of_reads (reads_next t ts)) ?_
            rintro _ ts ⟨rfl, rfl⟩
            refine ensures_pure ⟨id, fun y us hxy hrel _ _ => ?_⟩
            have hword : ¬ t.isWord = true := by
              intro hword
              simp [trailingStep?, Token.isOperator_of_isWord hword] at hstep
            obtain ⟨u, us, rfl, hspell, hrest⟩ := exists_of_plain hrel fun hw => absurd hw hword
            have hsame : ∀ op, u.isOperator op = t.isOperator op := Token.isOperator_congr hspell
            have hstep' : trailingStep? u = some op := by
              rw [trailingStep?, hsame, hsame]
              exact hstep
            refine ⟨.unary y.line op y, us, ?_, hrest, .inr ⟨trivial, Attains.step ?_⟩⟩
            · exact same_unary hxy op
            · refine attains_of_reads fun e b s => ?_
              have hpoint' : ((u :: us).head?.any fun t => t.isOperator ".") = false :=
                (hsame ".").trans hpoint
              have hopen' : Reads (hasOperator "[") (u :: us) false (u :: us) := by
                have hno : ((u :: us).head?.any fun t => t.isOperator "[") = false :=
                  (hsame "[").trans hnone
                exact hno ▸ reads_hasOperator "[" (u :: us)
              refine (reads_acceptOperator_false hpoint').bind (hopen'.bind ?_)
              refine (reads_peek_cons u us).bind ?_
              simp only [Option.bind_some, hstep']
              exact (reads_next u us).bind (reads_pure _ _)

omit h in
lemma fails_operand (budget : Nat) : Ensures (operand inner budget) [] fun _ _ => False :=
  fails_bind ((ensures_peekAt 0 []).bind (by
    rintro _ _ ⟨rfl, rfl⟩
    exact ensures_failExpected _))

/-- **Operands**, with all that stands behind them. -/
lemma Words.operand (budget : Nat) :
    M.Thru M.ends K True (operand inner budget) fun e b _ => operand e b where
  stops := (fails_operand budget).mono fun _ _ hfalse => hfalse.elim
  keeps _ := fun _ _ _ _ _ _ _ => trivial
  run ts us hrel := by
    refine Ensures.bind (h.primaryOf budget hrel) ?_
    intro x ts₁ hx c z c' hc hrun hend htidy
    obtain ⟨hkeeps, htrails⟩ := h.trailers budget budget x ts₁ hc hrun
    have hcalls : c'.upcoming = [] → M.calls := fun hnil => M.calls_of_ends (hend hnil)
    obtain ⟨y, us₁, hxy, hrel₁, henters⟩ := hx (fun hnil => by
      subst hnil
      exact hcalls (trailers_nil inner budget budget x hc hrun)) fun hs => hkeeps (htidy hs)
    obtain ⟨z', us', hzz, hrel', ⟨hleads, hhalts⟩ | ⟨-, hloop⟩⟩ := htrails y us₁ hxy hrel₁ hcalls htidy
    · refine ⟨z', us', hzz, hrel', henters z' us' (hleads z' us' (Attains.step ?_))⟩
      exact attains_of_reads fun e b s => (hhalts.mirror hrel' hend).reads e b s z'
    · exact ⟨z', us', hzz, hrel', henters z' us' hloop⟩

end Loop

end Mirror

end Grammar

end ClassLang
