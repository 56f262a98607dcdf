import ClassLang.Proofs.Grammar.Layers
import ClassLang.Proofs.Grammar.Passage

set_option autoImplicit false

/-!
# Runs that are mirrored

A run of the parser is mirrored by a run on other tokens if both come to the same expression, up to
lines, and leave tokens that are again related. Only successful runs are mirrored, and the other
run may take a larger budget. How the tokens of the two sides are related is left open: a mirror is
a relation together with what it says about the ends of the two lists.

At the end of the tokens on the one side there may be more tokens on the other. A production that
looks ahead there is mirrored only if these tokens do not go on with what it has read.

## Main definitions

* `ClassLang.Expr.Tidy` — expressions whose names can be written with their brackets set apart.
* `ClassLang.Grammar.Attains` — what a parser reads with all budgets that are large enough.
* `ClassLang.Grammar.Mirror` — relations between tokens.
* `ClassLang.Grammar.Mirror.At`, `ClassLang.Grammar.Mirror.Thru` — parsers whose runs are mirrored
  from given tokens, and from all that are related.

## Main results

* `ClassLang.Grammar.Mirror.At.bind`, `ClassLang.Grammar.Mirror.Thru.bind` — parsers in sequence.
-/

namespace ClassLang

/-! ## Values up to lines -/

/-- The name of a variable. -/
def Expr.varName? : Expr → Option String
  | .var _ name => some name
  | _ => none

mutual

/-- The expressions made of literals, names without brackets, operators, access and calls, in which
no keyword is indexed. -/
def Expr.Tidy : Expr → Prop
  | .literal _ _ => True
  | .var _ name => BracketFree name
  | .binary _ _ left right => left.Tidy ∧ right.Tidy
  | .unary _ _ operand => operand.Tidy
  | .call _ name args => BracketFree name ∧ Expr.AllTidy args
  | .methodCall _ receiver name args => receiver.Tidy ∧ BracketFree name ∧ Expr.AllTidy args
  | .index _ array place =>
    array.Tidy ∧ place.Tidy ∧ ∀ name ∈ array.varName?, Word.isKeyword name = false
  | .field _ object name => object.Tidy ∧ BracketFree name
  | .assign _ target value => target.Tidy ∧ value.Tidy
  | .newObject _ _ _ | .newArray _ _ _ _ | .arrayInit _ _ => False

/-- Every expression of a list is tidy. -/
def Expr.AllTidy : List Expr → Prop
  | [] => True
  | e :: es => e.Tidy ∧ Expr.AllTidy es

end

/-- Values that are compared up to lines, some of which are tidy. -/
class Likeness (α : Type) where
  tidy : α → Prop
  same : α → α → Prop
  same_refl : ∀ x, same x x

export Likeness (tidy same)

instance : Likeness Expr where
  tidy := Expr.Tidy
  same x y := x.unlined = y.unlined
  same_refl _ := rfl

instance : Likeness (List Expr) where
  tidy := Expr.AllTidy
  same xs ys := Expr.unlinedAll xs = Expr.unlinedAll ys
  same_refl _ := rfl

section Same

variable {x y x' y' : Expr} {xs xs' : List Expr} {line line' : Nat}

lemma same_cons (hx : same x x') (hxs : same xs xs') : same (x :: xs) (x' :: xs') :=
  congrArg₂ List.cons hx hxs

lemma same_unary (hx : same x x') (op : UnaryOp) :
    same (Expr.unary line op x) (Expr.unary line' op x') :=
  congrArg (Expr.unary 0 op) hx

lemma same_binary (hx : same x x') (hy : same y y') (op : BinaryOp) :
    same (Expr.binary line op x y) (Expr.binary line' op x' y') :=
  congrArg₂ (Expr.binary 0 op) hx hy

lemma same_index (hx : same x x') (hy : same y y') :
    same (Expr.index line x y) (Expr.index line' x' y') :=
  congrArg₂ (Expr.index 0) hx hy

lemma same_newArray (hx : same x x') (type : TypeExpr) (inferred : Bool) :
    same (Expr.newArray line type x inferred) (Expr.newArray line' type x' inferred) :=
  congrArg (Expr.newArray 0 type · inferred) hx

end Same

namespace Token

variable {t u : Token}

lemma kind_eq_of_spelling (h : u.spelling = t.spelling) : u.kind = t.kind := (Prod.mk.inj h).1

lemma lexeme_eq_of_spelling (h : u.spelling = t.spelling) : u.lexeme = t.lexeme := (Prod.mk.inj h).2

lemma isOperator_congr (h : u.spelling = t.spelling) (op : String) :
    u.isOperator op = t.isOperator op := by
  rw [isOperator, isOperator, kind_eq_of_spelling h, lexeme_eq_of_spelling h]

lemma isOperator_of_isWord (h : t.isWord = true) (op : String) : t.isOperator op = false := by
  have hkind : t.kind ≠ .operator := by
    rintro hkind
    simp [isWord, hkind] at h
  simp [isOperator, hkind]

end Token

namespace Grammar

open ClassLang.Parser

variable {α β : Type}

/-! ## Large budgets -/

/-- A parser that depends on a parser for expressions, on a budget and on a number of steps. -/
abbrev Scheme (α : Type) := Parser Expr → Nat → Nat → Parser α

/-- With all budgets that are large enough, the parser reads the value `y` off the tokens `us` and
leaves `rest`. -/
def Attains (q : Scheme α) (us : List Token) (y : α) (rest : List Token) : Prop :=
  ∃ n, ∀ m b s, n ≤ m → n ≤ b → n ≤ s → Reads (q (exprWithin m) b s) us y rest

section Attains

variable {q : Scheme α} {g : α → Scheme β} {us mid rest : List Token} {y : α} {z : β}

lemma attains_of_reads (h : ∀ e b s, Reads (q e b s) us y rest) : Attains q us y rest :=
  ⟨0, fun _ _ _ _ _ _ => h _ _ _⟩

lemma Attains.bind (hq : Attains q us y mid) (hg : Attains (g y) mid z rest) :
    Attains (fun e b s => q e b s >>= fun y => g y e b s) us z rest := by
  obtain ⟨n, hq⟩ := hq
  obtain ⟨k, hg⟩ := hg
  refine ⟨n + k, fun m b s hm hb hs => ?_⟩
  exact (hq m b s (by omega) (by omega) (by omega)).bind (hg m b s (by omega) (by omega) (by omega))

/-- One step is taken off a large number of steps. -/
lemma Attains.step (h : Attains (fun e b s => q e b (s + 1)) us y rest) : Attains q us y rest := by
  obtain ⟨n, h⟩ := h
  refine ⟨n + 1, fun m b s hm hb hs => ?_⟩
  obtain ⟨s, rfl⟩ : ∃ k, s = k + 1 := ⟨s - 1, by omega⟩
  exact h m b s (by omega) (by omega) (by omega)

/-- The budget is a large number of steps. -/
lemma Attains.start (h : Attains q us y rest) : Attains (fun e b _ => q e b b) us y rest := by
  obtain ⟨n, h⟩ := h
  exact ⟨n, fun m b _ hm hb _ => h m b b hm hb hb⟩

/-- An expression is an assignment with a smaller budget inside it. -/
lemma Attains.knot {y : Expr} (h : Attains (fun e b _ => assignment e b) us y rest) :
    Attains (fun e _ _ => e) us y rest := by
  obtain ⟨n, h⟩ := h
  refine ⟨n + 1, fun m _ _ hm _ _ => ?_⟩
  obtain ⟨m, rfl⟩ : ∃ k, m = k + 1 := ⟨m - 1, by omega⟩
  exact h m (m + 1) n (by omega) (by omega) le_rfl

lemma attains_pure (y : α) (us : List Token) : Attains (fun _ _ _ => pure y) us y us :=
  attains_of_reads fun _ _ _ => reads_pure y us

end Attains

/-! ## Mirrors -/

/-- A relation between the tokens of two sides. At the end of the one side, `calls` says that no
argument list follows on the other, and `ends` that what follows ends every expression. If the
mirror is `strict`, only runs with a tidy result are mirrored. -/
structure Mirror where
  rel : List Token → List Token → Prop
  calls : Prop
  ends : Prop
  strict : Prop
  calls_of_ends : ends → calls
  opensNoCall : ∀ ⦃us⦄, rel [] us → calls → OpensNoCall us
  follows : ∀ ⦃us⦄, rel [] us → ends → Follows 0 us
  /-- A token that is no word is the same on both sides, and so is a keyword. -/
  cons : ∀ ⦃t ts us⦄, rel (t :: ts) us → ∃ u us', us = u :: us' ∧ u.isWord = t.isWord ∧
    ((t.isWord = true → t.kind = .keyword ∧ (strict → BracketFree t.lexeme)) →
      u.spelling = t.spelling ∧ rel ts us')
  /-- A number can lose its sign. -/
  behead : ∀ ⦃t ts u us op⦄, rel (t :: ts) (u :: us) → signOp? t = some op →
    rel (t.behead :: ts) (u.behead :: us)

namespace Mirror

variable (M : Mirror) [Likeness α] [Likeness β]

/-- Every successful run of `p` on the tokens `ts` is mirrored by `q` on the tokens `us`, if the
mirror is not strict or the value is tidy, and if at the end of the tokens `L` holds. -/
def At (L : Prop) (p : Parser α) (q : Scheme α) (ts us : List Token) : Prop :=
  Ensures p ts fun x ts' => (ts' = [] → L) → (M.strict → tidy x) →
    ∃ y us', same x y ∧ M.rel ts' us' ∧ Attains q us y us'

/-- Every successful run of `p` is mirrored by `q`. At the end of the tokens, `p` leaves nothing,
and has succeeded only if `K` holds, given `L`. A tidy value shows that `P` holds. -/
structure Thru (L K P : Prop) (p : Parser α) (q : Scheme α) : Prop where
  stops : Ensures p [] fun _ ts' => ts' = [] ∧ (L → K)
  keeps : ∀ ts, Ensures p ts fun x _ => M.strict → tidy x → P
  run : ∀ ⦃ts us⦄, M.rel ts us → M.At L p q ts us

variable {M} {L K J P : Prop} {p : Parser α} {q : Scheme α} {f : α → Parser β} {g : α → Scheme β}
  {ts us : List Token}

/-- **Parsers in sequence.** Where the second one stops at the end of the tokens, the first one has
to be mirrored there. -/
lemma At.bind (hp : M.At K p q ts us)
    (hf : ∀ x y, same x y → M.Thru L K (tidy x) (f x) (g y)) :
    M.At L (p >>= f) (fun e b s => q e b s >>= fun y => g y e b s) ts us := by
  intro c z c' hc hrun hend htidy
  obtain ⟨x, d, hx, hz⟩ := exists_of_runFrom_bind hrun
  have hfx := fun y hy => hf x y hy
  have hxx := hfx x (Likeness.same_refl x)
  obtain ⟨y, mid, hxy, hmid, hq⟩ := hp hc hx
    (fun hd => by
      obtain ⟨hnil, hK⟩ := hxx.stops hd hz
      exact hK (hend hnil))
    (fun hstrict => hxx.keeps d.upcoming rfl hz hstrict (htidy hstrict))
  obtain ⟨w, rest, hzw, hrest, hg⟩ := (hfx y hxy).run hmid rfl hz hend htidy
  exact ⟨w, rest, hzw, hrest, hq.bind hg⟩

lemma Thru.bind {P' : Prop} (hp : M.Thru K J P' p q)
    (hf : ∀ x y, same x y → M.Thru L K (P ∧ tidy x) (f x) (g y)) :
    M.Thru L J P (p >>= f) (fun e b s => q e b s >>= fun y => g y e b s) where
  stops := by
    refine Ensures.bind hp.stops ?_
    rintro x _ ⟨rfl, hKJ⟩
    refine (hf x x (Likeness.same_refl x)).stops.mono ?_
    rintro _ _ ⟨rfl, hLK⟩
    exact ⟨rfl, hKJ ∘ hLK⟩
  keeps ts := by
    refine Ensures.bind (Q := fun _ _ => True) (fun _ _ _ _ _ => trivial) fun x us _ => ?_
    refine ((hf x x (Likeness.same_refl x)).keeps us).mono ?_
    exact fun _ _ hP hstrict htidy => (hP hstrict htidy).1
  run _ _ hrel := (hp.run hrel).bind fun x y hxy =>
    { hf x y hxy with keeps := fun ts => ((hf x y hxy).keeps ts).mono fun _ _ hP hs ht => (hP hs ht).2 }

lemma thru_pure {x y : α} (hxy : same x y) (hP : M.strict → tidy x → P) :
    M.Thru L L P (pure x) fun _ _ _ => pure y where
  stops := ensures_pure ⟨rfl, id⟩
  keeps _ := ensures_pure hP
  run _ us hrel := ensures_pure fun _ _ => ⟨y, us, hxy, hrel, attains_pure y us⟩

lemma thru_throw (e : SyntaxError) : M.Thru L K P (throw e : Parser α) q where
  stops := ensures_throw e
  keeps _ := ensures_throw e
  run _ _ _ := ensures_throw e

/-- A parser that fails at the end of the tokens has succeeded there for any reason. -/
lemma Thru.of_fails (hp : M.Thru L J P p q) (hfails : Ensures p [] fun _ _ => False) :
    M.Thru L K P p q :=
  { hp with stops := hfails.mono fun _ _ h => h.elim }

lemma Thru.keeping {P' : Prop} (hp : M.Thru L K P p q) (hP : P → P') : M.Thru L K P' p q :=
  { hp with keeps := fun ts => (hp.keeps ts).mono fun _ _ h hs ht => hP (h hs ht) }

lemma Thru.step (hp : M.Thru L K P p fun e b s => q e b (s + 1)) : M.Thru L K P p q :=
  { hp with run := fun _ _ hrel => (hp.run hrel).mono fun _ _ h hend htidy =>
      let ⟨y, us', hxy, hus, hq⟩ := h hend htidy
      ⟨y, us', hxy, hus, hq.step⟩ }

lemma Thru.start (hp : M.Thru L K P p q) : M.Thru L K P p fun e b _ => q e b b :=
  { hp with run := fun _ _ hrel => (hp.run hrel).mono fun _ _ h hend htidy =>
      let ⟨y, us', hxy, hus, hq⟩ := h hend htidy
      ⟨y, us', hxy, hus, hq.start⟩ }

/-! ## Looks ahead -/

/-- In front of a token, both sides see the same operator or none. -/
lemma any_isOperator {t : Token} (hrel : M.rel (t :: ts) us) (op : String) :
    (us.head?.any fun u => u.isOperator op) = t.isOperator op := by
  obtain ⟨u, us, rfl, hword, hsame⟩ := M.cons hrel
  cases ht : t.isWord with
  | true =>
    rw [ht] at hword
    rw [Token.isOperator_of_isWord ht]
    exact Token.isOperator_of_isWord hword op
  | false =>
    obtain ⟨hspell, -⟩ := hsame (by simp [ht])
    exact Token.isOperator_congr hspell op

/-- A token that is an operator is there on both sides. -/
lemma exists_of_isOperator {t : Token} {op : String} (hrel : M.rel (t :: ts) us)
    (ht : t.isOperator op = true) :
    ∃ u us', us = u :: us' ∧ u.isOperator op = true ∧ M.rel ts us' := by
  obtain ⟨u, us, rfl, -, hsame⟩ := M.cons hrel
  have hword : ¬ t.isWord = true := fun h => by simp [Token.isOperator_of_isWord h] at ht
  obtain ⟨hspell, hrest⟩ := hsame fun h => absurd h hword
  exact ⟨u, us, rfl, by rw [Token.isOperator_congr hspell, ht], hrest⟩

lemma at_hasOperator_bind {f : Bool → Parser β} {g : Bool → Scheme β} (op : String)
    (h : M.At L (f (ts.head?.any fun t => t.isOperator op))
      (g (us.head?.any fun u => u.isOperator op)) ts us) :
    M.At L (hasOperator op >>= f) (fun e b s => hasOperator op >>= fun v => g v e b s) ts us := by
  intro c z c' hc hrun hend htidy
  obtain ⟨v, d, hv, hz⟩ := exists_of_runFrom_bind hrun
  obtain ⟨rfl, hd⟩ := ensures_of_reads (reads_hasOperator op ts) hc hv
  obtain ⟨w, rest, hzw, hrest, hg⟩ := h hd hz hend htidy
  exact ⟨w, rest, hzw, hrest,
    Attains.bind (attains_of_reads fun _ _ _ => reads_hasOperator op us) hg⟩

lemma at_peek_bind {f : Option Token → Parser β} {g : Option Token → Scheme β}
    (h : M.At L (f ts[0]?) (g us[0]?) ts us) :
    M.At L (peek >>= f) (fun e b s => peek >>= fun v => g v e b s) ts us := by
  intro c z c' hc hrun hend htidy
  obtain ⟨v, d, hv, hz⟩ := exists_of_runFrom_bind hrun
  obtain ⟨rfl, hd⟩ := ensures_peekAt 0 ts hc hv
  obtain ⟨w, rest, hzw, hrest, hg⟩ := h hd hz hend htidy
  exact ⟨w, rest, hzw, hrest, Attains.bind (attains_of_reads fun _ _ _ => reads_peekAt 0 us) hg⟩

lemma at_next_bind {f : Option Token → Parser β} {g : Option Token → Scheme β} {t u : Token}
    (h : M.At L (f (some t)) (g (some u)) ts us) :
    M.At L (next >>= f) (fun e b s => next >>= fun v => g v e b s) (t :: ts) (u :: us) := by
  intro c z c' hc hrun hend htidy
  obtain ⟨v, d, hv, hz⟩ := exists_of_runFrom_bind hrun
  obtain ⟨rfl, hd⟩ := ensures_of_reads (reads_next t ts) hc hv
  obtain ⟨w, rest, hzw, hrest, hg⟩ := h hd hz hend htidy
  exact ⟨w, rest, hzw, hrest, Attains.bind (attains_of_reads fun _ _ _ => reads_next u us) hg⟩

lemma at_pushFront_bind {f : Unit → Parser β} {g : Unit → Scheme β} (t u : Token)
    (h : M.At L (f ()) (g ()) (t :: ts) (u :: us)) :
    M.At L (pushFront t >>= f) (fun e b s => pushFront u >>= fun v => g v e b s) ts us := by
  intro c z c' hc hrun hend htidy
  obtain ⟨v, d, hv, hz⟩ := exists_of_runFrom_bind hrun
  obtain ⟨-, rfl⟩ := Prod.mk.inj hv
  obtain ⟨w, rest, hzw, hrest, hg⟩ := h (by rw [← hc]; rfl) hz hend htidy
  have hpush : Reads (pushFront u) us () (u :: us) := by
    rintro c rfl
    exact ⟨_, rfl, rfl⟩
  exact ⟨w, rest, hzw, hrest, Attains.bind (attains_of_reads fun _ _ _ => hpush) hg⟩

/-! ## Operators that have to be there -/

/-- Consumes an operator on both sides. -/
lemma at_expectOperator_bind {f : Token → Parser β} {g : Token → Scheme β} (op : String)
    (hrel : M.rel ts us)
    (h : ∀ t u ts' us', M.rel ts' us' → M.At L (f t) (g u) ts' us') :
    M.At L (expectOperator op >>= f) (fun e b s => expectOperator op >>= fun v => g v e b s)
      ts us := by
  intro c z c' hc hrun hend htidy
  obtain ⟨t, d, ht, hz⟩ := exists_of_runFrom_bind hrun
  obtain ⟨rfl, hop⟩ := ensures_expectWhere _ _ ts hc ht
  obtain ⟨u, us, rfl, hu, hrest⟩ := exists_of_isOperator hrel hop
  obtain ⟨w, rest, hzw, hrest, hg⟩ := h t u _ us hrest rfl hz hend htidy
  exact ⟨w, rest, hzw, hrest, Attains.bind (attains_of_reads fun _ _ _ => reads_expectOperator hu us) hg⟩

omit [Likeness β] in
lemma fails_expectOperator_bind {f : Token → Parser β} (op : String) :
    Ensures (expectOperator op >>= f) [] fun _ _ => False := by
  refine (ensures_expectWhere _ _ []).bind ?_
  rintro t us ⟨hcons, -⟩
  cases hcons

lemma thru_expectOperator_bind {f : Token → Parser β} {g : Token → Scheme β} (op : String)
    (h : ∀ t u, M.Thru L J P (f t) (g u)) :
    M.Thru L K P (expectOperator op >>= f)
      (fun e b s => expectOperator op >>= fun v => g v e b s) where
  stops := (fails_expectOperator_bind op).mono fun _ _ h => h.elim
  keeps _ := Ensures.bind (Q := fun _ _ => True) (fun _ _ _ _ _ => trivial)
    fun t us _ => (h t t).keeps us
  run _ _ hrel := at_expectOperator_bind op hrel fun t u _ _ hrest => (h t u).run hrest

/-- At the end of the tokens there is no operator. -/
lemma ensures_acceptOperator_nil (op : String) :
    Ensures (acceptOperator op) [] fun v ts => v = false ∧ ts = [] := by
  have hnil : (([] : List Token).head?.any fun t => t.isOperator op) = false := rfl
  exact ensures_of_reads (reads_acceptOperator_false hnil)

/-- Consumes an operator on both sides if it is next. At the end of the tokens, what follows
fails. -/
lemma thru_acceptOperator_bind {f : Bool → Parser β} {g : Bool → Scheme β} {N : Prop} (op : String)
    (hfails : Ensures (f false) [] fun _ _ => False) (htrue : M.Thru L J P (f true) (g true))
    (hfalse : M.Thru L N P (f false) (g false)) :
    M.Thru L K P (acceptOperator op >>= f)
      (fun e b s => acceptOperator op >>= fun v => g v e b s) where
  stops := by
    refine (ensures_acceptOperator_nil op).bind ?_
    rintro _ _ ⟨rfl, rfl⟩
    exact hfails.mono fun _ _ h => h.elim
  keeps ts := by
    refine Ensures.bind (Q := fun _ _ => True) (fun _ _ _ _ _ => trivial) fun v us _ => ?_
    cases v
    · exact hfalse.keeps us
    · exact htrue.keeps us
  run ts us hrel := by
    intro c z c' hc hrun hend htidy
    obtain ⟨v, d, hv, hz⟩ := exists_of_runFrom_bind hrun
    cases ts with
    | nil =>
      obtain ⟨rfl, hd⟩ := ensures_acceptOperator_nil op hc hv
      exact (hfails hd hz).elim
    | cons t ts =>
      cases ht : t.isOperator op with
      | true =>
        obtain ⟨rfl, hd⟩ := ensures_of_reads (reads_acceptOperator_true ht ts) hc hv
        obtain ⟨u, us, rfl, hu, hrest⟩ := exists_of_isOperator hrel ht
        obtain ⟨w, rest, hzw, hrest, hg⟩ := htrue.run hrest hd hz hend htidy
        exact ⟨w, rest, hzw, hrest,
          Attains.bind (attains_of_reads fun _ _ _ => reads_acceptOperator_true hu us) hg⟩
      | false =>
        have hts : ((t :: ts).head?.any fun t => t.isOperator op) = false := ht
        obtain ⟨rfl, hd⟩ := ensures_of_reads (reads_acceptOperator_false hts) hc hv
        have hus := (any_isOperator hrel op).trans ht
        obtain ⟨w, rest, hzw, hrest, hg⟩ := hfalse.run hrel hd hz hend htidy
        exact ⟨w, rest, hzw, hrest,
          Attains.bind (attains_of_reads fun _ _ _ => reads_acceptOperator_false hus) hg⟩

end Mirror

end Grammar

end ClassLang
