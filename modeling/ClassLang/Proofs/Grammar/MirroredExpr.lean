import ClassLang.Proofs.Grammar.MirroredOperand

set_option autoImplicit false

/-!
# Mirrored runs of the expression grammar

From operands on, every layer of the grammar is a loop that looks at the next token and returns what
it has if that token is taken for nothing. Such a loop is mirrored if what it does at a token is, so
the layers follow one by one, and by induction on the budget the whole grammar of expressions.

## Main definitions

* `ClassLang.Grammar.Mirror.Signals` — what tokens are taken for behind an expression.

## Main results

* `ClassLang.Grammar.Mirror.Level.chain` — a layer of binary operators.
* `ClassLang.Grammar.Mirror.Words.assignment` — expressions, from those inside them.
* `ClassLang.Grammar.Mirror.words_exprWithin` — expressions within a budget.
-/

namespace ClassLang.Grammar

open ClassLang.Parser

namespace Mirror

variable {M : Mirror} {inner : Parser Expr} {ts us : List Token} {t u : Token}

/-! ## Layers of operators -/

/-- What a token is taken for behind an expression: that depends on its spelling alone, and a word
or a sign that ends every expression is taken for nothing. -/
structure Signals {γ : Type} (κ : Token → Option γ) : Prop where
  congr : ∀ ⦃t u : Token⦄, u.spelling = t.spelling → κ u = κ t
  word : ∀ ⦃t : Token⦄, t.isWord = true → κ t = none
  ends : ∀ ⦃t : Token⦄, Ends 0 t → κ t = none

lemma signals_binaryOp? (ops : List BinaryOp) : Signals (binaryOp? ops) where
  congr t u hspell := by
    rw [binaryOp?, binaryOp?, Token.kind_eq_of_spelling hspell, Token.lexeme_eq_of_spelling hspell]
  word t hword := by
    have hkind : t.kind ≠ .operator := by
      intro hkind
      simp [Token.isWord, hkind] at hword
    rw [binaryOp?, if_neg hkind]
  ends t ht := by
    have hclosers : ∀ x ∈ closers, BinaryOp.ofText? x = none := by decide
    obtain ⟨hkind, hclose | ⟨hlt, -⟩ | ⟨op, hlt, -⟩⟩ := ht
    · simp [binaryOp?, hkind, hclosers _ hclose]
    · omega
    · omega

/-- A parser that looks at the next token, and returns the expression at hand if that token is taken
for nothing. -/
lemma thru_peek_bind {γ : Type} {κ : Token → Option γ} (hκ : Signals κ) {x y : Expr} (hxy : same x y)
    {f : Token → γ → Parser Expr} {g : Token → γ → Scheme Expr}
    (hkeeps : ∀ t r ts, Ensures (f t r) (t :: ts) fun z _ => M.strict → tidy z → tidy x)
    (hrun : ∀ t u r ts us, κ t = some r → u.spelling = t.spelling → M.rel (t :: ts) (u :: us) →
      M.rel ts us → M.At M.ends (f t r) (g u r) (t :: ts) (u :: us)) :
    M.Thru M.ends M.ends (tidy x)
      (peek >>= fun v => v.elim (pure x) fun t => (κ t).elim (pure x) (f t))
      fun e b s => peek >>= fun v => v.elim (pure y) fun u => (κ u).elim (pure y) fun r => g u r e b s
    where
  stops := by
    refine Ensures.bind (ensures_peekAt 0 []) ?_
    rintro _ _ ⟨rfl, rfl⟩
    exact ensures_pure ⟨rfl, id⟩
  keeps ts := by
    refine Ensures.bind (ensures_peekAt 0 ts) ?_
    rintro _ ts ⟨rfl, rfl⟩
    cases ts with
    | nil => exact ensures_pure fun _ => id
    | cons t ts =>
      simp only [List.getElem?_cons_zero, Option.elim_some]
      cases κ t with
      | none => exact ensures_pure fun _ => id
      | some r => exact hkeeps t r ts
  run ts us hrel := by
    refine at_peek_bind
      (g := fun v e b s => v.elim (pure y) fun u => (κ u).elim (pure y) fun r => g u r e b s) ?_
    cases ts with
    | nil =>
      refine ensures_pure fun hend _ => ⟨y, us, hxy, hrel, attains_of_reads fun e b s => ?_⟩
      cases us with
      | nil => exact reads_pure y []
      | cons u us =>
        simp only [List.getElem?_cons_zero, Option.elim_some,
          hκ.ends (M.follows hrel (hend rfl) u rfl), Option.elim_none]
        exact reads_pure y (u :: us)
    | cons t ts =>
      obtain ⟨u, us, rfl, hword, hsame⟩ := M.cons hrel
      simp only [List.getElem?_cons_zero, Option.elim_some]
      cases ht : t.isWord with
      | true =>
        rw [hκ.word ht, hκ.word (hword.trans ht)]
        exact ensures_pure fun _ _ => ⟨y, u :: us, hxy, hrel, attains_pure y (u :: us)⟩
      | false =>
        obtain ⟨hspell, hrest⟩ := hsame (by simp [ht])
        rw [hκ.congr hspell]
        cases hr : κ t with
        | none => exact ensures_pure fun _ _ => ⟨y, u :: us, hxy, hrel, attains_pure y (u :: us)⟩
        | some r => exact hrun t u r ts us hr hspell hrel hrest

section Layers

variable {p : Parser Expr} {q : Parser Expr → Nat → Parser Expr} (hp : M.Level p q)
include hp

omit hp in
lemma chainFrom_succ (ops : List BinaryOp) (p : Parser Expr) (n : Nat) (x : Expr) :
    chainFrom ops p (n + 1) x = peek >>= fun v => v.elim (pure x) fun t =>
      (binaryOp? ops t).elim (pure x) fun op => next >>= fun _ => p >>= fun right =>
        chainFrom ops p n (.binary t.line op x right) := by
  rw [chainFrom]
  refine congrArg _ (funext fun v => ?_)
  cases v with
  | none => rfl
  | some t =>
    dsimp only [Option.elim_some]
    cases binaryOp? ops t <;> rfl

/-- Binary operators with operands behind an expression. -/
lemma Level.chainFrom (ops : List BinaryOp) : ∀ n x y, same x y →
    M.Thru M.ends M.ends (tidy x) (chainFrom ops p n x) fun e b s => chainFrom ops (q e b) s y
  | 0, _, _, _ => thru_throw _
  | n + 1, x, y, hxy => by
    refine Thru.step ?_
    simp only [chainFrom_succ]
    have hround : ∀ t u op right right', same right right' →
        M.Thru M.ends M.ends (tidy x ∧ tidy right)
          (Grammar.chainFrom ops p n (.binary t op x right))
          fun e b s => Grammar.chainFrom ops (q e b) s (.binary u op y right') :=
      fun t u op right right' hright =>
        (Level.chainFrom ops n _ _ (same_binary hxy hright op)).keeping fun htidy => htidy
    refine thru_peek_bind (signals_binaryOp? ops) hxy (g := fun u op e b s => next >>= fun _ =>
      q e b >>= fun right => Grammar.chainFrom ops (q e b) s (.binary u.line op y right)) ?_ ?_
    · intro t op ts
      refine Ensures.bind (Q := fun _ _ => True) (fun _ _ _ _ _ => trivial) fun _ ts' _ => ?_
      exact ((hp.thru.bind fun right right' hright => hround t.line t.line op right right' hright).keeps
        ts')
    · intro t u op ts us _ _ _ hrest
      exact at_next_bind ((hp.thru.bind fun right right' hright =>
        (hround t.line u.line op right right' hright)).run hrest)

/-- **A layer of binary operators.** -/
lemma Level.chain (ops : List BinaryOp) (budget : Nat) :
    M.Level (chain ops p budget) fun e b => chain ops (q e b) b where
  thru := hp.thru.bind fun x y hxy => ((hp.chainFrom ops budget x y hxy).start).keeping
    fun htidy => ⟨trivial, htidy⟩
  fails := fails_bind hp.fails

omit hp in
lemma unaryOf_succ (p : Parser Expr) (n : Nat) :
    unaryOf p (n + 1) = peek >>= fun v => v.elim p fun t => (leadingOp? t).elim p fun op =>
      next >>= fun _ => unaryOf p n >>= fun x =>
        pure (op.elim x fun op => .unary t.line op x) := by
  rw [unaryOf]
  refine congrArg _ (funext fun v => ?_)
  cases v with
  | none => rfl
  | some t =>
    dsimp only [Option.elim_some]
    cases leadingOp? t with
    | none => rfl
    | some op => cases op <;> rfl

omit hp in
lemma leadingOp?_congr (hspell : u.spelling = t.spelling) : leadingOp? u = leadingOp? t := by
  have hsame := Token.isOperator_congr hspell
  rw [leadingOp?, leadingOp?, hsame, hsame, hsame, hsame, hsame]

lemma Level.fails_unaryOf : ∀ n, Ensures (unaryOf p n) [] fun _ _ => False
  | 0 => ensures_throw _
  | n + 1 => by
    refine Ensures.bind (ensures_peekAt 0 []) ?_
    rintro _ _ ⟨rfl, rfl⟩
    exact hp.fails

/-- Operators in front of an operand. -/
lemma Level.thru_unaryOf : ∀ n,
    M.Thru M.ends M.ends True (unaryOf p n) fun e b s => unaryOf (q e b) s
  | 0 => thru_throw _
  | n + 1 => by
    refine Thru.step ⟨(hp.fails_unaryOf (n + 1)).mono fun _ _ hfalse => hfalse.elim,
      fun _ _ _ _ _ _ _ _ => trivial, fun ts us hrel => ?_⟩
    simp only [unaryOf_succ]
    refine at_peek_bind (g := fun v e b s => v.elim (q e b) fun u => (leadingOp? u).elim (q e b)
      fun op => next >>= fun _ => unaryOf (q e b) s >>= fun x =>
        pure (op.elim x fun op => .unary u.line op x)) ?_
    cases ts with
    | nil => exact hp.fails.mono fun _ _ hfalse => hfalse.elim
    | cons t ts =>
      obtain ⟨u, us, rfl, hword, hsame⟩ := M.cons hrel
      simp only [List.getElem?_cons_zero, Option.elim_some]
      cases ht : t.isWord with
      | true =>
        have hnone : ∀ w : Token, w.isWord = true → leadingOp? w = none := fun w hw =>
          leadingOp?_eq_none fun hkind => by simp [Token.isWord, hkind] at hw
        rw [hnone t ht, hnone u (hword.trans ht)]
        exact hp.thru.run hrel
      | false =>
        obtain ⟨hspell, hrest⟩ := hsame (by simp [ht])
        rw [leadingOp?_congr hspell]
        cases leadingOp? t with
        | none => exact hp.thru.run hrel
        | some op =>
          refine at_next_bind (g := fun _ e b s => unaryOf (q e b) s >>= fun x =>
            pure (op.elim x fun op => .unary u.line op x)) ?_
          refine ((Level.thru_unaryOf n).run hrest).bind (g := fun x _ _ _ =>
            pure (op.elim x fun op => .unary u.line op x)) fun x y hxy => ?_
          cases op with
          | none => exact thru_pure hxy fun _ => id
          | some op =>
            exact thru_pure (same_unary hxy op) fun _ => id

/-- **Operators in front**, as a layer. -/
lemma Level.unaryOf (budget : Nat) : M.Level (unaryOf p budget) fun e b => unaryOf (q e b) b :=
  ⟨(hp.thru_unaryOf budget).start, hp.fails_unaryOf budget⟩

/-- What a token is taken for in a sum: an operator, or a number with a sign. -/
def sumSign? (t : Token) : Option (BinaryOp ⊕ Arith) :=
  ((binaryOp? [.arith .add, .arith .sub] t).map .inl).or ((signOp? t).map .inr)

omit hp in
lemma signals_sumSign? : Signals sumSign? where
  congr t u hspell := by
    have hsign : signOp? u = signOp? t := by
      rw [signOp?, signOp?, Token.kind_eq_of_spelling hspell, Token.lexeme_eq_of_spelling hspell]
    rw [sumSign?, sumSign?, (signals_binaryOp? _).congr hspell, hsign]
  word t hword := by
    have hsign : signOp? t = none := by
      rw [signOp?, if_neg]
      intro hnumber
      rcases (by simpa using hnumber : t.kind = .number ∨ t.kind = .floatNumber) with hkind | hkind <;>
        simp [Token.isWord, hkind] at hword
    rw [sumSign?, (signals_binaryOp? _).word hword, hsign]
    rfl
  ends t ht := by
    rw [sumSign?, (signals_binaryOp? _).ends ht, ht.signOp?_eq_none]
    rfl

omit hp in
lemma sumFrom_succ (p : Parser Expr) (n : Nat) (x : Expr) :
    sumFrom p (n + 1) x = peek >>= fun v => v.elim (pure x) fun t =>
      (sumSign? t).elim (pure x) fun r => next >>= fun _ =>
        r.elim (fun _ => pure ()) (fun _ => pushFront t.behead) >>= fun _ => p >>= fun right =>
          sumFrom p n (.binary t.line (r.elim id .arith) x right) := by
  rw [sumFrom]
  refine congrArg _ (funext fun v => ?_)
  cases v with
  | none => rfl
  | some t =>
    dsimp only [Option.elim_some, sumSign?]
    cases binaryOp? [.arith .add, .arith .sub] t with
    | some op => rfl
    | none => cases signOp? t <;> rfl

omit hp in
lemma signOp?_of_sumSign? {op : Arith} (h : sumSign? t = some (.inr op)) :
    signOp? t = some op := by
  rw [sumSign?] at h
  cases hop : binaryOp? [.arith .add, .arith .sub] t with
  | none => simpa [hop] using h
  | some op => simp [hop] at h

/-- Signs with operands behind an expression. -/
lemma Level.sumFrom : ∀ n x y, same x y →
    M.Thru M.ends M.ends (tidy x) (sumFrom p n x) fun e b s => sumFrom (q e b) s y
  | 0, _, _, _ => thru_throw _
  | n + 1, x, y, hxy => by
    refine Thru.step ?_
    simp only [sumFrom_succ]
    have hround : ∀ line line' op, M.Thru M.ends M.ends (tidy x)
        (p >>= fun right => Grammar.sumFrom p n (.binary line op x right))
        fun e b s => q e b >>= fun right =>
          Grammar.sumFrom (q e b) s (.binary line' op y right) :=
      fun line line' op => hp.thru.bind fun right right' hright =>
        (Level.sumFrom n _ _ (same_binary hxy hright op)).keeping fun htidy => htidy
    refine thru_peek_bind signals_sumSign? hxy (g := fun u r e b s => next >>= fun _ =>
      r.elim (fun _ => pure ()) (fun _ => pushFront u.behead) >>= fun _ => q e b >>= fun right =>
        Grammar.sumFrom (q e b) s (.binary u.line (r.elim id .arith) y right)) ?_ ?_
    · intro t r ts
      refine Ensures.bind (Q := fun _ _ => True) (fun _ _ _ _ _ => trivial) fun _ ts' _ => ?_
      refine Ensures.bind (Q := fun _ _ => True) (fun _ _ _ _ _ => trivial) fun _ ts' _ => ?_
      exact (hround t.line t.line (r.elim id .arith)).keeps ts'
    · intro t u r ts us hr _ hrel hrest
      refine at_next_bind (g := fun _ e b s =>
        r.elim (fun _ => pure ()) (fun _ => pushFront u.behead) >>= fun _ => q e b >>= fun right =>
          Grammar.sumFrom (q e b) s (.binary u.line (r.elim id .arith) y right)) ?_
      cases r with
      | inl op => exact (hround t.line u.line op).run hrest
      | inr op =>
        exact at_pushFront_bind t.behead u.behead ((hround t.line u.line (.arith op)).run
          (M.behead hrel (signOp?_of_sumSign? hr)))

end Layers

/-! ## Arrays in braces -/

/-- One unit is taken off a large budget. -/
lemma attains_of_budget {α : Type} {q : Scheme α} {us rest : List Token} {y : α}
    (h : Attains (fun e b s => q e (b + 1) s) us y rest) : Attains q us y rest := by
  obtain ⟨n, h⟩ := h
  refine ⟨n + 1, fun m b s hm hb hs => ?_⟩
  obtain ⟨b, rfl⟩ : ∃ k, b = k + 1 := ⟨b - 1, by omega⟩
  exact h m b s (by omega) (by omega) (by omega)

section Braces

variable {p : Parser Expr} {q : Parser Expr → Nat → Parser Expr}

lemma Level.fails_elementList (hp : M.Level p q) : ∀ n, Ensures (elementList p n) [] fun _ _ => False
  | 0 => ensures_throw _
  | _ + 1 => fails_bind hp.fails

/-- The elements of an array, up to the closing brace. -/
lemma Level.elementList {K : Prop} (hp : M.Level p q) : ∀ n,
    M.Thru True K True (elementList p n) fun e b s => elementList (q e b) s
  | 0 => thru_throw _
  | n + 1 => by
    refine Thru.step (Thru.of_fails (J := M.ends) ?_ (hp.fails_elementList _))
    refine hp.thru.bind fun first first' hfirst => ?_
    have hone : M.Thru True True (True ∧ tidy first) (pure [first])
        fun _ _ _ => pure [first'] :=
      thru_pure (same_cons hfirst rfl) fun _ htidy => ⟨trivial, htidy.1⟩
    refine thru_acceptOperator_bind (J := True) (N := True) closeBrace
      (fails_expectOperator_bind ",") hone ?_
    refine thru_expectOperator_bind (J := True) "," fun _ _ => ?_
    refine thru_acceptOperator_bind (J := True) (N := True) closeBrace
      (fails_bind (hp.fails_elementList n)) hone ?_
    refine (Level.elementList (K := True) hp n).bind fun others others' hothers => ?_
    exact thru_pure (same_cons hfirst hothers) fun _ htidy => ⟨⟨trivial, htidy.1⟩, htidy.2⟩

/-- An initial value, if arrays in braces are mirrored. -/
lemma Level.initializerOf_of_braces (hp : M.Level inner fun e _ => e) {budget : Nat}
    (hbraces : ∀ ⦃ts us⦄, M.rel ts us →
      M.At True (arrayInitOf inner budget) (fun e b _ => arrayInitOf e b) ts us) :
    M.Level (initializerOf inner budget) initializerOf := by
  have hfails : Ensures (initializerOf inner budget) [] fun _ _ => False := by
    refine Ensures.bind (ensures_hasOperatorAt 0 openBrace []) ?_
    rintro _ _ ⟨rfl, rfl⟩
    exact hp.fails
  refine ⟨⟨hfails.mono fun _ _ hfalse => hfalse.elim, fun _ _ _ _ _ _ _ _ => trivial,
    fun ts us hrel => ?_⟩, hfails⟩
  cases ts with
  | nil => exact hfails.mono fun _ _ hfalse => hfalse.elim
  | cons t ts =>
    refine at_hasOperator_bind (g := fun v e b _ => if v then arrayInitOf e b else e) openBrace ?_
    rw [any_isOperator hrel openBrace, List.head?_cons, Option.any_some]
    cases t.isOperator openBrace with
    | true => exact Ensures.mono (hbraces hrel) fun _ _ hx _ => hx fun _ => trivial
    | false => exact hp.thru.run hrel

/-- **Arrays in braces**, whose elements are expressions or arrays in braces. -/
lemma Level.arrayInitOf (hp : M.Level inner fun e _ => e) : ∀ (budget : Nat) ⦃ts us⦄, M.rel ts us →
    M.At True (arrayInitOf inner budget) (fun e b _ => arrayInitOf e b) ts us
  | 0, _, _, _ => ensures_throw _
  | budget + 1, ts, us, hrel => by
    have helement := hp.initializerOf_of_braces (Level.arrayInitOf hp budget)
    have hbody : M.Thru True True True (Grammar.arrayInitOf inner (budget + 1))
        fun e b _ => Grammar.arrayInitOf e (b + 1) := by
      refine thru_expectOperator_bind (J := True) openBrace fun opening opening' => ?_
      refine thru_acceptOperator_bind (J := True) (N := True) closeBrace
        (fails_bind (helement.fails_elementList budget)) ?_ ?_
      · exact thru_pure rfl fun _ _ => trivial
      · refine ((helement.elementList budget).start).bind fun elements elements' hsame => ?_
        refine thru_pure ?_ fun _ htidy => htidy.elim
        change Expr.unlined (.arrayInit _ _) = Expr.unlined (.arrayInit _ _)
        rw [Expr.unlined, Expr.unlined,
          show Expr.unlinedAll elements = Expr.unlinedAll elements' from hsame]
    refine Ensures.mono (hbody.run hrel) fun x ts' hx hend htidy => ?_
    obtain ⟨y, us', hxy, hrel', hrun⟩ := hx hend htidy
    exact ⟨y, us', hxy, hrel', attains_of_budget hrun⟩

lemma Level.initializerOf (hp : M.Level inner fun e _ => e) (budget : Nat) :
    M.Level (initializerOf inner budget) initializerOf :=
  hp.initializerOf_of_braces (hp.arrayInitOf budget)

end Braces

/-! ## Assignments -/

/-- What a token is taken for behind a disjunction: an assignment sign, or a compound assignment. -/
def assignSign? (t : Token) : Option (Option BinaryOp) :=
  if t.isOperator "=" then some none else (binaryOp? compoundOps t).map some

lemma signals_assignSign? : Signals assignSign? where
  congr t u hspell := by
    rw [assignSign?, assignSign?, Token.isOperator_congr hspell, (signals_binaryOp? _).congr hspell]
  word t hword := by
    rw [assignSign?, Token.isOperator_of_isWord hword, (signals_binaryOp? _).word hword]
    rfl
  ends t ht := by
    rw [assignSign?, ht.isOperator_assign, (signals_binaryOp? _).ends ht]
    rfl

/-- The right side of an assignment, with what the assignment comes to. -/
def assigned (expr : Parser Expr) (budget : Nat) (left : Expr) (line : Nat) :
    Option BinaryOp → Parser Expr
  | none => initializerOf expr budget >>= fun right => pure (.assign line left right)
  | some op => expr >>= fun right => pure (.binary line op left right)

lemma assignment_eq (expr : Parser Expr) (budget : Nat) :
    assignment expr budget = disjunction expr budget >>= fun x => peek >>= fun v =>
      v.elim (pure x) fun t => (assignSign? t).elim (pure x) fun op =>
        next >>= fun _ => assigned expr budget x t.line op := by
  rw [assignment]
  refine congrArg _ (funext fun x => congrArg _ (funext fun v => ?_))
  cases v with
  | none => rfl
  | some t =>
    dsimp only [Option.elim_some, assignSign?]
    cases t.isOperator "=" with
    | true => rfl
    | false => cases binaryOp? compoundOps t <;> rfl

section Assignments

variable (h : M.Words inner)
include h

lemma Words.assigned (budget : Nat) {x y : Expr} (hxy : same x y) (line line' : Nat)
    (op : Option BinaryOp) : M.Thru M.ends M.ends (tidy x) (assigned inner budget x line op)
      fun e b _ => assigned e b y line' op := by
  cases op with
  | none =>
    refine (h.toLevel.initializerOf budget).thru.bind fun right right' hright => ?_
    refine thru_pure ?_ fun _ htidy => htidy
    change Expr.unlined (.assign _ _ _) = Expr.unlined (.assign _ _ _)
    rw [Expr.unlined, Expr.unlined, show x.unlined = y.unlined from hxy,
      show right.unlined = right'.unlined from hright]
  | some op =>
    refine h.thru.bind fun right right' hright => ?_
    exact thru_pure (same_binary hxy hright op) fun _ htidy => htidy

/-- **Disjunctions**, layer by layer. -/
lemma Words.disjunction (budget : Nat) : M.Level (disjunction inner budget) disjunction := by
  have hoperand : M.Level (Grammar.operand inner budget) Grammar.operand :=
    ⟨h.operand budget, fails_operand budget⟩
  have hproduct : M.Level (product inner budget) product := (hoperand.unaryOf budget).chain _ budget
  have hsum : M.Level (sum inner budget) sum :=
    ⟨hproduct.thru.bind fun x y hxy => ((hproduct.sumFrom budget x y hxy).start).keeping
      fun htidy => ⟨trivial, htidy⟩, fails_bind hproduct.fails⟩
  exact (((hsum.chain _ budget).chain _ budget).chain _ budget).chain _ budget

/-- **Expressions**, from those inside them. -/
lemma Words.assignment (budget : Nat) : M.Level (assignment inner budget) assignment where
  thru := by
    simp only [assignment_eq]
    refine (h.disjunction budget).thru.bind fun x y hxy => Thru.keeping ?_ fun htidy =>
      ⟨trivial, htidy⟩
    refine thru_peek_bind signals_assignSign? hxy
      (g := fun u op e b _ => next >>= fun _ => Mirror.assigned e b y u.line op) ?_ ?_
    · intro t op ts
      refine Ensures.bind (Q := fun _ _ => True) (fun _ _ _ _ _ => trivial) fun _ ts' _ => ?_
      exact (h.assigned budget hxy t.line t.line op).keeps ts'
    · intro t u op ts us _ _ _ hrest
      exact at_next_bind ((h.assigned budget hxy t.line u.line op).run hrest)
  fails := fails_bind (h.disjunction budget).fails

end Assignments

/-- **Expressions within a budget.** If words with brackets and `new` are mirrored as soon as the
expressions inside them are, in each of a family of mirrors, expressions are mirrored. -/
theorem words_exprWithin {ι : Type} (M : ι → Mirror)
    (hstep : ∀ budget, (∀ i, (M i).Level (exprWithin budget) fun e _ => e) →
      ∀ i, (M i).Words (exprWithin budget)) :
    ∀ budget i, (M i).Words (exprWithin budget)
  | 0 => hstep 0 fun _ => ⟨thru_throw _, ensures_throw _⟩
  | budget + 1 => hstep (budget + 1) fun i => by
    have hlevel := (words_exprWithin M hstep budget i).assignment (budget + 1)
    refine ⟨{ hlevel.thru with run := fun ts us hrel => ?_ }, hlevel.fails⟩
    refine Ensures.mono (hlevel.thru.run hrel) fun x ts' hx hend htidy => ?_
    obtain ⟨y, us', hxy, hrel', hrun⟩ := hx hend htidy
    exact ⟨y, us', hxy, hrel', hrun.knot⟩

end Mirror

end ClassLang.Grammar
