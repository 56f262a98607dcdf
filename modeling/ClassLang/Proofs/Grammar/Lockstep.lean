import ClassLang.Proofs.Grammar.Passage

set_option autoImplicit false

/-!
# Parsers in lockstep

Two parsers are run side by side, over the same tokens but over sources that may end in different
failures. They are in lockstep if they do the same until one of them meets the end of the tokens:
both give the same value and leave the same tokens, or both fail. Neither gives up because its
budget has run out.

What a run does besides is moves through its tokens, and so it comes with a passage from the tokens
that it started with to those that it leaves.

How far this holds is measured by the weight of the tokens: parsers are in lockstep below a weight.
A parser that consumes something leaves tokens of a smaller weight, so that what comes behind it
has to be in lockstep below a smaller weight only. This is what makes the recursion of the grammar
well-founded, and with it budgets do not matter as long as they are above the weight.

## Main definitions

* `ClassLang.totalWeight` — the weight of a list of tokens.
* `ClassLang.Cursor.Abreast` — cursors in front of the same tokens.
* `ClassLang.Parser.Outcome` — how two runs end together.
* `ClassLang.Parser.Lockstep`, `ClassLang.Parser.Consumes` — parsers that run in lockstep below a
  weight, and those that consume something besides.

## Main results

* `ClassLang.Parser.Lockstep.bind`, `ClassLang.Parser.Consumes.bind` — parsers in sequence; behind
  one that consumes something, the weight goes down.
* `ClassLang.Grammar.consumes_typeExprWithin` — types.
-/

namespace ClassLang

/-! ## Weights -/

/-- The weight of all the tokens of a list. -/
def totalWeight (ts : List Token) : Nat :=
  ts.foldr (fun t total => t.weight + total) 0

@[simp]
lemma totalWeight_nil : totalWeight [] = 0 := rfl

@[simp]
lemma totalWeight_cons (t : Token) (ts : List Token) :
    totalWeight (t :: ts) = t.weight + totalWeight ts := rfl

@[simp]
lemma totalWeight_append (ts us : List Token) :
    totalWeight (ts ++ us) = totalWeight ts + totalWeight us := by
  induction ts with
  | nil => simp
  | cons t ts ih =>
    simp only [List.cons_append, totalWeight_cons, ih]
    omega

lemma Cursor.weight_eq (c : Cursor) : c.weight = totalWeight c.upcoming := rfl

/-- A token weighs as much as the characters of its lexeme other than spaces, at least. -/
lemma Token.countP_le_weight (t : Token) : (t.lexeme.toList.countP fun c => c ≠ ' ') ≤ t.weight :=
  Nat.le_max_right _ _

lemma Token.weight_behead_le (t : Token) : t.behead.weight ≤ t.weight := by
  have htail : (t.lexeme.toList.tail.countP fun c => c ≠ ' ') ≤
      t.lexeme.toList.countP fun c => c ≠ ' ' :=
    (List.tail_sublist _).countP_le
  simp only [Token.weight, Token.behead, String.toList_ofList]
  omega

/-! ## Cursors in front of the same tokens -/

namespace Cursor

/-- The failure behind the upcoming tokens is `F`, and no more tokens have been fetched than there
are to come. -/
structure Before (F : Option (SyntaxError × Feed)) (c : Cursor) : Prop where
  failure : c.failure = F
  fetched : c.fetched ≤ c.upcoming.length

/-- Both cursors are in front of the same tokens, the one before the failure `F` and the other
before the failure `G`. -/
structure Abreast (F G : Option (SyntaxError × Feed)) (c d : Cursor) : Prop where
  upcoming : c.upcoming = d.upcoming
  previousLine : c.previousLine = d.previousLine
  left : c.Before F
  right : d.Before G

variable {F G : Option (SyntaxError × Feed)} {c d : Cursor}

lemma before_ofFeed (feed : Feed) : (ofFeed feed).Before feed.failure? :=
  ⟨rfl, Nat.zero_le _⟩

lemma Before.fetch (h : c.Before F) (count : Nat) : (c.fetch count).Before F := by
  refine ⟨by simpa using h.failure, ?_⟩
  unfold Cursor.fetch
  split
  · exact h.fetched
  · simp only [List.length_take]
    omega

lemma Before.advance (h : c.Before F) : c.advance.2.Before F := by
  have hfetch := h.fetch 1
  unfold Cursor.advance
  split
  · exact hfetch
  · next t rest hup =>
    have hle := hfetch.fetched
    rw [upcoming_fetch, hup, List.length_cons] at hle
    exact ⟨hfetch.failure, by show (c.fetch 1).fetched - 1 ≤ rest.length; omega⟩

lemma Before.pushFront (h : c.Before F) (t : Token) : (c.pushFront t).Before F :=
  ⟨h.failure, Nat.succ_le_succ h.fetched⟩

/-- Looking beyond the last token meets the failure. -/
lemma Before.failureMet_fetch (h : c.Before F) (hup : c.upcoming = []) (hF : F.isSome = true) :
    (c.fetch 1).failureMet = true := by
  have hzero : ¬ 1 ≤ c.fetched := by
    have := h.fetched
    rw [hup, List.length_nil] at this
    omega
  simp [Cursor.fetch, hzero, hup, h.failure, hF]

/-- Once it has been met, the failure is there to be taken. -/
lemma Before.fst_takeFailure (h : c.Before F) (hmet : F.isSome = true → c.failureMet = true) :
    c.takeFailure.1 = F.map (·.1) := by
  obtain ⟨rfl, -⟩ := h
  unfold Cursor.takeFailure
  cases hfailure : c.failure with
  | none => simp
  | some failure => simp [hmet (by rw [hfailure]; rfl)]

lemma Abreast.fetch (h : Abreast F G c d) (count : Nat) :
    Abreast F G (c.fetch count) (d.fetch count) :=
  ⟨by simpa using h.upcoming, by simpa using h.previousLine, h.left.fetch _, h.right.fetch _⟩

lemma previousLine_advance (c : Cursor) :
    c.advance.2.previousLine = (c.upcoming.head?.map Token.line).getD c.previousLine := by
  unfold Cursor.advance
  split <;> next hup => simp [hup]

lemma Abreast.advance (h : Abreast F G c d) : Abreast F G c.advance.2 d.advance.2 :=
  ⟨by simp [h.upcoming], by simp [previousLine_advance, h.upcoming, h.previousLine],
    h.left.advance, h.right.advance⟩

lemma Abreast.pushFront (h : Abreast F G c d) (t : Token) :
    Abreast F G (c.pushFront t) (d.pushFront t) :=
  ⟨congrArg (t :: ·) h.upcoming, h.previousLine, h.left.pushFront t, h.right.pushFront t⟩

end Cursor

namespace Parser

open ClassLang.Cursor
open ClassLang.Grammar (Passage)

variable {α β : Type}

/-! ## How two runs end -/

lemma abreast_ofTokens (ts : List Token) :
    Cursor.Abreast none none (.ofTokens ts) (.ofTokens ts) :=
  ⟨rfl, rfl, ⟨rfl, Nat.zero_le _⟩, ⟨rfl, Nat.zero_le _⟩⟩

/-- How two runs end together. Both succeed, with the same value and in front of the same tokens,
which weigh less than `k` and to which the tokens `start` have come down by moves; or both fail, and
then in the same way if the failures of their sources are the same. A run over a source that does
not fail never runs out of its budget. -/
inductive Outcome (F G : Option (SyntaxError × Feed)) (start : List Token) (k : Nat) :
    Except SyntaxError α × Cursor → Except SyntaxError α × Cursor → Prop
  | ok {x : α} {c d : Cursor} (hcursors : Abreast F G c d) (hmoves : Passage start c.upcoming)
      (hweight : totalWeight c.upcoming < k) : Outcome F G start k (.ok x, c) (.ok x, d)
  | error {e e' : SyntaxError} {c d : Cursor} (hsame : F = G → e = e')
      (hbudget : F = none → e.cause ≠ .budgetExhausted) :
      Outcome F G start k (.error e, c) (.error e', d)

/-- From all cursors in front of the tokens `ts` the two parsers end together. They complete moves
from the tokens `start`, and leave tokens of a weight below `k`. -/
def InStep (p q : Parser α) (start ts : List Token) (k : Nat) : Prop :=
  ∀ ⦃F G : Option (SyntaxError × Feed)⦄ ⦃c d : Cursor⦄, Abreast F G c d → c.upcoming = ts →
    Outcome F G start k (p.runFrom c) (q.runFrom d)

variable {p q p' q' : Parser α} {f g : α → Parser β} {start ts : List Token} {k m n : Nat}

lemma runFrom_bind_of_error {c c' : Cursor} {e : SyntaxError}
    (h : p.runFrom c = (.error e, c')) : (p >>= f).runFrom c = (.error e, c') := by
  change (match p c with | (r, d) => (ExceptT.bindCont f r) d) = (.error e, c')
  rw [show p c = (.error e, c') from h]
  rfl

lemma InStep.bind (hp : InStep p q start ts k)
    (hf : ∀ x us, Passage start us → totalWeight us < k → InStep (f x) (g x) start us m) :
    InStep (p >>= f) (q >>= g) start ts m := by
  intro F G c d hcd hts
  have hrun := hp hcd hts
  rcases hpc : p.runFrom c with ⟨r, c'⟩
  rcases hqd : q.runFrom d with ⟨r', d'⟩
  rw [hpc, hqd] at hrun
  cases hrun with
  | ok hcursors hmoves hweight =>
    rw [runFrom_bind_of_ok hpc, runFrom_bind_of_ok hqd]
    exact hf _ _ hmoves hweight hcursors rfl
  | error hsame hbudget =>
    rw [runFrom_bind_of_error hpc, runFrom_bind_of_error hqd]
    exact .error hsame hbudget

/-- Moves may have been made before. -/
lemma InStep.behind {mid : List Token} (hp : InStep p q mid ts k) (hmoves : Passage start mid)
    (hk : k ≤ m) : InStep p q start ts m := by
  intro F G c d hcd hts
  have hrun := hp hcd hts
  generalize p.runFrom c = r, q.runFrom d = s at hrun ⊢
  cases hrun with
  | ok hcursors hleft hweight => exact .ok hcursors (hmoves.trans hleft) (by omega)
  | error hsame hbudget => exact .error hsame hbudget

lemma InStep.mono (hp : InStep p q start ts k) (hk : k ≤ m) : InStep p q start ts m :=
  hp.behind (.refl start) hk

lemma inStep_pure (x : α) (hmoves : Passage start ts) (h : totalWeight ts < k) :
    InStep (pure x) (pure x) start ts k := by
  rintro F G c d hcd rfl
  exact .ok hcd hmoves h

lemma inStep_throw {e : SyntaxError} (he : e.cause ≠ .budgetExhausted) :
    InStep (throw e : Parser α) (throw e) start ts k :=
  fun _ _ _ _ _ _ => .error (fun _ => rfl) fun _ => he

lemma InStep.ite {P : Prop} [Decidable P] (hp : P → InStep p q start ts k)
    (hq : ¬ P → InStep p' q' start ts k) :
    InStep (if P then p else p') (if P then q else q') start ts k := by
  split
  next h => exact hp h
  next h => exact hq h

/-! ## Moves in step -/

/-- A look ahead, after which the token seen is known. -/
lemma inStep_peekAt_bind {f g : Option Token → Parser β} (i : Nat)
    (h : InStep (f ts[i]?) (g ts[i]?) start ts k) :
    InStep (peekAt i >>= f) (peekAt i >>= g) start ts k := by
  rintro F G c d hcd rfl
  have hc : (peekAt i).runFrom c = (.ok c.upcoming[i]?, c.fetch (i + 1)) := rfl
  have hd : (peekAt i).runFrom d = (.ok c.upcoming[i]?, d.fetch (i + 1)) := by
    rw [hcd.upcoming]
    rfl
  rw [runFrom_bind_of_ok hc, runFrom_bind_of_ok hd]
  exact h (hcd.fetch _) (upcoming_fetch _ _)

lemma inStep_hasOperatorAt_bind {f g : Bool → Parser β} (i : Nat) (op : String)
    (h : InStep (f (ts[i]?.any fun t => t.isOperator op)) (g (ts[i]?.any fun t => t.isOperator op))
      start ts k) : InStep (hasOperatorAt i op >>= f) (hasOperatorAt i op >>= g) start ts k := by
  rw [hasOperatorAt, bind_assoc, bind_assoc]
  exact inStep_peekAt_bind i h

/-- Consumes the token `t` that is known to be next. -/
lemma inStep_next_bind {f g : Option Token → Parser β} {t : Token}
    (h : InStep (f (some t)) (g (some t)) start ts k) :
    InStep (next >>= f) (next >>= g) start (t :: ts) k := by
  intro F G c d hcd hts
  have hnext : ∀ c : Cursor, c.upcoming = t :: ts →
      next.runFrom c = (.ok (some t), c.advance.2) := by
    intro c hc
    have hfst : c.advance.1 = some t := by simp [hc]
    rw [← hfst]
    rfl
  rw [runFrom_bind_of_ok (hnext c hts), runFrom_bind_of_ok (hnext d (hcd.upcoming ▸ hts))]
  exact h hcd.advance (by simp [hts])

lemma inStep_pushFront_bind {f g : Unit → Parser β} (t : Token)
    (h : InStep (f ()) (g ()) start (t :: ts) k) :
    InStep (pushFront t >>= f) (pushFront t >>= g) start ts k := by
  rintro F G c d hcd rfl
  have hpush : ∀ c : Cursor, (pushFront t).runFrom c = (.ok (), c.pushFront t) := fun _ => rfl
  rw [runFrom_bind_of_ok (hpush c), runFrom_bind_of_ok (hpush d)]
  exact h (hcd.pushFront t) rfl

lemma inStep_pushAllFront_bind {f g : Unit → Parser β} (us : List Token)
    (h : InStep (f ()) (g ()) start (us ++ ts) k) :
    InStep (pushAllFront us >>= f) (pushAllFront us >>= g) start ts k := by
  induction us generalizing f g with
  | nil => exact h
  | cons u us ih =>
    exact ih (f := fun _ => pushFront u >>= f) (g := fun _ => pushFront u >>= g)
      (inStep_pushFront_bind u h)

/-- What is wrong where `expected` was wanted, in front of the tokens `ts` and the failure `F`. -/
def errorAt (expected : String) (line : Nat) (F : Option (SyntaxError × Feed)) :
    List Token → SyntaxError
  | [] => (F.map (·.1)).getD ⟨.unexpectedEnd expected, line⟩
  | t :: _ =>
    if t.kind = .error then ⟨.lexical t.lexeme, t.line⟩
    else ⟨.unexpectedToken expected t.lexeme, t.line⟩

/-- The error is that of the next token, or at the end the failure of the source. -/
lemma runFrom_errorExpected {F : Option (SyntaxError × Feed)} {c : Cursor} (h : c.Before F)
    (expected : String) :
    ∃ c', (errorExpected expected).runFrom c =
      (.ok (errorAt expected c.previousLine F c.upcoming), c') := by
  have hline : previousLine.runFrom c = (.ok c.previousLine, c) := rfl
  have hpeek : peek.runFrom c = (.ok c.upcoming[0]?, c.fetch 1) := rfl
  rw [errorExpected, runFrom_bind_of_ok hline, runFrom_bind_of_ok hpeek]
  cases hup : c.upcoming with
  | cons t ts =>
    refine ⟨c.fetch 1, ?_⟩
    simp only [List.getElem?_cons_zero, errorAt]
    split <;> rfl
  | nil =>
    have htake : takeFailure.runFrom (c.fetch 1) =
        (.ok (F.map (·.1)), (c.fetch 1).takeFailure.2) := by
      rw [← (h.fetch 1).fst_takeFailure (h.failureMet_fetch hup)]
      rfl
    exact ⟨_, by rw [List.getElem?_nil, runFrom_bind_of_ok htake]; rfl⟩

lemma cause_errorAt_ne (expected : String) (line : Nat) (ts : List Token) :
    (errorAt expected line none ts).cause ≠ .budgetExhausted := by
  cases ts with
  | nil => simp [errorAt]
  | cons t ts =>
    simp only [errorAt]
    split <;> simp

lemma inStep_failExpected (expected : String) :
    InStep (failExpected expected : Parser α) (failExpected expected) start ts k := by
  intro F G c d hcd _
  obtain ⟨c', hc⟩ := runFrom_errorExpected hcd.left expected
  obtain ⟨d', hd⟩ := runFrom_errorExpected hcd.right expected
  rw [failExpected, runFrom_bind_of_ok hc, runFrom_bind_of_ok hd, hcd.upcoming, hcd.previousLine]
  refine .error (fun hFG => by rw [hFG]) ?_
  rintro rfl
  exact cause_errorAt_ne _ _ _

/-- Any token, which is known afterwards. -/
lemma inStep_anyToken_bind {f g : Token → Parser β}
    (h : ∀ t us, ts = t :: us → InStep (f t) (g t) start us k) :
    InStep (anyToken >>= f) (anyToken >>= g) start ts k := by
  rw [anyToken, bind_assoc, bind_assoc]
  cases ts with
  | cons t us => exact inStep_next_bind (h t us rfl)
  | nil =>
    intro F G c d hcd hts
    have hnext : ∀ c : Cursor, c.upcoming = [] → next.runFrom c = (.ok none, c.advance.2) := by
      intro c hc
      have hfst : c.advance.1 = none := by simp [hc]
      rw [← hfst]
      rfl
    rw [runFrom_bind_of_ok (hnext c hts), runFrom_bind_of_ok (hnext d (hcd.upcoming ▸ hts))]
    exact InStep.bind (inStep_failExpected (k := 0) _) (fun _ _ _ h => absurd h (by omega))
      hcd.advance rfl

/-- A token that passes a test, which is known afterwards. -/
lemma inStep_expectWhere_bind {f g : Token → Parser β} (good : Token → Bool) (expected : String)
    (h : ∀ t us, ts = t :: us → good t = true → InStep (f t) (g t) start us k) :
    InStep (expectWhere good expected >>= f) (expectWhere good expected >>= g) start ts k := by
  rw [expectWhere, bind_assoc, bind_assoc]
  refine inStep_peekAt_bind 0 ?_
  cases hgood : ts[0]?.any good with
  | true =>
    refine inStep_anyToken_bind ?_
    rintro t us rfl
    exact h t us rfl (by simpa using hgood)
  | false => exact InStep.bind (inStep_failExpected (k := 0) _) fun _ _ _ h => absurd h (by omega)

/-! ## Parsers in lockstep below a weight -/

/-- On tokens lighter than `n` the two parsers end together, and leave tokens that are no
heavier. -/
def Lockstep (n : Nat) (p q : Parser α) : Prop :=
  ∀ ts, totalWeight ts < n → InStep p q ts ts (totalWeight ts + 1)

/-- On tokens lighter than `n` the two parsers end together, and leave lighter tokens. -/
def Consumes (n : Nat) (p q : Parser α) : Prop :=
  ∀ ts, totalWeight ts < n → InStep p q ts ts (totalWeight ts)

lemma Consumes.lockstep (h : Consumes n p q) : Lockstep n p q :=
  fun ts hts => (h ts hts).mono (Nat.le_succ _)

lemma Lockstep.mono (h : Lockstep n p q) (hm : m ≤ n) : Lockstep m p q :=
  fun ts hts => h ts (by omega)

lemma Consumes.mono (h : Consumes n p q) (hm : m ≤ n) : Consumes m p q :=
  fun ts hts => h ts (by omega)

lemma lockstep_zero (p q : Parser α) : Lockstep 0 p q :=
  fun _ h => absurd h (by omega)

lemma consumes_zero (p q : Parser α) : Consumes 0 p q :=
  fun _ h => absurd h (by omega)

/-- What comes behind tokens lighter than `k` leaves tokens lighter than `k`. -/
lemma InStep.bind_lockstep (hp : InStep p q start ts k) (hf : ∀ x, Lockstep n (f x) (g x))
    (hk : k ≤ n) : InStep (p >>= f) (q >>= g) start ts k :=
  hp.bind fun x us hmoves hus => (hf x us (by omega)).behind hmoves (by omega)

lemma Lockstep.bind (hp : Lockstep n p q) (hf : ∀ x, Lockstep n (f x) (g x)) :
    Lockstep n (p >>= f) (q >>= g) :=
  fun ts hts => (hp ts hts).bind_lockstep hf hts

/-- Behind a parser that consumes something, the weight has gone down. -/
lemma Consumes.bind (hp : Consumes (n + 1) p q) (hf : ∀ x, Lockstep n (f x) (g x)) :
    Consumes (n + 1) (p >>= f) (q >>= g) :=
  fun ts hts => (hp ts hts).bind_lockstep hf (by omega)

lemma Consumes.andThen (hp : Consumes n p q) (hf : ∀ x, Lockstep n (f x) (g x)) :
    Consumes n (p >>= f) (q >>= g) :=
  fun ts hts => (hp ts hts).bind_lockstep hf (Nat.le_of_lt hts)

lemma Lockstep.bind_consumes (hp : Lockstep n p q) (hf : ∀ x, Consumes n (f x) (g x)) :
    Consumes n (p >>= f) (q >>= g) :=
  fun ts hts => (hp ts hts).bind fun x us hmoves hus =>
    (hf x us (by omega)).behind hmoves (by omega)

lemma Lockstep.ite {P : Prop} [Decidable P] (hp : Lockstep n p q) (hq : Lockstep n p' q') :
    Lockstep n (if P then p else p') (if P then q else q') :=
  fun ts hts => .ite (fun _ => hp ts hts) fun _ => hq ts hts

lemma Consumes.ite {P : Prop} [Decidable P] (hp : Consumes n p q) (hq : Consumes n p' q') :
    Consumes n (if P then p else p') (if P then q else q') :=
  fun ts hts => .ite (fun _ => hp ts hts) fun _ => hq ts hts

lemma lockstep_pure (x : α) : Lockstep n (pure x) (pure x) :=
  fun ts _ => inStep_pure x (.refl ts) (Nat.lt_succ_self _)

lemma Lockstep.map {h : α → β} (hp : Lockstep n p q) : Lockstep n (h <$> p) (h <$> q) := by
  rw [← bind_pure_comp, ← bind_pure_comp]
  exact hp.bind fun _ => lockstep_pure _

lemma consumes_throw {e : SyntaxError} (he : e.cause ≠ .budgetExhausted) :
    Consumes n (throw e : Parser α) (throw e) :=
  fun _ _ => inStep_throw he

lemma consumes_failExpected (expected : String) :
    Consumes n (failExpected expected : Parser α) (failExpected expected) :=
  fun _ _ => inStep_failExpected expected

lemma consumes_failUnexpected (expected : String) (t : Token) :
    Consumes n (failUnexpected expected t : Parser α) (failUnexpected expected t) :=
  consumes_throw (by simp)

lemma consumes_failUnsupported (line : Nat) (construct : Construct) :
    Consumes n (failUnsupported line construct : Parser α) (failUnsupported line construct) :=
  consumes_throw (by simp)

/-! ## Tests and tokens in lockstep -/

lemma lockstep_peekAt_bind {f g : Option Token → Parser β} (i : Nat)
    (h : ∀ o, Lockstep n (f o) (g o)) : Lockstep n (peekAt i >>= f) (peekAt i >>= g) :=
  fun ts hts => inStep_peekAt_bind i (h _ ts hts)

lemma lockstep_hasOperatorAt (i : Nat) (op : String) :
    Lockstep n (hasOperatorAt i op) (hasOperatorAt i op) :=
  lockstep_peekAt_bind i fun _ => lockstep_pure _

lemma lockstep_hasOperator (op : String) : Lockstep n (hasOperator op) (hasOperator op) :=
  lockstep_hasOperatorAt 0 op

lemma lockstep_hasKindAt (i : Nat) (kind : Kind) :
    Lockstep n (hasKindAt i kind) (hasKindAt i kind) :=
  lockstep_peekAt_bind i fun _ => lockstep_pure _

lemma lockstep_hasKeyword (word : String) : Lockstep n (hasKeyword word) (hasKeyword word) :=
  lockstep_peekAt_bind 0 fun _ => lockstep_pure _

lemma lockstep_atEnd : Lockstep n atEnd atEnd :=
  lockstep_peekAt_bind 0 fun _ => lockstep_pure _

lemma inStep_previousLine_bind {f g : Nat → Parser β}
    (h : ∀ line, InStep (f line) (g line) start ts k) :
    InStep (previousLine >>= f) (previousLine >>= g) start ts k := by
  intro F G c d hcd hts
  have hline : ∀ c : Cursor, previousLine.runFrom c = (.ok c.previousLine, c) := fun _ => rfl
  rw [runFrom_bind_of_ok (hline c), runFrom_bind_of_ok (hline d), hcd.previousLine]
  exact h _ hcd hts

lemma lockstep_currentLine : Lockstep n currentLine currentLine := by
  intro ts hts
  refine inStep_previousLine_bind fun line => ?_
  refine lockstep_peekAt_bind 0 (fun o => ?_) ts hts
  cases o with
  | none => exact lockstep_pure _
  | some t => exact lockstep_pure _

lemma consumes_expectWhere {good : Token → Bool} (hgood : ∀ t, good t = true → t.kind ≠ .error)
    (expected : String) : Consumes n (expectWhere good expected) (expectWhere good expected) := by
  intro ts hts
  rw [← bind_pure (expectWhere good expected)]
  refine inStep_expectWhere_bind good expected ?_
  rintro t us rfl ht
  have := t.weight_pos
  exact inStep_pure t (.consume (hgood t ht) (.refl us)) (by rw [totalWeight_cons]; omega)

lemma consumes_expectOperator (op : String) :
    Consumes n (expectOperator op) (expectOperator op) :=
  consumes_expectWhere (fun _ => Token.kind_ne_error_of_isOperator) _

lemma consumes_expectKeyword (word : String) :
    Consumes n (expectKeyword word) (expectKeyword word) :=
  consumes_expectWhere (fun _ => Token.kind_ne_error_of_isKeyword) _

lemma consumes_expectIdentifier : Consumes n expectIdentifier expectIdentifier :=
  consumes_expectWhere (fun t h => by simp [of_decide_eq_true h]) _

/-- A look at the next token, which is known afterwards. -/
lemma consumes_peek_bind {f g : Option Token → Parser β} (hnone : Consumes n (f none) (g none))
    (hsome : ∀ t ts, totalWeight (t :: ts) < n →
      InStep (f (some t)) (g (some t)) (t :: ts) (t :: ts) (totalWeight (t :: ts))) :
    Consumes n (peek >>= f) (peek >>= g) := by
  intro ts hts
  refine inStep_peekAt_bind 0 ?_
  cases ts with
  | nil => exact hnone [] hts
  | cons t ts => exact hsome t ts hts

lemma lockstep_peek_bind {f g : Option Token → Parser β} (hnone : Lockstep n (f none) (g none))
    (hsome : ∀ t ts, totalWeight (t :: ts) < n →
      InStep (f (some t)) (g (some t)) (t :: ts) (t :: ts) (totalWeight (t :: ts) + 1)) :
    Lockstep n (peek >>= f) (peek >>= g) := by
  intro ts hts
  refine inStep_peekAt_bind 0 ?_
  cases ts with
  | nil => exact hnone [] hts
  | cons t ts => exact hsome t ts hts

/-- Behind the token that is known to be next, the weight has gone down. -/
lemma Lockstep.behind_next {f g : Option Token → Parser β} {t : Token} (hkind : t.kind ≠ .error)
    (hf : Lockstep n (f (some t)) (g (some t))) (ht : totalWeight (t :: ts) < n + 1) :
    InStep (next >>= f) (next >>= g) (t :: ts) (t :: ts) (totalWeight (t :: ts)) := by
  have := t.weight_pos
  rw [totalWeight_cons] at ht ⊢
  exact inStep_next_bind
    ((hf ts (by omega)).behind (.consume hkind (.refl ts)) (by omega))

/-- A token that is consumed if it passes a test: the weight has gone down in the one case, and
nothing has changed in the other. -/
lemma lockstep_accept_bind {good : Token → Bool} (hkind : ∀ t, good t = true → t.kind ≠ .error)
    {f g : Bool → Parser β}
    (htrue : Lockstep n (f true) (g true)) (hfalse : Lockstep (n + 1) (f false) (g false)) :
    Lockstep (n + 1)
      ((do if (← peek).any good then let _ ← next; return true else return false) >>= f)
      ((do if (← peek).any good then let _ ← next; return true else return false) >>= g) := by
  intro ts hts
  rw [bind_assoc, bind_assoc]
  refine inStep_peekAt_bind 0 ?_
  cases hgood : ts[0]?.any good with
  | false => exact hfalse ts hts
  | true =>
    match ts, hgood with
    | t :: ts, hgood =>
      exact (Lockstep.behind_next (f := fun _ => f true) (g := fun _ => g true)
        (hkind t (by simpa using hgood)) htrue hts).mono (Nat.le_succ _)

lemma lockstep_acceptOperator_bind {op : String} {f g : Bool → Parser β}
    (htrue : Lockstep n (f true) (g true)) (hfalse : Lockstep (n + 1) (f false) (g false)) :
    Lockstep (n + 1) (acceptOperator op >>= f) (acceptOperator op >>= g) :=
  lockstep_accept_bind (fun _ => Token.kind_ne_error_of_isOperator) htrue hfalse

lemma lockstep_acceptOperator (op : String) :
    Lockstep n (acceptOperator op) (acceptOperator op) := by
  rw [← bind_pure (acceptOperator op)]
  cases n with
  | zero => exact lockstep_zero _ _
  | succ n => exact lockstep_acceptOperator_bind (lockstep_pure _) (lockstep_pure _)

lemma lockstep_acceptKeyword (word : String) :
    Lockstep n (acceptKeyword word) (acceptKeyword word) := by
  rw [← bind_pure (acceptKeyword word)]
  cases n with
  | zero => exact lockstep_zero _ _
  | succ n =>
    exact lockstep_accept_bind (fun _ => Token.kind_ne_error_of_isKeyword) (lockstep_pure _)
      (lockstep_pure _)

end Parser

/-! ## Types -/

namespace Grammar

open ClassLang.Parser

variable {n : Nat}

/-- A closing `>` goes, and with a longer operator its first character: the token put back is
lighter. -/
lemma consumes_closeAngle : Consumes n closeAngle closeAngle := by
  intro ts hts
  refine inStep_expectWhere_bind closesAngle _ ?_
  rintro t us rfl ht
  have hpos := t.weight_pos
  simp only [closesAngle, Token.isOperator, Bool.or_eq_true, Bool.and_eq_true,
    decide_eq_true_eq] at ht
  have hkind : t.kind = .operator := by tauto
  refine .ite (fun hlong => ?_) fun _ =>
    inStep_pure _ (.consume (by simp [hkind]) (.refl us)) (by rw [totalWeight_cons]; omega)
  have hlight : t.behead.weight < t.weight := by
    rcases ht with (⟨-, h⟩ | ⟨-, h⟩) | ⟨-, h⟩
    · exact absurd h hlong
    · simp only [Token.weight, Token.behead, h]
      decide
    · simp only [Token.weight, Token.behead, h]
      decide
  rw [← bind_pure (pushFront _)]
  refine inStep_pushFront_bind _ (inStep_pure _ (.behead (.inr (.inr hkind)) (.refl _)) ?_)
  show t.behead.weight + totalWeight us < t.weight + totalWeight us
  omega

section Types

variable {type type' : Parser TypeExpr}

lemma lockstep_typeList (htype : Lockstep n type type') :
    ∀ {k a b : Nat}, k ≤ n → k ≤ a → k ≤ b → Lockstep k (typeList type a) (typeList type' b)
  | 0, _, _, _, _, _ => lockstep_zero _ _
  | k + 1, a + 1, b + 1, hk, ha, hb =>
    (htype.mono hk).bind fun _ => lockstep_acceptOperator_bind
      ((lockstep_typeList htype (by omega) (by omega) (by omega)).bind fun _ => lockstep_pure _)
      (consumes_closeAngle.lockstep.bind fun _ => lockstep_pure _)

/-- A list of type arguments asks for types behind the `<` only. -/
lemma consumes_typeArgumentsOf (htype : Lockstep n type type') {a b : Nat} (ha : n ≤ a)
    (hb : n ≤ b) : Consumes (n + 1) (typeArgumentsOf type a) (typeArgumentsOf type' b) :=
  (consumes_expectOperator _).bind fun _ => (lockstep_acceptOperator _).bind fun _ => .ite
    (lockstep_pure _)
    ((lockstep_typeList htype (Nat.le_refl n) ha hb).bind fun _ => lockstep_pure _)

end Types

lemma lockstep_bracketPairs :
    ∀ {n a b : Nat}, n ≤ a → n ≤ b → Lockstep n (bracketPairs a) (bracketPairs b)
  | 0, _, _, _, _ => lockstep_zero _ _
  | n + 1, a + 1, b + 1, ha, hb => by
    intro ts hts
    refine inStep_hasOperatorAt_bind 0 _ (.ite (fun hopen => ?_) fun _ => lockstep_pure _ ts hts)
    refine inStep_hasOperatorAt_bind 1 _ (.ite (fun hclose => ?_) fun _ => lockstep_pure _ ts hts)
    match ts, hopen, hclose with
    | t :: u :: us, hopen, hclose =>
      have hmoves : Passage (t :: u :: us) us :=
        .consume (Token.kind_ne_error_of_isOperator (by simpa using hopen))
          (.consume (Token.kind_ne_error_of_isOperator (by simpa using hclose)) (.refl us))
      have ht := t.weight_pos
      have hu := u.weight_pos
      simp only [totalWeight_cons] at hts ⊢
      have hpairs := (lockstep_bracketPairs (n := n) (by omega) (by omega) :
        Lockstep n (bracketPairs a) (bracketPairs b)).bind
          fun count => lockstep_pure (count + 1)
      exact inStep_next_bind (inStep_next_bind ((hpairs us (by omega)).behind hmoves (by omega)))

/-- A type asks for type arguments behind its name only. -/
lemma consumes_typeExprOf {arguments arguments' : Parser (List TypeExpr × Bool)}
    (harguments : Lockstep n arguments arguments') {a b : Nat} (ha : n ≤ a) (hb : n ≤ b) :
    Consumes (n + 1) (typeExprOf arguments a) (typeExprOf arguments' b) := by
  have hstart : ∀ t, startsType t = true → t.kind ≠ .error := by
    intro t ht hkind
    simp [startsType, hkind] at ht
  refine (consumes_expectWhere hstart _).bind fun t => (lockstep_hasOperator _).bind fun opens => ?_
  have hpairs : ∀ args suffixes name, Lockstep n
      (do let pairs ← bracketPairs a; return TypeExpr.mk name args (suffixes + pairs))
      (do let pairs ← bracketPairs b; return TypeExpr.mk name args (suffixes + pairs)) :=
    fun _ _ _ => (lockstep_bracketPairs ha hb).bind fun _ => lockstep_pure _
  exact .ite (harguments.map.bind fun _ => hpairs _ _ _)
    ((lockstep_pure _).bind fun _ => hpairs _ _ _)

/-- **Types are in lockstep**, whatever their budgets, as long as these are no smaller than the
weight. -/
lemma consumes_typeExprWithin :
    ∀ {n a b : Nat}, n ≤ a → n ≤ b → Consumes n (typeExprWithin a) (typeExprWithin b)
  | 0, _, _, _, _ => consumes_zero _ _
  | n + 1, a + 1, b + 1, ha, hb =>
    have htype : Lockstep n (typeExprWithin a) (typeExprWithin b) :=
      (consumes_typeExprWithin (by omega) (by omega)).lockstep
    consumes_typeExprOf
      ((consumes_typeArgumentsOf htype (by omega) (by omega)).lockstep.mono (by omega))
      (by omega) (by omega)

lemma consumes_typeArgumentsWithin {a b : Nat} (ha : n ≤ a) (hb : n ≤ b) :
    Consumes n (typeArgumentsWithin a) (typeArgumentsWithin b) :=
  (consumes_typeArgumentsOf (consumes_typeExprWithin ha hb).lockstep ha hb).mono (Nat.le_succ n)

end Grammar

end ClassLang
