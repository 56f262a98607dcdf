import ClassLang.Proofs.Grammar.Lockstep

set_option autoImplicit false

/-!
# Runs on two lists of tokens

Two parsers are run side by side, each on tokens of its own. The runs agree if both fail, or if both
succeed with the same value and leave tokens that are related. Agreement composes along the steps of
the parsers, with a relation between the tokens at each place.

## Main definitions

* `ClassLang.Parser.Agree` — how two runs end alike.
* `ClassLang.Parser.Paired` — two parsers agree on two lists of tokens.

## Main results

* `ClassLang.Parser.Paired.bind` — agreement in two steps.
* `ClassLang.Parser.agree_of_inStep` — parsers in lockstep agree on the same tokens.
-/

namespace ClassLang.Parser

variable {α β : Type} {R S : List Token → List Token → Prop}

/-- Both runs fail, or both succeed with the same value and leave tokens that are related by `R`. -/
inductive Agree (R : List Token → List Token → Prop) :
    Except SyntaxError α × Cursor → Except SyntaxError α × Cursor → Prop
  | ok {x : α} {c d : Cursor} (h : R c.upcoming d.upcoming) : Agree R (.ok x, c) (.ok x, d)
  | error {e e' : SyntaxError} {c d : Cursor} : Agree R (.error e, c) (.error e', d)

/-- From the upcoming tokens `ts` and `us` the runs of the two parsers agree. -/
def Paired (R : List Token → List Token → Prop) (p q : Parser α) (ts us : List Token) : Prop :=
  ∀ ⦃c d : Cursor⦄, c.upcoming = ts → d.upcoming = us → Agree R (p.runFrom c) (q.runFrom d)

variable {p q p' q' : Parser α} {f g : α → Parser β} {ts us : List Token}

lemma Agree.mono {r s : Except SyntaxError α × Cursor} (h : Agree R r s)
    (hRS : ∀ ts us, R ts us → S ts us) : Agree S r s := by
  cases h with
  | ok h => exact .ok (hRS _ _ h)
  | error => exact .error

/-- Runs agree if runs with the same ends do. -/
lemma Agree.congr {r r' s s' : Except SyntaxError α × Cursor} (h : Agree R r' s')
    (hr : Agree Eq r r') (hs : Agree Eq s s') : Agree R r s := by
  cases hr with
  | error =>
    cases h
    cases hs
    exact .error
  | ok hr =>
    cases h with
    | ok h =>
      cases hs with
      | ok hs => exact .ok (by rwa [hr, hs])

lemma Paired.bind (hp : Paired R p q ts us)
    (hf : ∀ x ts us, R ts us → Paired S (f x) (g x) ts us) :
    Paired S (p >>= f) (q >>= g) ts us := by
  intro c d hc hd
  have hrun := hp hc hd
  rcases hpc : p.runFrom c with ⟨r, c'⟩
  rcases hqd : q.runFrom d with ⟨r', d'⟩
  rw [hpc, hqd] at hrun
  cases hrun with
  | ok h =>
    rw [runFrom_bind_of_ok hpc, runFrom_bind_of_ok hqd]
    exact hf _ _ _ h rfl rfl
  | error =>
    rw [runFrom_bind_of_error hpc, runFrom_bind_of_error hqd]
    exact .error

lemma paired_pure (x : α) (h : R ts us) : Paired R (pure x) (pure x) ts us := by
  rintro c d rfl rfl
  exact .ok h

lemma paired_throw (e e' : SyntaxError) : Paired R (throw e : Parser α) (throw e') ts us :=
  fun _ _ _ _ => .error

lemma Paired.ite {P : Prop} [Decidable P] (hp : P → Paired R p q ts us)
    (hq : ¬ P → Paired R p' q' ts us) :
    Paired R (if P then p else p') (if P then q else q') ts us := by
  split
  next h => exact hp h
  next h => exact hq h

/-! ## Moves -/

/-- A look ahead on both sides. -/
lemma paired_peekAt_bind {f g : Option Token → Parser β} (i : Nat)
    (h : Paired R (f ts[i]?) (g us[i]?) ts us) :
    Paired R (peekAt i >>= f) (peekAt i >>= g) ts us := by
  rintro c d rfl rfl
  have hpeek : ∀ c : Cursor, (peekAt i).runFrom c = (.ok c.upcoming[i]?, c.fetch (i + 1)) :=
    fun _ => rfl
  rw [runFrom_bind_of_ok (hpeek c), runFrom_bind_of_ok (hpeek d)]
  exact h (Cursor.upcoming_fetch _ _) (Cursor.upcoming_fetch _ _)

lemma paired_hasOperatorAt_bind {f g : Bool → Parser β} (i : Nat) (op : String)
    (h : Paired R (f (ts[i]?.any fun t => t.isOperator op))
      (g (us[i]?.any fun t => t.isOperator op)) ts us) :
    Paired R (hasOperatorAt i op >>= f) (hasOperatorAt i op >>= g) ts us := by
  rw [hasOperatorAt, bind_assoc, bind_assoc]
  exact paired_peekAt_bind i h

/-- Both sides consume their next token. -/
lemma paired_next_bind {f g : Option Token → Parser β} {t u : Token}
    (h : Paired R (f (some t)) (g (some u)) ts us) :
    Paired R (next >>= f) (next >>= g) (t :: ts) (u :: us) := by
  intro c d hc hd
  have hnext : ∀ (c : Cursor) (t : Token) (ts : List Token), c.upcoming = t :: ts →
      next.runFrom c = (.ok (some t), c.advance.2) := by
    intro c t ts hc
    have hfst : c.advance.1 = some t := by simp [hc]
    rw [← hfst]
    rfl
  rw [runFrom_bind_of_ok (hnext c t ts hc), runFrom_bind_of_ok (hnext d u us hd)]
  exact h (by simp [hc]) (by simp [hd])

/-- The left side alone puts a token back. -/
lemma paired_pushFront_bind_left {f : Unit → Parser β} {q : Parser β} (t : Token)
    (h : Paired R (f ()) q (t :: ts) us) : Paired R (pushFront t >>= f) q ts us := by
  rintro c d rfl hd
  have hpush : (pushFront t).runFrom c = (.ok (), c.pushFront t) := rfl
  rw [runFrom_bind_of_ok hpush]
  exact h rfl hd

lemma paired_pushFront_bind {f g : Unit → Parser β} (t u : Token)
    (h : Paired R (f ()) (g ()) (t :: ts) (u :: us)) :
    Paired R (pushFront t >>= f) (pushFront u >>= g) ts us := by
  rintro c d rfl rfl
  have hpush : ∀ (c : Cursor) (t : Token), (pushFront t).runFrom c = (.ok (), c.pushFront t) :=
    fun _ _ => rfl
  rw [runFrom_bind_of_ok (hpush c t), runFrom_bind_of_ok (hpush d u)]
  exact h rfl rfl

/-- Parsers that never succeed agree. -/
lemma paired_of_ensures_false (hp : Ensures p ts fun _ _ => False)
    (hq : Ensures q us fun _ _ => False) : Paired R p q ts us := by
  intro c d hc hd
  rcases hpc : p.runFrom c with ⟨_ | x, c'⟩
  · rcases hqd : q.runFrom d with ⟨_ | y, d'⟩
    · exact .error
    · exact (hq hd hqd).elim
  · exact (hp hc hpc).elim

lemma paired_failExpected (expected expected' : String) :
    Paired R (failExpected expected : Parser α) (failExpected expected') ts us :=
  paired_of_ensures_false (ensures_failExpected expected) (ensures_failExpected expected')

/-- Both sides consume a token, if there is one. -/
lemma paired_anyToken_bind {f g : Token → Parser β} (hnil : ts = [] ↔ us = [])
    (h : ∀ t u ts' us', ts = t :: ts' → us = u :: us' → Paired R (f t) (g u) ts' us') :
    Paired R (anyToken >>= f) (anyToken >>= g) ts us := by
  cases ts with
  | nil =>
    obtain rfl := hnil.1 rfl
    have hnone : ∀ f : Token → Parser β, Ensures (anyToken >>= f) [] fun _ _ => False :=
      fun f => (ensures_anyToken []).bind fun _ _ hcons => absurd hcons nofun
    exact paired_of_ensures_false (hnone f) (hnone g)
  | cons t ts =>
    cases us with
    | nil => cases hnil.2 rfl
    | cons u us =>
      rw [anyToken, bind_assoc, bind_assoc]
      exact paired_next_bind (h t u ts us rfl rfl)

/-- Neither side has a token that passes the test. -/
lemma paired_expectWhere_of_bad {f g : Token → Parser β} {good : Token → Bool}
    (hts : ts.head?.any good = false) (hus : us.head?.any good = false) (expected : String) :
    Paired R (expectWhere good expected >>= f) (expectWhere good expected >>= g) ts us := by
  have hnone : ∀ (f : Token → Parser β) (ts : List Token), ts.head?.any good = false →
      Ensures (expectWhere good expected >>= f) ts fun _ _ => False := by
    refine fun f ts hts => (ensures_expectWhere good expected ts).bind ?_
    rintro t us ⟨rfl, ht⟩
    rw [List.head?_cons, Option.any_some, ht] at hts
    cases hts
  exact paired_of_ensures_false (hnone f ts hts) (hnone g us hus)

/-- Both sides have a token that passes the test. -/
lemma paired_expectWhere_of_good {f g : Token → Parser β} {good : Token → Bool} {t u : Token}
    (ht : good t = true) (hu : good u = true) (expected : String)
    (h : Paired R (f t) (g u) ts us) :
    Paired R (expectWhere good expected >>= f) (expectWhere good expected >>= g)
      (t :: ts) (u :: us) := by
  rw [expectWhere, bind_assoc, bind_assoc]
  refine paired_peekAt_bind 0 ?_
  simp only [List.getElem?_cons_zero, Option.any_some, ht, hu, if_true]
  refine paired_anyToken_bind (by simp) ?_
  rintro _ _ _ _ ⟨⟩ ⟨⟩
  exact h

/-- Parsers in lockstep agree on the same tokens. -/
lemma agree_of_inStep {start : List Token} {k : Nat} (h : InStep p q start ts k) :
    Agree Eq (p.runFrom (.ofTokens ts)) (q.runFrom (.ofTokens ts)) := by
  have hrun := h (abreast_ofTokens ts) rfl
  rcases hp : p.runFrom (.ofTokens ts) with ⟨r, c⟩
  rcases hq : q.runFrom (.ofTokens ts) with ⟨r', d⟩
  rw [hp, hq] at hrun
  cases hrun with
  | ok hcursors => exact .ok hcursors.upcoming
  | error => exact .error

end ClassLang.Parser
