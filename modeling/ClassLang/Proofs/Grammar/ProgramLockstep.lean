import ClassLang.Grammar.Program
import ClassLang.Proofs.Grammar.ExprLockstep

set_option autoImplicit false

/-!
# Statements, classes and programs in lockstep

Statements recur on lighter tokens as expressions do: each of them consumes something. What differs
between two runs of the parser of programs is the very end. When all classes have been read, the
end of the tokens has been looked at, so that a failure of the source has been met; it is the
result of the run then. What stands in front of the first keyword `public` is passed over, whatever
it is; from there on all that a run does is moves through the tokens.

## Main definitions

* `ClassLang.Grammar.fromPublic` — the tokens from the first keyword `public` on.
* `ClassLang.Parser.Meets` — a successful run meets the failure of the source.
* `ClassLang.Grammar.Verdict` — how two runs of the parser of programs end.

## Main results

* `ClassLang.Grammar.consumes_stmtOf` — a statement asks for inner statements on lighter tokens
  only.
* `ClassLang.Grammar.consumes_stmtWithin`, `ClassLang.Grammar.consumes_classDeclWithin` — statements
  and classes.
* `ClassLang.Grammar.verdict_programWithin` — programs.
* `ClassLang.Program.passage_of_ofTokens_eq_ok` — a list of tokens that is parsed as a program is
  gone through from the first keyword `public` to its end.
-/

namespace ClassLang.Grammar

open ClassLang.Parser

variable {n a b : Nat}

/-! ## Declarations of variables -/

lemma lockstep_atDeclaration : Lockstep n atDeclaration atDeclaration := by
  refine lockstep_peekAt_bind 0 fun next? => ?_
  cases next? with
  | none => exact lockstep_pure _
  | some t =>
    refine .ite (lockstep_pure _) (.ite ?_ (.ite (lockstep_hasKindAt 1 _) (lockstep_pure _)))
    exact (lockstep_hasOperatorAt 1 _).bind fun _ => lockstep_pure _

section Budgets

variable (ha : n ≤ a) (hb : n ≤ b)
include ha hb

lemma lockstep_exprWithin : Lockstep n (exprWithin a) (exprWithin b) :=
  (consumes_exprWithin ha hb).lockstep

lemma lockstep_optionalInit : Lockstep n (optionalInit a) (optionalInit b) :=
  (lockstep_acceptOperator _).bind fun _ => .ite
    ((lockstep_initializerOf (lockstep_exprWithin ha hb) ha hb).bind fun _ => lockstep_pure _)
    (lockstep_pure _)

lemma consumes_declarator : Consumes n (declarator a) (declarator b) :=
  (consumes_typeExprWithin ha hb).andThen fun _ =>
    consumes_expectIdentifier.lockstep.bind fun _ => lockstep_pure _

lemma consumes_varDeclWithin : Consumes n (varDeclWithin a) (varDeclWithin b) :=
  (lockstep_acceptKeyword _).bind_consumes fun _ => (consumes_declarator ha hb).andThen fun _ =>
    (lockstep_optionalInit ha hb).bind fun _ => lockstep_pure _

/-! ## Statements -/

lemma lockstep_condition : Lockstep n (condition a) (condition b) :=
  (consumes_expectOperator _).lockstep.bind fun _ => (lockstep_exprWithin ha hb).bind fun _ =>
    (consumes_expectOperator _).lockstep.bind fun _ => lockstep_pure _

lemma lockstep_exprUnless (stop : String) : Lockstep n (exprUnless stop a) (exprUnless stop b) :=
  (lockstep_hasOperator _).bind fun _ => .ite (lockstep_pure _)
    ((lockstep_exprWithin ha hb).bind fun _ => lockstep_pure _)

lemma lockstep_forInit : Lockstep n (forInit a) (forInit b) := by
  refine (lockstep_acceptOperator _).bind fun _ => .ite (lockstep_pure _) ?_
  refine lockstep_atDeclaration.bind fun _ => .ite ?_ ?_
  · exact (consumes_varDeclWithin ha hb).lockstep.bind fun _ =>
      (consumes_expectOperator _).lockstep.bind fun _ => lockstep_pure _
  · exact (lockstep_exprWithin ha hb).bind fun _ =>
      (consumes_expectOperator _).lockstep.bind fun _ => lockstep_pure _

lemma consumes_simpleStmt : Consumes n (simpleStmt a) (simpleStmt b) := by
  refine lockstep_atDeclaration.bind_consumes fun _ => .ite ?_ ?_
  · exact (consumes_varDeclWithin ha hb).andThen fun _ =>
      (consumes_expectOperator _).lockstep.bind fun _ => lockstep_pure _
  · exact (consumes_exprWithin ha hb).andThen fun _ =>
      (consumes_expectOperator _).lockstep.bind fun _ => lockstep_pure _

end Budgets

lemma lockstep_caseLabel (ha : n < a) (hb : n < b) : Lockstep n (caseLabel a) (caseLabel b) := by
  have hlabel : Consumes (n + 1) (primaryOf (exprWithin a) a) (primaryOf (exprWithin b) b) :=
    consumes_primaryOf (lockstep_exprWithin ha.le hb.le) ha hb
  exact lockstep_peekAt_bind 0 fun _ => .ite (hlabel.lockstep.mono (Nat.le_succ n))
    (consumes_failExpected _).lockstep

section Statements

variable {stmt stmt' : Parser Stmt} (hstmt : Consumes n stmt stmt')
include hstmt

lemma lockstep_stmtsToBrace :
    ∀ {k a b : Nat}, k ≤ n → k ≤ a → k ≤ b →
      Lockstep k (stmtsToBrace stmt a) (stmtsToBrace stmt' b)
  | 0, _, _, _, _, _ => lockstep_zero _ _
  | k + 1, a + 1, b + 1, hk, ha, hb => by
    refine (lockstep_acceptOperator _).bind fun _ => .ite (lockstep_pure _) ?_
    refine lockstep_atEnd.bind fun _ => .ite (consumes_failExpected _).lockstep ?_
    exact ((hstmt.mono hk).bind fun _ =>
      (lockstep_stmtsToBrace (by omega) (by omega) (by omega)).bind
        fun _ => lockstep_pure _).lockstep

lemma lockstep_armStmts :
    ∀ {k a b : Nat}, k ≤ n → k ≤ a → k ≤ b → Lockstep k (armStmts stmt a) (armStmts stmt' b)
  | 0, _, _, _, _, _ => lockstep_zero _ _
  | k + 1, a + 1, b + 1, hk, ha, hb => by
    refine lockstep_peekAt_bind 0 fun next? => ?_
    cases next? with
    | none => exact (consumes_failExpected _).lockstep
    | some t =>
      refine .ite (lockstep_pure _) (Consumes.lockstep ?_)
      exact (hstmt.mono hk).bind fun _ =>
        (lockstep_armStmts (by omega) (by omega) (by omega)).bind fun _ => lockstep_pure _

lemma lockstep_switchArms :
    ∀ {k a b : Nat}, k ≤ n → k ≤ a → k ≤ b → Lockstep k (switchArms stmt a) (switchArms stmt' b)
  | 0, _, _, _, _, _ => lockstep_zero _ _
  | k + 1, a + 1, b + 1, hk, ha, hb => by
    refine (lockstep_acceptOperator _).bind fun _ => .ite (lockstep_pure _) ?_
    refine lockstep_peek_bind (consumes_failExpected _).lockstep fun t ts hts => ?_
    have harm : ∀ arm : List Stmt → SwitchArm, Lockstep k
        (do
          let _ ← expectOperator ":"
          let stmts ← armStmts stmt (a + 1)
          let others ← switchArms stmt a
          return arm stmts :: others)
        (do
          let _ ← expectOperator ":"
          let stmts ← armStmts stmt' (b + 1)
          let others ← switchArms stmt' b
          return arm stmts :: others) := fun _ =>
      (consumes_expectOperator _).lockstep.bind fun _ =>
        (lockstep_armStmts hstmt (by omega) (by omega) (by omega)).bind fun _ =>
          (lockstep_switchArms (by omega) (by omega) (by omega)).bind fun _ => lockstep_pure _
    refine .ite (fun ht => ?_) fun _ => .ite (fun ht => ?_) fun _ => inStep_throw (by simp)
    · have hlabel : Lockstep k (caseLabel (a + 1)) (caseLabel (b + 1)) :=
        lockstep_caseLabel (by omega) (by omega)
      exact (Lockstep.behind_next (Token.kind_ne_error_of_isKeyword ht) (hlabel.bind fun label =>
        harm fun stmts => .labelled t.line label (.mk t.line stmts)) hts).mono (Nat.le_succ _)
    · exact (Lockstep.behind_next (Token.kind_ne_error_of_isKeyword ht)
        (harm fun stmts => .otherwise t.line (.mk t.line stmts)) hts).mono (Nat.le_succ _)

variable (ha : n ≤ a) (hb : n ≤ b)
include ha hb

lemma consumes_blockOf : Consumes (n + 1) (blockOf stmt a) (blockOf stmt' b) :=
  (consumes_expectOperator _).bind fun _ =>
    (lockstep_stmtsToBrace hstmt (Nat.le_refl n) ha hb).bind fun _ => lockstep_pure _

lemma lockstep_bodyOf : Lockstep n (bodyOf stmt a) (bodyOf stmt' b) :=
  (lockstep_hasOperator _).bind fun _ => .ite
    ((consumes_blockOf hstmt ha hb).lockstep.mono (Nat.le_succ n))
    (hstmt.lockstep.bind fun _ => lockstep_pure _)

lemma consumes_ifStmt : Consumes (n + 1) (ifStmt stmt a) (ifStmt stmt' b) :=
  (consumes_expectKeyword _).bind fun _ => (lockstep_condition ha hb).bind fun _ =>
    (lockstep_bodyOf hstmt ha hb).bind fun _ => (lockstep_acceptKeyword _).bind fun _ => .ite
      ((lockstep_bodyOf hstmt ha hb).bind fun _ => lockstep_pure _) (lockstep_pure _)

lemma consumes_whileStmt : Consumes (n + 1) (whileStmt stmt a) (whileStmt stmt' b) :=
  (consumes_expectKeyword _).bind fun _ => (lockstep_condition ha hb).bind fun _ =>
    (lockstep_bodyOf hstmt ha hb).bind fun _ => lockstep_pure _

lemma consumes_doWhileStmt : Consumes (n + 1) (doWhileStmt stmt a) (doWhileStmt stmt' b) :=
  (consumes_expectKeyword _).bind fun _ => (lockstep_bodyOf hstmt ha hb).bind fun _ =>
    (consumes_expectKeyword _).lockstep.bind fun _ => (lockstep_condition ha hb).bind fun _ =>
      (consumes_expectOperator _).lockstep.bind fun _ => lockstep_pure _

lemma consumes_forStmt : Consumes (n + 1) (forStmt stmt a) (forStmt stmt' b) := by
  refine (consumes_expectKeyword _).bind fun _ => (consumes_expectOperator _).lockstep.bind ?_
  intro _
  refine (lockstep_hasOperatorAt 2 _).bind fun _ => .ite (consumes_failUnsupported _ _).lockstep ?_
  refine (lockstep_forInit ha hb).bind fun _ => (lockstep_exprUnless ha hb _).bind fun _ => ?_
  refine (consumes_expectOperator _).lockstep.bind fun _ => ?_
  refine (lockstep_exprUnless ha hb _).bind fun _ => ?_
  exact (consumes_expectOperator _).lockstep.bind fun _ =>
    (lockstep_bodyOf hstmt ha hb).bind fun _ => lockstep_pure _

lemma consumes_switchStmt : Consumes (n + 1) (switchStmt stmt a) (switchStmt stmt' b) :=
  (consumes_expectKeyword _).bind fun _ => (lockstep_condition ha hb).bind fun _ =>
    (consumes_expectOperator _).lockstep.bind fun _ =>
      (lockstep_switchArms hstmt (Nat.le_refl n) ha hb).bind fun _ => lockstep_pure _

end Statements

section Knot

variable {stmt stmt' : Parser Stmt} (hstmt : Consumes n stmt stmt') (ha : n < a) (hb : n < b)
include hstmt ha hb

/-- A statement that starts with a keyword, which is next. -/
lemma inStep_keywordStmt {t : Token} (hkind : t.kind = .keyword) {ts : List Token}
    (hts : totalWeight (t :: ts) < n + 1) :
    InStep (keywordStmt stmt a t) (keywordStmt stmt' b t) (t :: ts) (t :: ts)
      (totalWeight (t :: ts)) := by
  have hne : t.kind ≠ .error := by simp [hkind]
  have hjump : ∀ result,
      InStep (jump result) (jump result) (t :: ts) (t :: ts) (totalWeight (t :: ts)) :=
    fun result => Lockstep.behind_next hne ((consumes_expectOperator _).lockstep.bind
      fun _ => lockstep_pure result) hts
  refine .ite (fun _ => consumes_ifStmt hstmt ha.le hb.le _ hts) fun _ => ?_
  refine .ite (fun _ => consumes_whileStmt hstmt ha.le hb.le _ hts) fun _ => ?_
  refine .ite (fun _ => consumes_doWhileStmt hstmt ha.le hb.le _ hts) fun _ => ?_
  refine .ite (fun _ => consumes_forStmt hstmt ha.le hb.le _ hts) fun _ => ?_
  refine .ite (fun _ => consumes_switchStmt hstmt ha.le hb.le _ hts) fun _ => ?_
  refine .ite (fun _ => hjump _) fun _ => .ite (fun _ => hjump _) fun _ => ?_
  refine .ite (fun _ => ?_) fun _ => ?_
  · exact Lockstep.behind_next hne ((lockstep_exprUnless ha.le hb.le _).bind fun _ =>
      (consumes_expectOperator _).lockstep.bind fun _ => lockstep_pure _) hts
  · exact .ite (fun _ => consumes_failUnexpected _ _ _ hts)
      fun _ => consumes_simpleStmt ha hb _ hts

/-- **A statement goes down.** Which inner statements the parser of statements meets on tokens of a
given weight is settled on lighter tokens. -/
lemma consumes_stmtOf : Consumes (n + 1) (stmtOf stmt a) (stmtOf stmt' b) := by
  refine consumes_peek_bind (consumes_failExpected _) fun t ts hts => ?_
  refine .ite (fun _ => ?_) fun _ => .ite (fun ht => ?_) fun _ => ?_
  · exact (consumes_blockOf hstmt ha.le hb.le).andThen (fun _ => lockstep_pure _) _ hts
  · exact Lockstep.behind_next (f := fun _ => pure (Stmt.block (.mk t.line [])))
      (Token.kind_ne_error_of_isOperator ht) (lockstep_pure _) hts
  · exact .ite (fun hkind => inStep_keywordStmt hstmt ha hb hkind hts)
      fun _ => consumes_simpleStmt ha hb _ hts

end Knot

/-- **Statements are in lockstep**, whatever their budgets, as long as these are no smaller than the
weight. -/
lemma consumes_stmtWithin :
    ∀ {n a b : Nat}, n ≤ a → n ≤ b → Consumes n (stmtWithin a) (stmtWithin b)
  | 0, _, _, _, _ => consumes_zero _ _
  | n + 1, a + 1, b + 1, ha, hb =>
    consumes_stmtOf (consumes_stmtWithin (n := n) (by omega) (by omega)) (by omega) (by omega)

lemma consumes_blockWithin (ha : n ≤ a) (hb : n ≤ b) : Consumes n (blockWithin a) (blockWithin b) :=
  (consumes_blockOf (consumes_stmtWithin ha hb) ha hb).mono (Nat.le_succ n)

/-! ## Classes -/

lemma lockstep_skipModifiers :
    ∀ {n a b : Nat}, n ≤ a → n ≤ b → Lockstep n (skipModifiers a) (skipModifiers b)
  | 0, _, _, _, _ => lockstep_zero _ _
  | n + 1, a + 1, b + 1, ha, hb => by
    refine lockstep_peek_bind (lockstep_pure _) fun t ts hts => ?_
    refine .ite (fun ht => InStep.mono ?_ (Nat.le_succ _)) fun _ => lockstep_pure _ _ hts
    have hkind : t.kind ≠ .error := by
      intro hkind
      simp [isModifier, hkind] at ht
    exact Lockstep.behind_next hkind ((lockstep_skipModifiers (n := n) (by omega) (by omega)).bind
      fun _ => lockstep_pure _) hts

lemma lockstep_parameterList :
    ∀ {n a b : Nat}, n ≤ a → n ≤ b → Lockstep n (parameterList a) (parameterList b)
  | 0, _, _, _, _ => lockstep_zero _ _
  | n + 1, a + 1, b + 1, ha, hb => by
    refine (lockstep_acceptKeyword _).bind fun _ => (consumes_declarator ha hb).lockstep.bind ?_
    rintro ⟨name, type, line⟩
    refine (lockstep_acceptOperator _).bind fun _ => .ite (lockstep_pure _) (Consumes.lockstep ?_)
    exact (consumes_expectOperator _).bind fun _ =>
      (lockstep_parameterList (n := n) (by omega) (by omega)).bind fun _ => lockstep_pure _

lemma lockstep_parameters (ha : n ≤ a) (hb : n ≤ b) : Lockstep n (parameters a) (parameters b) :=
  (consumes_expectOperator _).lockstep.bind fun _ => (lockstep_acceptOperator _).bind fun _ =>
    .ite (lockstep_pure _) (lockstep_parameterList ha hb)

lemma consumes_memberWithin (ha : n ≤ a) (hb : n ≤ b) :
    Consumes n (memberWithin a) (memberWithin b) := by
  refine (lockstep_skipModifiers ha hb).bind_consumes fun _ =>
    (consumes_declarator ha hb).andThen ?_
  rintro ⟨name, type, line⟩
  refine (lockstep_hasOperator _).bind fun _ => .ite ?_ ?_
  · exact (lockstep_parameters ha hb).bind fun _ =>
      (consumes_blockWithin ha hb).lockstep.bind fun _ => lockstep_pure _
  · exact (lockstep_optionalInit ha hb).bind fun _ =>
      (consumes_expectOperator _).lockstep.bind fun _ => lockstep_pure _

lemma lockstep_membersToBrace :
    ∀ {n a b : Nat}, n ≤ a → n ≤ b → Lockstep n (membersToBrace a) (membersToBrace b)
  | 0, _, _, _, _ => lockstep_zero _ _
  | n + 1, a + 1, b + 1, ha, hb => by
    refine (lockstep_acceptOperator _).bind fun _ => .ite (lockstep_pure _) ?_
    refine lockstep_atEnd.bind fun _ => .ite (consumes_failExpected _).lockstep ?_
    exact ((consumes_memberWithin ha hb).bind fun _ =>
      (lockstep_membersToBrace (n := n) (by omega) (by omega)).bind
        fun _ => lockstep_pure _).lockstep

/-- **Classes are in lockstep**, whatever their budgets, as long as these are no smaller than the
weight. -/
lemma consumes_classDeclWithin (ha : n ≤ a) (hb : n ≤ b) :
    Consumes n (classDeclWithin a) (classDeclWithin b) := by
  refine (lockstep_skipModifiers ha hb).bind_consumes fun _ => (consumes_expectKeyword _).andThen ?_
  refine fun _ => consumes_expectIdentifier.lockstep.bind fun t => ?_
  refine (lockstep_hasKeyword _).bind fun _ => (lockstep_hasKeyword _).bind fun _ => .ite ?_ ?_
  · exact lockstep_currentLine.bind fun _ => (consumes_failUnsupported _ _).lockstep
  · exact (consumes_expectOperator _).lockstep.bind fun _ =>
      (lockstep_membersToBrace ha hb).bind fun _ => lockstep_pure _

lemma lockstep_classesToEnd :
    ∀ {n a b : Nat}, n ≤ a → n ≤ b → Lockstep n (classesToEnd a) (classesToEnd b)
  | 0, _, _, _, _ => lockstep_zero _ _
  | n + 1, a + 1, b + 1, ha, hb => by
    refine lockstep_atEnd.bind fun _ => .ite (lockstep_pure _) (Consumes.lockstep ?_)
    exact (consumes_classDeclWithin ha hb).bind fun _ =>
      (lockstep_classesToEnd (n := n) (by omega) (by omega)).bind fun _ => lockstep_pure _

/-- The tokens from the first keyword `public` on. -/
def fromPublic (ts : List Token) : List Token :=
  ts.dropWhile fun t => !t.isKeyword "public"

/-- What stands in front of the first keyword `public` is passed over. -/
lemma inStep_skipToPublic : ∀ {n a b : Nat} {ts : List Token}, n ≤ a → n ≤ b →
    totalWeight ts < n →
      InStep (skipToPublic a) (skipToPublic b) (fromPublic ts) ts (totalWeight ts + 1)
  | n + 1, a + 1, b + 1, ts, ha, hb, hts => by
    refine inStep_peekAt_bind 0 ?_
    cases ts with
    | nil => exact inStep_pure _ (.refl []) (Nat.lt_succ_self _)
    | cons t ts =>
      have hpos := t.weight_pos
      rw [totalWeight_cons] at hts ⊢
      rw [List.getElem?_cons_zero, fromPublic]
      refine .ite (fun hpublic => ?_) fun hother => ?_
      · rw [List.dropWhile_cons_of_neg (by simp [hpublic])]
        exact inStep_pure _ (.refl _) (by rw [totalWeight_cons]; omega)
      · rw [List.dropWhile_cons_of_pos (by simp [hother])]
        exact inStep_next_bind ((inStep_skipToPublic (n := n) (by omega) (by omega)
          (by omega)).mono (by omega))

end ClassLang.Grammar

namespace ClassLang.Parser

/-! ## The end of the source -/

variable {α β : Type} {n : Nat} {p q : Parser α} {f : α → Parser β}

/-- After a successful run on tokens lighter than `n`, the failure behind them has been met. -/
def Meets (n : Nat) (p : Parser α) : Prop :=
  ∀ ⦃F : Option (SyntaxError × Feed)⦄ ⦃c : Cursor⦄ ⦃x : α⦄ ⦃c' : Cursor⦄, c.Before F →
    totalWeight c.upcoming < n → p.runFrom c = (.ok x, c') →
      c'.Before F ∧ (F.isSome = true → c'.failureMet = true)

/-- A run in lockstep with itself stays before the same failure. -/
lemma InStep.before {F : Option (SyntaxError × Feed)} {c c' : Cursor} {x : α} {k : Nat}
    {start : List Token} (h : InStep p p start c.upcoming k) (hc : c.Before F)
    (hrun : p.runFrom c = (.ok x, c')) : c'.Before F ∧ totalWeight c'.upcoming < k := by
  have houtcome := h ⟨rfl, rfl, hc, hc⟩ rfl
  rw [hrun] at houtcome
  cases houtcome with
  | ok hcursors _ hweight => exact ⟨hcursors.left, hweight⟩

lemma meets_bind {start : List Token → List Token}
    (hp : ∀ ts, totalWeight ts < n → InStep p p (start ts) ts (totalWeight ts + 1))
    (hf : ∀ x, Meets n (f x)) : Meets n (p >>= f) := by
  intro F c y c' hc hweight hrun
  obtain ⟨x, d, hx, hy⟩ := exists_of_runFrom_bind hrun
  obtain ⟨hd, hlight⟩ := (hp _ hweight).before hc hx
  exact hf x hd (by omega) hy

lemma Lockstep.bind_meets (hp : Lockstep n p p) (hf : ∀ x, Meets n (f x)) : Meets n (p >>= f) :=
  meets_bind hp hf

lemma Consumes.bind_meets (hp : Consumes (n + 1) p p) (hf : ∀ x, Meets n (f x)) :
    Meets (n + 1) (p >>= f) := by
  intro F c y c' hc hweight hrun
  obtain ⟨x, d, hx, hy⟩ := exists_of_runFrom_bind hrun
  obtain ⟨hd, hlight⟩ := (hp _ hweight).before hc hx
  exact hf x hd (by omega) hy

lemma Meets.bind_pure (hp : Meets n p) (g : α → β) : Meets n (p >>= fun x => pure (g x)) := by
  intro F c y c' hc hweight hrun
  obtain ⟨x, d, hx, hy⟩ := exists_of_runFrom_bind hrun
  obtain ⟨-, rfl⟩ := Prod.mk.inj hy
  exact hp hc hweight hx

lemma meets_failExpected (expected : String) : Meets n (failExpected expected : Parser α) := by
  intro F c x c' _ _ hrun
  obtain ⟨e, d, -, hthrow⟩ := exists_of_runFrom_bind hrun
  cases (Prod.mk.inj hthrow).1

/-- To know that no token is left the parser has looked beyond the last one. -/
lemma meets_unless_atEnd (x : α) (hq : Meets n q) :
    Meets n (do if ← atEnd then return x else q) := by
  intro F c y c' hc hweight hrun
  obtain ⟨ended, d, hend, hrun⟩ := exists_of_runFrom_bind hrun
  obtain ⟨hended, rfl⟩ := Prod.mk.inj hend
  obtain rfl : c.upcoming[0]?.isNone = ended := Except.ok.inj hended
  cases hup : c.upcoming with
  | nil =>
    rw [hup] at hrun
    obtain ⟨-, rfl⟩ := Prod.mk.inj hrun
    exact ⟨hc.fetch 1, hc.failureMet_fetch hup⟩
  | cons t ts =>
    rw [hup] at hrun
    exact hq (hc.fetch 1) (by rwa [Cursor.upcoming_fetch]) hrun

end ClassLang.Parser

namespace ClassLang.Grammar

open ClassLang.Parser

variable {n a b : Nat}

lemma meets_classesToEnd : ∀ {n a : Nat}, n ≤ a → Meets n (classesToEnd a)
  | 0, _, _ => fun _ _ _ _ _ h => absurd h (by omega)
  | n + 1, a + 1, ha =>
    meets_unless_atEnd _ <| (consumes_classDeclWithin ha ha).bind_meets fun _ =>
      (meets_classesToEnd (n := n) (by omega)).bind_pure _

/-! ## Programs -/

/-- The classes of a program, without a look at the failure of the source. -/
def classesWithin (budget : Nat) : Parser Program := do
  skipToPublic budget
  if ← atEnd then
    failExpected "'public' class declaration"
  else
    let line ← currentLine
    let classes ← classesToEnd budget
    return { classes, line }

/-- A program, unless the source has failed. -/
def unlessFailed (program : Program) : Parser Program := do
  match ← takeFailure with
  | some e => throw e
  | none => return program

lemma programWithin_eq (budget : Nat) :
    programWithin budget = classesWithin budget >>= unlessFailed := by
  rw [programWithin, classesWithin, bind_assoc]
  congr 1
  funext _
  rw [bind_assoc]
  congr 1
  funext ended
  cases ended with
  | true =>
    show failExpected _ = failExpected _ >>= unlessFailed
    rw [failExpected, bind_assoc]
    rfl
  | false =>
    show (currentLine >>= fun line => _) = (currentLine >>= fun line => _) >>= unlessFailed
    simp only [bind_assoc, pure_bind]
    rfl

lemma inStep_classesWithin (ha : n ≤ a) (hb : n ≤ b) {ts : List Token} (hts : totalWeight ts < n) :
    InStep (classesWithin a) (classesWithin b) (fromPublic ts) ts (totalWeight ts + 1) :=
  (inStep_skipToPublic ha hb hts).bind_lockstep (fun _ => lockstep_atEnd.bind fun _ => .ite
    (consumes_failExpected _).lockstep
    (lockstep_currentLine.bind fun _ =>
      (lockstep_classesToEnd ha hb).bind fun _ => lockstep_pure _)) hts

lemma meets_classesWithin (ha : n ≤ a) : Meets n (classesWithin a) := by
  refine meets_bind (fun _ => inStep_skipToPublic ha ha) fun _ => ?_
  refine lockstep_atEnd.bind_meets fun ended => ?_
  cases ended with
  | true => exact meets_failExpected _
  | false =>
    exact lockstep_currentLine.bind_meets fun _ => (meets_classesToEnd ha).bind_pure _

/-- The result of a run over a source with the failure `F` at its end, when all classes have been
read. -/
def settle (F : Option (SyntaxError × Feed)) (program : Program) : Except SyntaxError Program :=
  match F with
  | some (e, _) => .error e
  | none => .ok program

/-- How two runs of the parser of programs end, over sources with the failures `F` and `G`: both
have read the same classes, and the failure of the source decides; or both fail before that. -/
def Verdict (F G : Option (SyntaxError × Feed)) (r s : Except SyntaxError Program) : Prop :=
  (∃ program, r = settle F program ∧ s = settle G program) ∨
    ∃ e e', r = .error e ∧ s = .error e' ∧ (F = G → e = e') ∧
      (F = none → e.cause ≠ .budgetExhausted)

lemma runFrom_unlessFailed {F : Option (SyntaxError × Feed)} {c : Cursor} (h : c.Before F)
    (hmet : F.isSome = true → c.failureMet = true) (program : Program) :
    ((unlessFailed program).runFrom c).1 = settle F program := by
  have htake : takeFailure.runFrom c = (.ok (F.map (·.1)), c.takeFailure.2) := by
    rw [← h.fst_takeFailure hmet]
    rfl
  rw [unlessFailed, runFrom_bind_of_ok htake]
  cases F with
  | none => rfl
  | some failure => rfl

/-- **Programs are in lockstep up to the end of the source**, whatever their budgets, as long as
these are above the weight.

**Proof sketch.** The classes are read in lockstep. When they have been read, both runs have looked
beyond the last token and met the failures that are there. -/
lemma verdict_programWithin {F G : Option (SyntaxError × Feed)} {c d : Cursor}
    (hcd : Cursor.Abreast F G c d) (ha : totalWeight c.upcoming < a)
    (hb : totalWeight c.upcoming < b) :
    Verdict F G ((programWithin a).runFrom c).1 ((programWithin b).runFrom d).1 := by
  have hrun := inStep_classesWithin ha hb (Nat.lt_succ_self _) hcd rfl
  rw [programWithin_eq, programWithin_eq]
  rcases hp : (classesWithin a).runFrom c with ⟨r, c'⟩
  rcases hq : (classesWithin b).runFrom d with ⟨s, d'⟩
  rw [hp, hq] at hrun
  cases hrun with
  | @ok program =>
    obtain ⟨hc, hmetc⟩ := meets_classesWithin ha hcd.left (Nat.lt_succ_self _) hp
    obtain ⟨hd, hmetd⟩ := meets_classesWithin hb hcd.right
      (by rw [hcd.upcoming]; exact Nat.lt_succ_self _) hq
    refine .inl ⟨program, ?_, ?_⟩
    · rw [runFrom_bind_of_ok hp, runFrom_unlessFailed hc hmetc]
    · rw [runFrom_bind_of_ok hq, runFrom_unlessFailed hd hmetd]
  | error hsame hbudget =>
    refine .inr ⟨_, _, ?_, ?_, hsame, hbudget⟩
    · rw [runFrom_bind_of_error hp]
    · rw [runFrom_bind_of_error hq]

/-! ## Tokens that are left out -/

lemma completes_classesToEnd : ∀ budget, Completes (classesToEnd budget)
  | 0 => completes_throw _
  | budget + 1 => completes_unless_atEnd _ <|
    completes_bind _ fun _ => (completes_classesToEnd budget).bind_pure _

lemma completes_classesWithin (budget : Nat) : Completes (classesWithin budget) := by
  refine completes_bind _ fun _ => completes_bind _ fun ended => ?_
  cases ended with
  | true => exact fun _ => ensures_failExpected _
  | false => exact completes_bind _ fun _ => (completes_classesToEnd budget).bind_pure _

end ClassLang.Grammar

namespace ClassLang

/-- **A parsed program leaves no token out**: its tokens are gone through from the first keyword
`public` to the end. -/
lemma Program.passage_of_ofTokens_eq_ok {tokens : List Token} {program : Program}
    (h : Program.ofTokens tokens = .ok program) :
    Grammar.Passage (Grammar.fromPublic tokens) [] := by
  rw [ofTokens, Parser.onTokens, Grammar.program, Parser.runFrom_withBudget] at h
  rcases hrun : (Grammar.programWithin _).runFrom (.ofTokens tokens) with ⟨r, c⟩
  rw [hrun] at h
  obtain rfl : r = .ok program := h
  rw [Grammar.programWithin_eq] at hrun
  obtain ⟨classes, d, hclasses, -⟩ := Parser.exists_of_runFrom_bind hrun
  have hbudget : totalWeight tokens < (Cursor.ofTokens tokens).weight + 1 := Nat.lt_succ_self _
  have hstep := Grammar.inStep_classesWithin hbudget hbudget (Nat.lt_succ_self _)
    (Parser.abreast_ofTokens tokens) rfl
  rw [hclasses] at hstep
  cases hstep with
  | ok _ hmoves _ => rwa [Grammar.completes_classesWithin _ tokens rfl hclasses] at hmoves

end ClassLang
