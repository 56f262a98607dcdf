import ClassLang.Proofs.Grammar.ExprLockstep
import ClassLang.Proofs.Grammar.SignSites

set_option autoImplicit false

/-!
# Signs drawn into numbers

Behind an operand the parser makes no difference between a signed number and an operator with a
number. An expression is parsed on both lists of tokens side by side. At the place where they differ
an operand has just ended. There no layer of the grammar goes on but that of sums, which takes the
sign for an operator on both sides, and the next operand starts with the same number.

## Main results

* `ClassLang.SignSite.follows_sumFrom` — sums split the sign off.
* `ClassLang.SignSite.starts_exprWithin` — parsers of expressions agree on the two sides.
* `ClassLang.Grammar.expr_agrees_on_split_sign` — a signed number behind an operand is read like an
  operator and a number.
-/

namespace ClassLang

namespace SignSite

open ClassLang.Parser ClassLang.Grammar

variable {S : SignSite} {ts us : List Token} {t : Token}

/-! ## Lists of expressions -/

section Expressions

variable {expr : Parser Expr} (hexpr : S.Starts expr)
include hexpr

lemma starts_argumentList : ∀ budget, S.Starts (argumentList expr budget)
  | 0 => (follows_throw _).starts
  | budget + 1 => hexpr.bind fun _ =>
      follows_acceptOperator_bind (by decide) (follows_pure _)
        (follows_expectOperator_bind_starts (by decide) fun _ =>
          (starts_argumentList budget).bind fun _ => follows_pure _)

lemma follows_arguments (budget : Nat) : S.Follows (arguments expr budget) :=
  follows_expectOperator_bind_starts (by decide) fun _ =>
    starts_acceptOperator_bind (follows_pure _) (starts_argumentList hexpr budget)

lemma starts_elementList : ∀ budget, S.Starts (elementList expr budget)
  | 0 => (follows_throw _).starts
  | budget + 1 => hexpr.bind fun _ =>
      follows_acceptOperator_bind (by decide) (follows_pure _)
        (follows_expectOperator_bind_starts (by decide) fun _ =>
          starts_acceptOperator_bind (follows_pure _)
            ((starts_elementList budget).bind fun _ => follows_pure _))

lemma follows_arrayInitOf : ∀ budget, S.Follows (arrayInitOf expr budget)
  | 0 => follows_throw _
  | budget + 1 => by
    have helement : S.Starts
        (do if ← hasOperator openBrace then arrayInitOf expr budget else expr) :=
      starts_hasOperator_bind fun _ => .ite (follows_arrayInitOf budget).starts hexpr
    refine follows_expectOperator_bind_starts (by decide) fun _ => ?_
    exact starts_acceptOperator_bind (follows_pure _)
      ((starts_elementList helement budget).bind fun _ => follows_pure _)

lemma starts_initializerOf (budget : Nat) : S.Starts (initializerOf expr budget) :=
  starts_hasOperator_bind fun _ => .ite (follows_arrayInitOf hexpr budget).starts hexpr

end Expressions

/-! ## Primary expressions -/

lemma paired_literal (value : Option Literal.Value) (hbehind : S.Behind ts us) :
    Paired S.Behind (literal t value) (literal t value) (t :: ts) (t :: us) := by
  refine paired_next_bind ?_
  cases value with
  | none => exact paired_throw _ _
  | some value => exact paired_pure _ hbehind

/-- The number that has lost its sign is the same literal as the number on its own. -/
lemma paired_literal_number (value : Option Literal.Value) :
    Paired S.Behind (literal S.signed.behead value) (literal S.number value)
      (S.signed.behead :: S.rest) (S.number :: S.rest) := by
  have hline : S.signed.behead.line = S.number.line := S.splits.number_line.symm
  refine paired_next_bind ?_
  cases value with
  | none => exact paired_throw _ _
  | some value =>
    have hsame : literalExpr S.signed.behead value = literalExpr S.number value := by
      simp [literalExpr, hline, S.behead_signed_lexeme]
    simp only [hsame]
    exact paired_pure _ (.inFront (.past S.noBracketWord_rest))

/-- A word without brackets stays whole. -/
lemma glued_of_noBracketWord (expr : Parser Expr) (budget : Nat) (hword : t.isWord = true)
    (ht : t.NoBracketWord) : glued expr budget t = pure (t.lexeme, []) := by
  have hnil : t.lexeme.toList.dropWhile (fun c => c ≠ '[') = [] := by
    refine List.dropWhile_eq_nil_iff.2 fun c hc => ?_
    simpa using fun hbracket : c = '[' => ht hword (hbracket ▸ hc)
  simp only [glued, hnil]
  rfl

section Expressions

variable {expr : Parser Expr} (hexpr : S.Starts expr)
include hexpr

lemma follows_newBehind (budget line : Nat) (name : String) :
    S.Follows (newBehind expr budget line name) := by
  have hargs : S.Follows (newArguments budget) := follows_hasOperator_bind (by decide) fun _ =>
    .ite (follows_typeArgumentsWithin budget) (follows_pure _)
  refine hargs.bind fun _ => follows_hasOperator_bind (by decide) fun _ => .ite ?_ ?_
  · refine follows_expectOperator_bind_starts (by decide) fun _ => hexpr.bind fun _ => ?_
    exact follows_expectOperator_bind (by decide) fun _ => follows_pure _
  · exact (follows_arguments hexpr budget).bind fun _ => .ite (follows_pure _) (follows_throw _)

lemma starts_newExpr (budget : Nat) : S.Starts (newExpr expr budget) := by
  have hsigned : ∀ word, S.signed.isKeyword word = false := by
    rcases S.splits.kind with hkind | hkind <;> simp [Token.isKeyword, hkind]
  have hsign : ∀ word, S.sign.isKeyword word = false := by
    simp [Token.isKeyword, S.splits.sign_kind]
  have hsigned' : S.signed.isWord = false := by
    rcases S.splits.kind with hkind | hkind <;> simp [Token.isWord, hkind]
  have hsign' : S.sign.isWord = false := by simp [Token.isWord, S.splits.sign_kind]
  rw [newExpr_eq]
  refine Follows.starts (follows_expectWhere_bind (hsigned _) (hsign _) ?_)
  intro keyword _ _ ts us hafter
  refine follows_expectWhere_bind hsigned' hsign' (fun t ht htidy ts us hafter => ?_) hafter.behind
  rw [glued_of_noBracketWord expr budget ht htidy, pure_bind]
  refine Follows.ite (follows_arrayInitOf hexpr budget) ?_ hafter.behind
  exact follows_newBehind hexpr budget _ _

lemma paired_keywordExpr (budget : Nat) (h : S.InFront (t :: ts) (t :: us))
    (hbehind : S.Behind ts us) :
    Paired S.Behind (keywordExpr expr budget t) (keywordExpr expr budget t) (t :: ts)
      (t :: us) := by
  refine .ite (fun _ => paired_literal _ hbehind) fun _ => ?_
  refine .ite (fun _ => paired_literal _ hbehind) fun _ => ?_
  refine .ite (fun _ => starts_newExpr hexpr budget h) fun _ => ?_
  refine .ite (fun _ => ?_) fun _ => paired_throw _ _
  refine paired_hasOperatorAt_bind 1 _ ?_
  rw [h.any_isOperator_one _ (by decide)]
  refine .ite (fun _ => ?_) fun _ => paired_throw _ _
  exact paired_next_bind (paired_pure _ hbehind)

lemma paired_nameExpr (budget : Nat) (hword : t.isWord = true) (ht : t.NoBracketWord)
    (hbehind : S.Behind ts us) :
    Paired S.Behind (nameExpr expr budget t) (nameExpr expr budget t) (t :: ts) (t :: us) := by
  refine paired_next_bind ?_
  rw [glued_of_noBracketWord expr budget hword ht, pure_bind]
  refine Follows.ite ?_ (follows_pure _) hbehind
  exact follows_hasOperator_bind (by decide) fun _ => .ite
    ((follows_arguments hexpr budget).bind fun _ => follows_pure _) (follows_pure _)

lemma paired_grouped (h : S.InFront ts us) :
    Paired S.Behind (grouped expr) (grouped expr) (t :: ts) (t :: us) :=
  paired_next_bind ((hexpr.bind fun _ =>
    follows_expectOperator_bind (by decide) fun _ => follows_pure _) h)

lemma starts_primaryOf (budget : Nat) : S.Starts (primaryOf expr budget) := by
  refine starts_peek_bind (fun _ _ _ => paired_failExpected _ _) ?_
  intro t ts us ht hafter h
  cases hkind : t.kind <;> simp only [hkind]
  case number | floatNumber | stringLiteral | charLiteral => exact paired_literal _ hafter.behind
  case keyword => exact paired_keywordExpr hexpr budget h hafter.behind
  case identifier =>
    exact paired_nameExpr hexpr budget (by simp [Token.isWord, hkind]) ht hafter.behind
  case operator =>
    refine .ite (fun hopen => paired_grouped hexpr (hafter.inFront ?_)) fun _ => paired_throw _ _
    have hop : t.isOperator "(" = true := by simp [Token.isOperator, hkind, hopen]
    exact endsOperand_eq_false hop (by decide)
  case error | unknown => exact paired_throw _ _

omit hexpr in
lemma resumes_primaryOf (expr : Parser Expr) (budget : Nat) :
    S.Resumes (primaryOf expr budget) := by
  have hkind : S.signed.behead.kind = S.number.kind := S.splits.number_kind.symm
  refine paired_peekAt_bind 0 ?_
  simp only [List.getElem?_cons_zero, hkind, S.behead_signed_lexeme]
  rcases S.splits.kind with h | h <;>
    · simp only [S.splits.number_kind, h]
      exact paired_literal_number _

/-! ## Behind and in front of primary expressions -/

lemma follows_trailers (budget : Nat) :
    ∀ steps e, S.Follows (trailers expr budget steps e)
  | 0, _ => follows_throw _
  | steps + 1, e => by
    refine follows_accept_bind (by decide) ?_ ?_
    · intro point hpoint ts us hafter
      have hends : point.endsOperand = false := endsOperand_eq_false hpoint (by decide)
      refine starts_anyToken_bind (fun t ht => ?_) (hafter.inFront hends)
      refine fun ts us hbehind => .ite (fun hword => ?_) fun _ => paired_throw _ _
      rw [glued_of_noBracketWord expr budget hword ht, pure_bind]
      refine (follows_hasOperator_bind (by decide) fun _ => .ite ?_ ?_) hbehind
      · exact (follows_arguments hexpr budget).bind fun _ => follows_trailers budget steps _
      · exact follows_trailers budget steps _
    · refine follows_hasOperator_bind (by decide) fun _ => .ite ?_ ?_
      · refine follows_expectOperator_bind_starts (by decide) fun _ => hexpr.bind fun _ => ?_
        exact follows_expectOperator_bind (by decide) fun _ => follows_trailers budget steps _
      · refine follows_peek_bind (starts_peek_bind (follows_pure _).starts ?_) ?_
        · intro t ts us _ hafter h
          cases hstep : trailingStep? t with
          | none => simpa [hstep] using paired_pure e (.inFront h)
          | some op =>
            simp only [Option.bind_some, hstep]
            exact paired_next_bind (paired_pure _ hafter.behind)
        · simpa [trailingStep?, signed_isOperator, sign_isOperator, signs] using
            paired_pure e Behind.here

lemma starts_operand (budget : Nat) : S.Starts (operand expr budget) :=
  (starts_primaryOf hexpr budget).bind fun e => follows_trailers hexpr budget budget e

lemma resumes_operand (budget : Nat) : S.Resumes (operand expr budget) :=
  (resumes_primaryOf expr budget).bind fun e => follows_trailers hexpr budget budget e

end Expressions

section Layers

variable {operand : Parser Expr}

lemma endsOperand_eq_false_of_leadingOp? {op : Option UnaryOp} (h : leadingOp? t = some op) :
    t.endsOperand = false := by
  unfold leadingOp? at h
  split_ifs at h with hinc hdec hnot hminus hplus
  · exact endsOperand_eq_false hinc (by decide)
  · exact endsOperand_eq_false hdec (by decide)
  · exact endsOperand_eq_false hnot (by decide)
  · exact endsOperand_eq_false hminus (by decide)
  · exact endsOperand_eq_false hplus (by decide)

lemma starts_unaryOf (hoperand : S.Starts operand) : ∀ budget, S.Starts (unaryOf operand budget)
  | 0 => (follows_throw _).starts
  | budget + 1 => by
    refine starts_peek_bind hoperand fun t ts us _ hafter h => ?_
    cases hop : leadingOp? t with
    | none => simpa [hop] using hoperand h
    | some op =>
      simp only [hop]
      refine paired_next_bind ?_
      refine (starts_unaryOf hoperand budget).bind (fun inner => ?_)
        (hafter.inFront (endsOperand_eq_false_of_leadingOp? hop))
      cases op with
      | none => exact follows_pure _
      | some op => exact follows_pure _

lemma resumes_unaryOf (hoperand : S.Resumes operand) (budget : Nat) :
    S.Resumes (unaryOf operand (budget + 1)) := by
  have hplain : ∀ t : Token, t.kind = S.signed.kind → leadingOp? t = none := by
    intro t ht
    rcases S.splits.kind with h | h <;> simp [leadingOp?, Token.isOperator, ht, h]
  refine paired_peekAt_bind 0 ?_
  simp only [List.getElem?_cons_zero, hplain S.signed.behead rfl,
    hplain S.number S.splits.number_kind]
  exact hoperand

lemma endsOperand_eq_false_of_binaryOp? {ops : List BinaryOp} {op : BinaryOp}
    (h : binaryOp? ops t = some op) : t.endsOperand = false := by
  have hclosings : ∀ text ∈ closings, BinaryOp.ofText? text = none := by decide
  unfold binaryOp? at h
  split_ifs at h with hkind
  obtain ⟨htext, -⟩ := Option.filter_eq_some_iff.1 h
  refine endsOperand_eq_false (by simp [Token.isOperator, hkind] : t.isOperator t.lexeme = true) ?_
  intro hclosing
  rw [hclosings _ hclosing] at htext
  cases htext

/-- A layer that is not that of sums stops at the signed number and at the sign alike. -/
lemma follows_chainFrom {ops : List BinaryOp} (hadd : .arith .add ∉ ops) (hsub : .arith .sub ∉ ops)
    (hoperand : S.Starts operand) : ∀ budget left, S.Follows (chainFrom ops operand budget left)
  | 0, _ => follows_throw _
  | budget + 1, left => by
    refine follows_peek_bind (starts_peek_bind (follows_pure _).starts ?_) ?_
    · intro t ts us _ hafter h
      cases hop : binaryOp? ops t with
      | none => simpa [hop] using paired_pure left (.inFront h)
      | some op =>
        simp only [hop]
        refine paired_next_bind ?_
        exact hoperand.bind (fun _ => follows_chainFrom hadd hsub hoperand budget _)
          (hafter.inFront (endsOperand_eq_false_of_binaryOp? hop))
    · simpa [S.binaryOp?_signed ops, S.binaryOp?_sign hadd hsub] using
        paired_pure left Behind.here

lemma starts_chain {ops : List BinaryOp} (hadd : .arith .add ∉ ops) (hsub : .arith .sub ∉ ops)
    (hoperand : S.Starts operand) (budget : Nat) : S.Starts (chain ops operand budget) :=
  hoperand.bind fun first => follows_chainFrom hadd hsub hoperand budget first

/-- **Sums split the sign off.** At the signed number the one side takes the sign off the number and
puts the number back; at the sign the other side consumes an operator. Both go on with an operand
that starts with the number. -/
lemma follows_sumFrom (hoperand : S.Starts operand) (hresumes : S.Resumes operand) :
    ∀ budget left, S.Follows (sumFrom operand budget left)
  | 0, _ => follows_throw _
  | budget + 1, left => by
    have hrest : ∀ e, S.Follows (sumFrom operand budget e) :=
      fun e => follows_sumFrom hoperand hresumes budget e
    refine follows_peek_bind (starts_peek_bind (follows_pure _).starts ?_) ?_
    · intro t ts us _ hafter h
      cases hop : binaryOp? [.arith .add, .arith .sub] t with
      | some op =>
        simp only [hop]
        refine paired_next_bind ?_
        exact hoperand.bind (fun _ => hrest _) (hafter.inFront (endsOperand_eq_false_of_binaryOp? hop))
      | none =>
        cases hsign : signOp? t with
        | none => simpa [hop, hsign] using paired_pure left (.inFront h)
        | some op =>
          have hkind : t.kind = .number ∨ t.kind = .floatNumber := by
            by_contra hnot
            simp [signOp?, not_or.1 hnot] at hsign
          simp only [hop, hsign]
          refine paired_next_bind (paired_pushFront_bind _ _ ?_)
          refine hoperand.bind (fun _ => hrest _) (hafter.behind.cons ?_ ?_)
          · rcases hkind with hkind | hkind <;> simp [Token.endsOperand, hkind]
          · refine Token.noBracketWord_of_kind ?_
            rcases hkind with hkind | hkind <;> simp [Token.isWord, hkind]
    · obtain ⟨op, hsigned, hsign⟩ := S.exists_signOp
      simp only [S.binaryOp?_signed, hsigned, hsign, S.splits.sign_line]
      refine paired_next_bind (paired_pushFront_bind_left _ ?_)
      exact hresumes.bind fun _ => hrest _

end Layers

section Knot

variable {expr : Parser Expr} (hexpr : S.Starts expr)
include hexpr

lemma starts_disjunction (budget : Nat) : S.Starts (disjunction expr (budget + 1)) := by
  have hunary : S.Starts (unaryOf (operand expr (budget + 1)) (budget + 1)) :=
    starts_unaryOf (starts_operand hexpr _) _
  have hproduct : S.Starts (product expr (budget + 1)) :=
    starts_chain (by decide) (by decide) hunary _
  have hresumes : S.Resumes (product expr (budget + 1)) :=
    (resumes_unaryOf (resumes_operand hexpr _) budget).bind
      fun first => follows_chainFrom (by decide) (by decide) hunary _ first
  have hsum : S.Starts (sum expr (budget + 1)) :=
    hproduct.bind fun first => follows_sumFrom hproduct hresumes _ first
  have hrelation : S.Starts (relation expr (budget + 1)) :=
    starts_chain (by decide) (by decide) hsum _
  have hequality : S.Starts (equality expr (budget + 1)) :=
    starts_chain (by decide) (by decide) hrelation _
  exact starts_chain (by decide) (by decide) (starts_chain (by decide) (by decide) hequality _) _

lemma starts_assignment (budget : Nat) : S.Starts (assignment expr (budget + 1)) := by
  refine (starts_disjunction hexpr budget).bind fun left => ?_
  refine follows_peek_bind (starts_peek_bind (follows_pure _).starts ?_) ?_
  · intro t ts us _ hafter h
    refine .ite (fun heq => ?_) fun _ => ?_
    · refine paired_next_bind ?_
      exact (starts_initializerOf hexpr _).bind (fun _ => follows_pure _)
        (hafter.inFront (endsOperand_eq_false heq (by decide)))
    · cases hop : binaryOp? compoundOps t with
      | none => simpa [hop] using paired_pure left (.inFront h)
      | some op =>
        refine paired_next_bind ?_
        exact hexpr.bind (fun _ => follows_pure _)
          (hafter.inFront (endsOperand_eq_false_of_binaryOp? hop))
  · have hsign : binaryOp? compoundOps S.sign = none := S.binaryOp?_sign (by decide) (by decide)
    simpa [signed_isOperator, sign_isOperator, signs, S.binaryOp?_signed, hsign] using
      paired_pure left Behind.here

end Knot

/-- **Parsers of expressions agree on both sides** where an operand may start. -/
lemma starts_exprWithin : ∀ budget, S.Starts (exprWithin budget)
  | 0 => (follows_throw _).starts
  | budget + 1 => starts_assignment (starts_exprWithin budget) budget

lemma InFront.eq_or_append (h : S.InFront ts us) : ts = us ∨
    ∃ front, ts = front ++ S.signed :: S.rest ∧ us = front ++ S.sign :: S.number :: S.rest := by
  induction h with
  | past => exact .inl rfl
  | @next t => exact .inr ⟨[t], rfl, rfl⟩
  | @later t ts us _ _ ih =>
    rcases ih with rfl | ⟨front, rfl, rfl⟩
    · exact .inl rfl
    · exact .inr ⟨t :: front, rfl, rfl⟩

/-- The two sides are the same, or the same up to the signed number. -/
lemma Behind.eq_or_append (h : S.Behind ts us) : ts = us ∨
    ∃ front, ts = front ++ S.signed :: S.rest ∧ us = front ++ S.sign :: S.number :: S.rest := by
  cases h with
  | inFront h => exact h.eq_or_append
  | here => exact .inr ⟨[], rfl, rfl⟩

/-- The lists as wholes are in front of the signed number. -/
lemma inFront_append {front : List Token} {last : Token} (hends : last.endsOperand = true)
    (hlast : last.NoBracketWord) (hfront : ∀ t ∈ front, t.NoBracketWord) :
    S.InFront (front ++ last :: S.signed :: S.rest)
      (front ++ last :: S.sign :: S.number :: S.rest) := by
  induction front with
  | nil => exact .next hends hlast
  | cons t front ih =>
    exact .later (hfront t List.mem_cons_self)
      (ih fun u hu => hfront u (List.mem_cons_of_mem t hu))

end SignSite

namespace Grammar

open ClassLang.Parser

/-- An expression is read alike with every budget above the weight of the tokens. -/
lemma agree_expr_exprWithin {ts : List Token} {budget : Nat} (h : totalWeight ts < budget) :
    Agree Eq (expr.runFrom (.ofTokens ts)) ((exprWithin budget).runFrom (.ofTokens ts)) := by
  rw [expr, runFrom_withBudget]
  exact agree_of_inStep (consumes_exprWithin (n := totalWeight ts + 1) (Nat.le_refl _) h ts
    (Nat.lt_succ_self _))

/-- **A signed number behind an operand is read like an operator and a number.** No word of the
tokens has a bracket in it, and the token `last` ends an operand. Then parsing an expression with
the signed number behind `last`, and with the sign and the number there, either fails on both sides,
or gives the same expression, lines included, and leaves the same tokens up to that difference. -/
theorem expr_agrees_on_split_sign {front rest : List Token} {last signed sign number : Token}
    (hwords : ∀ t ∈ front ++ last :: signed :: rest, t.isWord = true → '[' ∉ t.lexeme.toList)
    (hlast : last.endsOperand = true) (hsplits : signed.Splits sign number) :
    Agree (fun ts us => ts = us ∨ ∃ left, ts = left ++ signed :: rest ∧
        us = left ++ sign :: number :: rest)
      (expr.runFrom (.ofTokens (front ++ last :: signed :: rest)))
      (expr.runFrom (.ofTokens (front ++ last :: sign :: number :: rest))) := by
  have hmem : ∀ t ∈ front ++ last :: signed :: rest, t.NoBracketWord := hwords
  let S : SignSite :=
    { signed, sign, number, rest
      splits := hsplits
      noBracketWord_rest := fun t ht => hmem t (by simp [ht]) }
  have hsides : S.InFront (front ++ last :: signed :: rest)
      (front ++ last :: sign :: number :: rest) :=
    SignSite.inFront_append hlast (hmem last (by simp)) fun t ht => hmem t (by simp [ht])
  -- Both sides get the same budget, which is enough for either.
  obtain ⟨budget, hleft, hright⟩ :
      ∃ budget, totalWeight (front ++ last :: signed :: rest) < budget ∧
        totalWeight (front ++ last :: sign :: number :: rest) < budget :=
    ⟨_, Nat.lt_succ_of_le (Nat.le_add_right _ _), Nat.lt_succ_of_le (Nat.le_add_left _ _)⟩
  have hagree := SignSite.starts_exprWithin budget hsides (c := .ofTokens _) (d := .ofTokens _) rfl
    rfl
  exact (hagree.mono fun _ _ h => h.eq_or_append).congr (agree_expr_exprWithin hleft)
    (agree_expr_exprWithin hright)

/-- The tokens behind the signed number in the argument of a call. -/
def behindArgument : List Token :=
  [⟨.operator, "*", 1, 6⟩, ⟨.identifier, "y", 1, 7⟩, ⟨.operator, ")", 1, 8⟩]

/-- In the argument of a call and in front of a product, `x -2 * y` is read like `x - 2 * y`. -/
theorem expr_agrees_on_split_sign_inCall :
    (expr.onTokens (tokenize "f(x -2 * y)")).isOk = true ∧
      (⟨.identifier, "x", 1, 3⟩ : Token).endsOperand = true ∧
      Token.Splits ⟨.number, "-2", 1, 5⟩ ⟨.operator, "-", 1, 4⟩ ⟨.number, "2", 1, 5⟩ ∧
      Agree (fun ts us => ts = us ∨ ∃ left, ts = left ++ ⟨.number, "-2", 1, 5⟩ :: behindArgument ∧
          us = left ++ ⟨.operator, "-", 1, 4⟩ :: ⟨.number, "2", 1, 5⟩ :: behindArgument)
        (expr.runFrom (.ofTokens (tokenize "f(x -2 * y)")))
        (expr.runFrom (.ofTokens (tokenize "f(x - 2 * y)"))) := by
  have hsigned : tokenize "f(x -2 * y)" =
      [⟨.identifier, "f", 1, 1⟩, ⟨.operator, "(", 1, 2⟩] ++
        ⟨.identifier, "x", 1, 3⟩ :: ⟨.number, "-2", 1, 5⟩ :: behindArgument := by decide +kernel
  have hapart : tokenize "f(x - 2 * y)" =
      [⟨.identifier, "f", 1, 1⟩, ⟨.operator, "(", 1, 2⟩] ++
        ⟨.identifier, "x", 1, 3⟩ :: ⟨.operator, "-", 1, 4⟩ :: ⟨.number, "2", 1, 5⟩ ::
          behindArgument := by decide +kernel
  have hsplits : Token.Splits ⟨.number, "-2", 1, 5⟩ ⟨.operator, "-", 1, 4⟩ ⟨.number, "2", 1, 5⟩ :=
    ⟨.inl rfl, rfl, .inr rfl, rfl, rfl, rfl, rfl⟩
  refine ⟨by decide +kernel, rfl, hsplits, ?_⟩
  rw [hsigned, hapart]
  exact expr_agrees_on_split_sign (by decide +kernel) rfl hsplits

end Grammar

end ClassLang
