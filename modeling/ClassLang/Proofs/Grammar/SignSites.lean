import ClassLang.Proofs.Grammar.PairedRuns

set_option autoImplicit false

/-!
# The place of a signed number

The scanner draws a sign into the number behind it if a blank stands in front of the sign, so that
`a -1` is a name and a signed number while `a - 1` is a name, an operator and a number. The tokens
of both are read side by side. As long as the place where they differ is ahead, the next token is
the same on both sides. The token in front of the place ends an operand, so that a parser comes to
the place behind an operand only, and never where an operand may start.

Types end at the signed number and at the sign alike.

## Main definitions

* `ClassLang.Token.endsOperand`, `ClassLang.Token.Splits` — the tokens in front of the place and at
  it.
* `ClassLang.SignSite` — a signed number, what it can be split into, and the tokens behind it.
* `ClassLang.SignSite.InFront`, `ClassLang.SignSite.Behind` — the tokens that are to come on the
  two sides, where an operand may start and behind an operand.
* `ClassLang.SignSite.Starts`, `ClassLang.SignSite.Follows` — parsers that agree on the two sides.

## Main results

* `ClassLang.SignSite.InFront.cases` — what stands next where an operand may start.
* `ClassLang.SignSite.follows_expectOperator_bind`,
  `ClassLang.SignSite.follows_expectOperator_bind_starts` — behind which operators an operand has
  ended, and behind which one may start.
* `ClassLang.SignSite.follows_typeArgumentsWithin` — type arguments.
-/

namespace ClassLang

/-! ## The place of a signed number -/

namespace Token

/-- Whether an operand can end with the token: a name, a literal or a closing bracket. -/
def endsOperand (t : Token) : Bool :=
  match t.kind with
  | .identifier | .number | .floatNumber | .stringLiteral | .charLiteral => true
  | .keyword => t.lexeme = "true" || t.lexeme = "false" || t.lexeme = "null"
  | .operator => t.lexeme = ")" || t.lexeme = "]"
  | .unknown | .error => false

/-- The token is no word with a bracket in it. -/
def NoBracketWord (t : Token) : Prop :=
  t.isWord = true → '[' ∉ t.lexeme.toList

/-- The signed number `t` can be split into the operator `sign` and the number `number`, both on its
line. -/
structure Splits (t sign number : Token) : Prop where
  kind : t.kind = .number ∨ t.kind = .floatNumber
  sign_kind : sign.kind = .operator
  sign_lexeme : sign.lexeme = "+" ∨ sign.lexeme = "-"
  number_kind : number.kind = t.kind
  lexeme : t.lexeme = sign.lexeme ++ number.lexeme
  sign_line : sign.line = t.line
  number_line : number.line = t.line

lemma noBracketWord_of_kind {t : Token} (h : t.isWord = false) : t.NoBracketWord := by
  intro hword
  rw [h] at hword
  cases hword

end Token

/-- A signed number, the operator and the number that it can be split into, and the tokens behind
it. -/
structure SignSite where
  signed : Token
  sign : Token
  number : Token
  rest : List Token
  splits : signed.Splits sign number
  noBracketWord_rest : ∀ t ∈ rest, t.NoBracketWord

namespace SignSite

open ClassLang.Parser ClassLang.Grammar

variable {S : SignSite} {ts us : List Token} {t : Token}

/-- The tokens that are to come on the two sides at a place where an operand may start. Either the
signed number has been passed, or it is still ahead with the token that ends an operand. -/
inductive InFront (S : SignSite) : List Token → List Token → Prop
  | past {ts : List Token} (h : ∀ t ∈ ts, t.NoBracketWord) : InFront S ts ts
  | next {t : Token} (hends : t.endsOperand = true) (ht : t.NoBracketWord) :
      InFront S (t :: S.signed :: S.rest) (t :: S.sign :: S.number :: S.rest)
  | later {t : Token} {ts us : List Token} (ht : t.NoBracketWord) (h : InFront S ts us) :
      InFront S (t :: ts) (t :: us)

/-- The tokens that are to come on the two sides behind an operand. -/
inductive Behind (S : SignSite) : List Token → List Token → Prop
  | inFront {ts us : List Token} (h : InFront S ts us) : Behind S ts us
  | here : Behind S (S.signed :: S.rest) (S.sign :: S.number :: S.rest)

/-- The tokens that are to come on the two sides behind the token `t`. The signed number is next only
if an operand can end with `t`. -/
structure After (S : SignSite) (t : Token) (ts us : List Token) : Prop where
  behind : S.Behind ts us
  inFront : t.endsOperand = false → S.InFront ts us

/-- Where an operand may start, the next token is the same on both sides. -/
lemma InFront.cases (h : S.InFront ts us) :
    (ts = [] ∧ us = []) ∨ ∃ t ts' us', ts = t :: ts' ∧ us = t :: us' ∧ t.NoBracketWord ∧
      S.After t ts' us' := by
  cases h with
  | @past ts h =>
    cases ts with
    | nil => exact .inl ⟨rfl, rfl⟩
    | cons t ts =>
      have hrest : S.InFront ts ts := .past fun u hu => h u (List.mem_cons_of_mem t hu)
      exact .inr ⟨t, ts, ts, rfl, rfl, h t List.mem_cons_self, ⟨.inFront hrest, fun _ => hrest⟩⟩
  | next hends ht =>
    refine .inr ⟨_, _, _, rfl, rfl, ht, ⟨.here, fun hnot => ?_⟩⟩
    rw [hends] at hnot
    cases hnot
  | later ht h => exact .inr ⟨_, _, _, rfl, rfl, ht, ⟨.inFront h, fun _ => h⟩⟩

lemma InFront.head?_eq (h : S.InFront ts us) : ts.head? = us.head? := by
  rcases h.cases with ⟨rfl, rfl⟩ | ⟨t, ts, us, rfl, rfl, -⟩ <;> rfl

/-- A token that ends an operand may be put in front of the signed number. -/
lemma Behind.cons (h : S.Behind ts us) (hends : t.endsOperand = true) (ht : t.NoBracketWord) :
    S.InFront (t :: ts) (t :: us) := by
  cases h with
  | inFront h => exact .later ht h
  | here => exact .next hends ht

/-- The operators that are drawn into numbers. -/
def signs : List String := ["+", "-"]

/-- The operators that end operands. -/
def closings : List String := [")", "]"]

lemma endsOperand_eq_false {op : String} (h : t.isOperator op = true)
    (hop : op ∉ closings) : t.endsOperand = false := by
  simp only [Token.isOperator, Bool.and_eq_true, decide_eq_true_eq] at h
  obtain ⟨hkind, rfl⟩ := h
  simpa [Token.endsOperand, hkind, closings] using hop

/-! ## The tokens at the place -/

lemma signed_isOperator (S : SignSite) (op : String) : S.signed.isOperator op = false := by
  rcases S.splits.kind with hkind | hkind <;> simp [Token.isOperator, hkind]

lemma sign_isOperator (S : SignSite) {op : String} (hop : op ∉ signs) :
    S.sign.isOperator op = false := by
  simp only [signs, List.mem_cons, List.not_mem_nil, or_false, not_or] at hop
  rcases S.splits.sign_lexeme with h | h <;>
    simp [Token.isOperator, h, Ne.symm hop.1, Ne.symm hop.2]

lemma binaryOp?_signed (S : SignSite) (ops : List BinaryOp) : binaryOp? ops S.signed = none := by
  rcases S.splits.kind with hkind | hkind <;> simp [binaryOp?, hkind]

/-- The sign is an operator of sums only. -/
lemma binaryOp?_sign (S : SignSite) {ops : List BinaryOp} (hadd : .arith .add ∉ ops)
    (hsub : .arith .sub ∉ ops) : binaryOp? ops S.sign = none := by
  have hplus : BinaryOp.ofText? "+" = some (.arith .add) := BinaryOp.ofText?_text (.arith .add)
  have hminus : BinaryOp.ofText? "-" = some (.arith .sub) := BinaryOp.ofText?_text (.arith .sub)
  rcases S.splits.sign_lexeme with h | h
  · simp [binaryOp?, S.splits.sign_kind, h, hplus, hadd]
  · simp [binaryOp?, S.splits.sign_kind, h, hminus, hsub]

/-- In a sum, the sign of the number and the sign on its own stand for the same operator. -/
lemma exists_signOp (S : SignSite) : ∃ op, signOp? S.signed = some op ∧
    binaryOp? [.arith .add, .arith .sub] S.sign = some (.arith op) := by
  have hplus : BinaryOp.ofText? "+" = some (.arith .add) := BinaryOp.ofText?_text (.arith .add)
  have hminus : BinaryOp.ofText? "-" = some (.arith .sub) := BinaryOp.ofText?_text (.arith .sub)
  have hnumber : (S.signed.kind = .number || S.signed.kind = .floatNumber) = true := by
    simpa using S.splits.kind
  rcases S.splits.sign_lexeme with h | h
  · exact ⟨.add, by simp [signOp?, hnumber, S.splits.lexeme, h],
      by simp [binaryOp?, S.splits.sign_kind, h, hplus]⟩
  · exact ⟨.sub, by simp [signOp?, hnumber, S.splits.lexeme, h],
      by simp [binaryOp?, S.splits.sign_kind, h, hminus]⟩

lemma behead_signed_lexeme (S : SignSite) : S.signed.behead.lexeme = S.number.lexeme := by
  rcases S.splits.sign_lexeme with h | h <;> simp [Token.behead, S.splits.lexeme, h]

/-! ## Parsers that agree on the two sides -/

section Rules

variable {α β : Type} {p q : Parser α} {f : α → Parser β}

/-- From where an operand may start the parser agrees on both sides. -/
def Starts (S : SignSite) (p : Parser α) : Prop :=
  ∀ ⦃ts us : List Token⦄, S.InFront ts us → Paired S.Behind p p ts us

/-- From behind an operand the parser agrees on both sides. -/
def Follows (S : SignSite) (p : Parser α) : Prop :=
  ∀ ⦃ts us : List Token⦄, S.Behind ts us → Paired S.Behind p p ts us

/-- From the number that has lost its sign the parser agrees on both sides. -/
def Resumes (S : SignSite) (p : Parser α) : Prop :=
  Paired S.Behind p p (S.signed.behead :: S.rest) (S.number :: S.rest)

lemma Follows.starts (h : S.Follows p) : S.Starts p :=
  fun _ _ hts => h (.inFront hts)

lemma Follows.bind (hp : S.Follows p) (hf : ∀ x, S.Follows (f x)) : S.Follows (p >>= f) :=
  fun _ _ hts => (hp hts).bind fun x _ _ h => hf x h

lemma Starts.bind (hp : S.Starts p) (hf : ∀ x, S.Follows (f x)) : S.Starts (p >>= f) :=
  fun _ _ hts => (hp hts).bind fun x _ _ h => hf x h

lemma Resumes.bind (hp : S.Resumes p) (hf : ∀ x, S.Follows (f x)) : S.Resumes (p >>= f) :=
  Paired.bind hp fun x _ _ h => hf x h

lemma Follows.ite {P : Prop} [Decidable P] (hp : S.Follows p) (hq : S.Follows q) :
    S.Follows (if P then p else q) :=
  fun _ _ hts => .ite (fun _ => hp hts) fun _ => hq hts

lemma Starts.ite {P : Prop} [Decidable P] (hp : S.Starts p) (hq : S.Starts q) :
    S.Starts (if P then p else q) :=
  fun _ _ hts => .ite (fun _ => hp hts) fun _ => hq hts

lemma follows_pure (x : α) : S.Follows (pure x) :=
  fun _ _ hts => paired_pure x hts

lemma follows_throw (e : SyntaxError) : S.Follows (throw e : Parser α) :=
  fun _ _ _ => paired_throw e e

lemma Follows.map {g : α → β} (hp : S.Follows p) : S.Follows (g <$> p) := by
  rw [← bind_pure_comp]
  exact hp.bind fun _ => follows_pure _

/-! ## Looking ahead -/

lemma starts_peek_bind {f : Option Token → Parser β} (hnone : S.Starts (f none))
    (hsome : ∀ t ts us, t.NoBracketWord → S.After t ts us → S.InFront (t :: ts) (t :: us) →
      Paired S.Behind (f (some t)) (f (some t)) (t :: ts) (t :: us)) :
    S.Starts (peek >>= f) := by
  intro ts us hts
  refine paired_peekAt_bind 0 ?_
  rcases hts.cases with ⟨rfl, rfl⟩ | ⟨t, ts, us, rfl, rfl, ht, hafter⟩
  · exact hnone hts
  · exact hsome t ts us ht hafter hts

lemma follows_peek_bind {f : Option Token → Parser β} (hfront : S.Starts (peek >>= f))
    (hhere : Paired S.Behind (f (some S.signed)) (f (some S.sign)) (S.signed :: S.rest)
      (S.sign :: S.number :: S.rest)) : S.Follows (peek >>= f) := by
  rintro ts us (hts | -)
  · exact hfront hts
  · exact paired_peekAt_bind 0 hhere

lemma starts_hasOperator_bind {op : String} {f : Bool → Parser β} (h : ∀ b, S.Starts (f b)) :
    S.Starts (hasOperator op >>= f) := by
  intro ts us hts
  refine paired_hasOperatorAt_bind 0 op ?_
  rw [← List.head?_eq_getElem?, ← List.head?_eq_getElem?, hts.head?_eq]
  exact h _ hts

/-- An operator other than a sign is next on both sides or on neither. -/
lemma follows_hasOperator_bind {op : String} {f : Bool → Parser β} (hop : op ∉ signs)
    (h : ∀ b, S.Follows (f b)) : S.Follows (hasOperator op >>= f) := by
  rintro ts us (hts | -)
  · exact starts_hasOperator_bind (fun b => (h b).starts) hts
  · refine paired_hasOperatorAt_bind 0 op ?_
    simp only [List.getElem?_cons_zero, Option.any_some, signed_isOperator, S.sign_isOperator hop]
    exact h false .here

lemma InFront.any_isOperator_one (h : S.InFront ts us) (op : String) (hop : op ∉ signs) :
    (ts[1]?.any fun t => t.isOperator op) = us[1]?.any fun t => t.isOperator op := by
  rcases h.cases with ⟨rfl, rfl⟩ | ⟨t, ts, us, rfl, rfl, -, hafter⟩
  · rfl
  · simp only [List.getElem?_cons_succ]
    cases hafter.behind with
    | inFront h => rw [← List.head?_eq_getElem?, ← List.head?_eq_getElem?, h.head?_eq]
    | here => simp [signed_isOperator, S.sign_isOperator hop]

/-! ## Consuming tokens -/

/-- A token that passes a test which fails at the place of the signed number. -/
lemma follows_expectWhere_bind {good : Token → Bool} {expected : String} {f : Token → Parser β}
    (hsigned : good S.signed = false) (hsign : good S.sign = false)
    (hf : ∀ t, good t = true → t.NoBracketWord → ∀ ts us, S.After t ts us →
      Paired S.Behind (f t) (f t) ts us) :
    S.Follows (expectWhere good expected >>= f) := by
  rintro ts us (hts | -)
  · rcases hts.cases with ⟨rfl, rfl⟩ | ⟨t, ts, us, rfl, rfl, ht, hafter⟩
    · exact paired_expectWhere_of_bad rfl rfl expected
    · cases hgood : good t with
      | true =>
        exact paired_expectWhere_of_good hgood hgood expected (hf t hgood ht ts us hafter)
      | false =>
        exact paired_expectWhere_of_bad (by simpa using hgood) (by simpa using hgood) expected
  · exact paired_expectWhere_of_bad (by simpa using hsigned) (by simpa using hsign) expected

/-- Behind a closing bracket an operand has ended. -/
lemma follows_expectOperator_bind {op : String} {f : Token → Parser β} (hop : op ∉ signs)
    (hf : ∀ t, S.Follows (f t)) : S.Follows (expectOperator op >>= f) :=
  follows_expectWhere_bind (S.signed_isOperator op) (S.sign_isOperator hop)
    fun t _ _ _ _ hafter => hf t hafter.behind

/-- Behind an operator that is no closing bracket an operand may start. -/
lemma follows_expectOperator_bind_starts {op : String} {f : Token → Parser β}
    (hop : op ∉ signs ++ closings) (hf : ∀ t, S.Starts (f t)) :
    S.Follows (expectOperator op >>= f) := by
  rw [List.mem_append, not_or] at hop
  exact follows_expectWhere_bind (S.signed_isOperator op) (S.sign_isOperator hop.1)
    fun t ht _ _ _ hafter => hf t (hafter.inFront (endsOperand_eq_false ht hop.2))

/-- An operator that is consumed if it is next. -/
lemma starts_accept_bind {op : String} {f : Bool → Parser β}
    (htrue : ∀ t : Token, t.isOperator op = true → ∀ ts us, S.After t ts us →
      Paired S.Behind (f true) (f true) ts us)
    (hfalse : S.Starts (f false)) : S.Starts (acceptOperator op >>= f) := by
  intro ts us hts
  rw [acceptOperator, bind_assoc]
  refine paired_hasOperatorAt_bind 0 op ?_
  rcases hts.cases with ⟨rfl, rfl⟩ | ⟨t, ts, us, rfl, rfl, -, hafter⟩
  · exact hfalse hts
  · cases hop : t.isOperator op with
    | true => simpa [hop] using paired_next_bind (htrue t hop ts us hafter)
    | false => simpa [hop] using hfalse hts

lemma starts_acceptOperator_bind {op : String} {f : Bool → Parser β} (htrue : S.Follows (f true))
    (hfalse : S.Starts (f false)) : S.Starts (acceptOperator op >>= f) :=
  starts_accept_bind (fun _ _ _ _ hafter => htrue hafter.behind) hfalse

/-- An operator other than a sign is not accepted at the place of the signed number. -/
lemma follows_accept_bind {op : String} {f : Bool → Parser β} (hop : op ∉ signs)
    (htrue : ∀ t : Token, t.isOperator op = true → ∀ ts us, S.After t ts us →
      Paired S.Behind (f true) (f true) ts us)
    (hfalse : S.Follows (f false)) : S.Follows (acceptOperator op >>= f) := by
  rintro ts us (hts | -)
  · exact starts_accept_bind htrue hfalse.starts hts
  · rw [acceptOperator, bind_assoc]
    refine paired_hasOperatorAt_bind 0 op ?_
    simpa [signed_isOperator, S.sign_isOperator hop] using hfalse .here

lemma follows_acceptOperator_bind {op : String} {f : Bool → Parser β} (hop : op ∉ signs)
    (htrue : S.Follows (f true)) (hfalse : S.Follows (f false)) :
    S.Follows (acceptOperator op >>= f) :=
  follows_accept_bind hop (fun _ _ _ _ hafter => htrue hafter.behind) hfalse

/-- Any token where an operand may start. -/
lemma starts_anyToken_bind {f : Token → Parser β}
    (hf : ∀ t, t.NoBracketWord → S.Follows (f t)) : S.Starts (anyToken >>= f) := by
  intro ts us hts
  rcases hts.cases with ⟨rfl, rfl⟩ | ⟨t, ts, us, rfl, rfl, ht, hafter⟩
  · exact paired_anyToken_bind (by simp) nofun
  · refine paired_anyToken_bind (by simp) ?_
    rintro _ _ _ _ ⟨⟩ ⟨⟩
    exact hf t ht hafter.behind

end Rules

/-! ## Types -/

lemma follows_closeAngle : S.Follows closeAngle := by
  have hsign : closesAngle S.sign = false := by
    simp [closesAngle, sign_isOperator, signs]
  refine follows_expectWhere_bind (by simp [closesAngle, signed_isOperator]) hsign ?_
  intro t ht _ ts us hafter
  refine .ite (fun _ => ?_) fun _ => paired_pure _ hafter.behind
  simp only [closesAngle, Bool.or_eq_true] at ht
  have hends : t.endsOperand = false := by
    rcases ht with (ht | ht) | ht <;> exact endsOperand_eq_false ht (by decide)
  have hkind : t.kind = .operator := by
    rcases ht with (ht | ht) | ht <;>
      simp only [Token.isOperator, Bool.and_eq_true, decide_eq_true_eq] at ht <;> exact ht.1
  -- What is put back is an operator again, so no operand ends with it.
  rw [← bind_pure (pushFront _)]
  refine paired_pushFront_bind _ _ (paired_pure _ (.inFront (.later ?_ (hafter.inFront hends))))
  exact Token.noBracketWord_of_kind (by simp [Token.isWord, hkind])

section Types

variable {type : Parser TypeExpr}

lemma follows_typeList (htype : S.Follows type) : ∀ budget, S.Follows (typeList type budget)
  | 0 => follows_throw _
  | budget + 1 => htype.bind fun _ => follows_acceptOperator_bind (by decide)
      ((follows_typeList htype budget).bind fun _ => follows_pure _)
      (follows_closeAngle.bind fun _ => follows_pure _)

lemma follows_typeArgumentsOf (htype : S.Follows type) (budget : Nat) :
    S.Follows (typeArgumentsOf type budget) :=
  follows_expectOperator_bind (by decide) fun _ =>
    follows_acceptOperator_bind (by decide) (follows_pure _)
      ((follows_typeList htype budget).bind fun _ => follows_pure _)

end Types

lemma follows_bracketPairs : ∀ budget, S.Follows (bracketPairs budget)
  | 0 => follows_throw _
  | budget + 1 => by
    rintro ts us (hts | -)
    · refine paired_hasOperatorAt_bind 0 _ ?_
      rw [← List.head?_eq_getElem?, ← List.head?_eq_getElem?, hts.head?_eq]
      refine .ite (fun hopen => ?_) fun _ => paired_pure _ (.inFront hts)
      refine paired_hasOperatorAt_bind 1 _ ?_
      rw [hts.any_isOperator_one _ (by decide)]
      refine .ite (fun hclose => ?_) fun _ => paired_pure _ (.inFront hts)
      rcases hts.cases with ⟨rfl, rfl⟩ | ⟨t, ts, us, rfl, rfl, -, hafter⟩
      · cases hopen
      have hends : t.endsOperand = false :=
        endsOperand_eq_false (by simpa using hopen) (by decide)
      rcases (hafter.inFront hends).cases with ⟨rfl, rfl⟩ | ⟨u, ts, us, rfl, rfl, -, hafter'⟩
      · cases hclose
      refine paired_next_bind (paired_next_bind ?_)
      exact ((follows_bracketPairs budget).bind fun _ => follows_pure _) hafter'.behind
    · refine paired_hasOperatorAt_bind 0 _ ?_
      simpa [signed_isOperator, sign_isOperator, signs] using paired_pure 0 Behind.here

lemma follows_typeExprOf {arguments : Parser (List TypeExpr × Bool)}
    (harguments : S.Follows arguments) (budget : Nat) :
    S.Follows (typeExprOf arguments budget) := by
  have hsigned : startsType S.signed = false := by
    rcases S.splits.kind with hkind | hkind <;> simp [startsType, hkind]
  have hsign : startsType S.sign = false := by simp [startsType, S.splits.sign_kind]
  have hpairs : ∀ name args suffixes, S.Follows
      (do let pairs ← bracketPairs budget; return TypeExpr.mk name args (suffixes + pairs)) :=
    fun _ _ _ => (follows_bracketPairs budget).bind fun _ => follows_pure _
  refine follows_expectWhere_bind hsigned hsign fun t _ _ ts us hafter => ?_
  refine (follows_hasOperator_bind (by decide) fun opens => ?_) hafter.behind
  exact .ite (harguments.map.bind fun _ => hpairs _ _ _)
    ((follows_pure _).bind fun _ => hpairs _ _ _)

lemma follows_typeExprWithin : ∀ budget, S.Follows (typeExprWithin budget)
  | 0 => follows_throw _
  | budget + 1 =>
    follows_typeExprOf (follows_typeArgumentsOf (follows_typeExprWithin budget) budget) _

lemma follows_typeArgumentsWithin (budget : Nat) : S.Follows (typeArgumentsWithin budget) :=
  follows_typeArgumentsOf (follows_typeExprWithin budget) budget

end SignSite

end ClassLang
