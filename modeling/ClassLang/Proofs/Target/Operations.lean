import ClassLang.Proofs.Grammar.Chains
import ClassLang.Target.ExprText

set_option autoImplicit false

/-!
# The text of operations on scalars

Expressions over integers, truth values and variables of these two types need no conversions in
generated code, so their text can be told from their form alone.

## Main definitions

* `ClassLang.Expr.IsScalar` — the expressions made of unsigned integers, truth values, variables,
  operators and assignments to variables.
* `ClassLang.Expr.code` — the text of such an expression.

## Main results

* `ClassLang.Target.exprText_eq`, `ClassLang.Target.bareText_eq` — the generated text is this text.
-/

namespace ClassLang

/-! ## Expressions on scalars -/

/-- A name that is scanned as an identifier and has no brackets. -/
structure IsName (name : String) : Prop where
  starts : name.toList.head?.any Scan.startsWord = true
  continues : name.toList.all Scan.continuesWord = true
  noKeyword : Word.isKeyword name = false
  noBrackets : BracketFree name

/-- An integer without a sign, or a truth value. -/
def Literal.IsUnsigned (l : Literal) : Prop :=
  match l.value with
  | .int _ => l.text.toList.head?.any Char.isDigit = true
  | .boolean _ => True
  | _ => False

namespace Expr

/-- Whether an expression is a variable. -/
def isVariable : Expr → Bool
  | .var _ _ => true
  | _ => false

/-- The expressions made of unsigned integers, truth values, variables and operators, with steps
behind variables and assignments to variables. -/
def IsScalar : Expr → Prop
  | .literal _ l => l.Consistent ∧ l.IsUnsigned
  | .var _ name => IsName name
  | .binary _ op left right =>
    (op.isAssignment = true → left.isVariable = true) ∧ left.IsScalar ∧ right.IsScalar
  | .unary _ op operand => (op.standsBehind = true → operand.isVariable = true) ∧ operand.IsScalar
  | .assign _ target value => target.isVariable = true ∧ target.IsScalar ∧ value.IsScalar
  | _ => False

/-- Whether an expression is an integer. -/
def isNumeral : Expr → Bool
  | .literal _ ⟨.int _, _⟩ => true
  | _ => false

/-- Whether the text of an expression starts with a sign. -/
def startsWithSign : Expr → Bool
  | .unary _ op _ => !op.standsBehind && op ≠ .not
  | _ => false

/-- The text of an operator with one operand. -/
def unaryCode (op : UnaryOp) (guarded : Bool) (operand : List Char) : List Char :=
  if op.standsBehind then operand ++ op.text.toList
  else if guarded then op.text.toList ++ '(' :: operand ++ [')']
  else op.text.toList ++ operand

/-- The text of two operands with a joint between them. -/
def joinCode (j : Joint) (left right : List Char) : List Char :=
  left ++ ' ' :: j.text.toList ++ ' ' :: right

/-- The text of an expression on scalars. An operation with two operands is in parentheses where it
is `wrapped`, but an assignment never is. -/
def code (wrapped : Bool) : Expr → List Char
  | .literal _ l => l.text.toList
  | .var _ name => name.toList
  | .binary _ op left right =>
    let text := joinCode (.operator op) (left.code true) (right.code (!op.isAssignment))
    if wrapped && !op.isAssignment then '(' :: text ++ [')'] else text
  | .unary _ op operand => unaryCode op operand.startsWithSign (operand.code true)
  | .assign _ target value => joinCode .assignment (target.code true) (value.code false)
  | _ => []

/-- The text of an operation with two operands where it is in parentheses, and where it is not. -/
lemma code_wrapped {op : BinaryOp} (hop : op.isAssignment = false) (line : Nat)
    (left right : Expr) :
    (Expr.binary line op left right).code true =
      '(' :: joinCode (.operator op) (left.code true) (right.code true) ++ [')'] := by
  simp [code, hop]

/-! ## First characters -/

/-- What the first character of the text of an expression tells about it. -/
inductive Leads (e : Expr) (c : Char) : Prop
  | sign (he : e.startsWithSign = true) (hc : c = '-' ∨ c = '+')
  | digit (he : e.isNumeral = true) (hc : c.isDigit = true)
  | other (he : e.startsWithSign = false) (he' : e.isNumeral = false)
      (hc : c = '(' ∨ c = '!' ∨ Scan.startsWord c = true)

lemma startsWithSign_of_isNumeral {e : Expr} (h : e.isNumeral = true) :
    e.startsWithSign = false := by
  cases e with
  | unary _ _ _ => cases h
  | _ => rfl

lemma Leads.isSign {e : Expr} {c : Char} (h : e.Leads c) (he : e.startsWithSign = true) :
    c = '-' ∨ c = '+' := by
  cases h with
  | sign _ hc => exact hc
  | digit hn _ =>
    rw [startsWithSign_of_isNumeral hn] at he
    cases he
  | other hs _ _ =>
    rw [hs] at he
    cases he

lemma Leads.startsWithSign {e : Expr} {c : Char} (h : e.Leads c) (hc : c = '-' ∨ c = '+') :
    e.startsWithSign = true := by
  cases h with
  | sign he _ => exact he
  | digit _ hd => rcases hc with rfl | rfl <;> exact absurd hd (by decide)
  | other _ _ ho => rcases hc with rfl | rfl <;> exact absurd ho (by decide)

/-- The text of a variable starts like a word. -/
lemma exists_code_of_isVariable {e : Expr} (he : e.IsScalar) (hvar : e.isVariable = true) :
    ∃ c more, e.code true = c :: more ∧ Scan.startsWord c = true := by
  cases e with
  | var line name =>
    have hstarts := he.starts
    cases htext : name.toList with
    | nil => simp [htext] at hstarts
    | cons c more => exact ⟨c, more, htext, by simpa [htext] using hstarts⟩
  | _ => cases hvar

lemma exists_leads_literal {line : Nat} {l : Literal} (hl : (Expr.literal line l).IsScalar) :
    ∃ c more, (Expr.literal line l).code true = c :: more ∧ (Expr.literal line l).Leads c := by
  obtain ⟨value, text⟩ := l
  obtain ⟨hconsistent, hunsigned⟩ := hl
  cases value with
  | int i =>
    cases htext : text.toList with
    | nil => simp [Literal.IsUnsigned, htext] at hunsigned
    | cons c more =>
      have hc : c.isDigit = true := by simpa [Literal.IsUnsigned, htext] using hunsigned
      exact ⟨c, more, htext, .digit rfl hc⟩
  | boolean b =>
    obtain rfl : text = if b then "true" else "false" := hconsistent
    cases b with
    | true => exact ⟨'t', ['r', 'u', 'e'], rfl, .other rfl rfl (.inr (.inr (by decide)))⟩
    | false => exact ⟨'f', ['a', 'l', 's', 'e'], rfl, .other rfl rfl (.inr (.inr (by decide)))⟩
  | float _ | double _ | char _ | string _ | null => exact hunsigned.elim

/-- The sign of an operator in front of its operand leads the text. -/
lemma exists_leads_front (line : Nat) {op : UnaryOp} (hop : op.standsBehind = false)
    (operand : Expr) :
    ∃ c more, op.text.toList = c :: more ∧ (Expr.unary line op operand).Leads c := by
  cases op with
  | neg => exact ⟨'-', [], rfl, .sign rfl (.inl rfl)⟩
  | not => exact ⟨'!', [], rfl, .other rfl rfl (.inr (.inl rfl))⟩
  | preInc => exact ⟨'+', ['+'], rfl, .sign rfl (.inr rfl)⟩
  | preDec => exact ⟨'-', ['-'], rfl, .sign rfl (.inl rfl)⟩
  | postInc | postDec => cases hop

/-- No text of an expression on scalars is empty, and its first character tells its form. -/
lemma exists_leads {e : Expr} (he : e.IsScalar) :
    ∃ c more, e.code true = c :: more ∧ e.Leads c := by
  cases e with
  | literal line l => exact exists_leads_literal he
  | var line name =>
    obtain ⟨c, more, htext, hc⟩ := exists_code_of_isVariable he rfl
    exact ⟨c, more, htext, .other rfl rfl (.inr (.inr hc))⟩
  | binary line op left right =>
    obtain ⟨hvar, hleft, -⟩ := he
    cases hop : op.isAssignment with
    | true =>
      obtain ⟨c, more, htext, hc⟩ := exists_code_of_isVariable hleft (hvar hop)
      refine ⟨c, joinCode (.operator op) more (right.code false), ?_,
        .other rfl rfl (.inr (.inr hc))⟩
      simp [code, joinCode, hop, htext]
    | false => exact ⟨'(', _, code_wrapped hop line left right, .other rfl rfl (.inl rfl)⟩
  | unary line op operand =>
    obtain ⟨hvar, hoperand⟩ := he
    cases hop : op.standsBehind with
    | true =>
      obtain ⟨c, more, htext, hc⟩ := exists_code_of_isVariable hoperand (hvar hop)
      have hsign : (Expr.unary line op operand).startsWithSign = false := by
        simp [startsWithSign, hop]
      refine ⟨c, more ++ op.text.toList, ?_, .other hsign rfl (.inr (.inr hc))⟩
      simp [code, unaryCode, hop, htext]
    | false =>
      obtain ⟨c, more, htext, hc⟩ := exists_leads_front line hop operand
      simp only [code, unaryCode, hop, htext, Bool.false_eq_true, if_false]
      split
      · exact ⟨c, _, rfl, hc⟩
      · exact ⟨c, _, rfl, hc⟩
  | assign line target value =>
    obtain ⟨hvar, htarget, -⟩ := he
    obtain ⟨c, more, htext, hc⟩ := exists_code_of_isVariable htarget hvar
    refine ⟨c, joinCode .assignment more (value.code false), ?_, .other rfl rfl (.inr (.inr hc))⟩
    simp [code, joinCode, htext]
  | call _ _ _ | methodCall _ _ _ _ | index _ _ _ | field _ _ _ | newObject _ _ _
  | newArray _ _ _ _ | arrayInit _ _ => exact he.elim

end Expr

namespace Target

/-! ## Types -/

/-- All variables in scope are integers or truth values. -/
def Env.AllScalar (env : Env) : Prop :=
  ∀ name, ∀ type ∈ env.lookup name, type = .simple "int" ∨ type = .simple "boolean"

/-- The types of expressions on scalars, as far as they are told. -/
def IsScalarType (type : Option TypeExpr) : Prop :=
  type = none ∨ type = some (.simple "int") ∨ type = some (.simple "boolean")

lemma isScalarType_arithType {left right : Option TypeExpr} (hleft : IsScalarType left)
    (hright : IsScalarType right) : IsScalarType (Env.arithType left right) := by
  rcases hleft with rfl | rfl | rfl <;> rcases hright with rfl | rfl | rfl <;>
    first
      | exact .inl rfl
      | exact .inr (.inl rfl)

/-- The type of an expression on scalars is an integer or a truth value, if it is told. -/
lemma isScalarType_staticType {env : Env} (henv : env.AllScalar) :
    (e : Expr) → e.IsScalar → IsScalarType (env.staticType e)
  | .literal _ l, h => by
    obtain ⟨value, text⟩ := l
    cases value with
    | int i => exact .inr (.inl rfl)
    | boolean b => exact .inr (.inr rfl)
    | float _ | double _ | char _ | string _ | null => exact h.2.elim
  | .var _ name, _ => by
    simp only [Env.staticType]
    cases hlookup : env.lookup name with
    | none => exact .inl rfl
    | some type =>
      rcases henv name type hlookup with rfl | rfl
      · exact .inr (.inl rfl)
      · exact .inr (.inr rfl)
  | .binary _ op left right, ⟨_, hleft, hright⟩ => by
    have hl := isScalarType_staticType henv left hleft
    have hr := isScalarType_staticType henv right hright
    cases op with
    | arith op => exact isScalarType_arithType hl hr
    | assign op => exact hl
    | equal | notEqual | order _ | and | or => exact .inr (.inr rfl)
  | .unary _ op operand, ⟨_, h⟩ => by
    have ho := isScalarType_staticType henv operand h
    cases op with
    | not => exact .inr (.inr rfl)
    | neg | preInc | preDec | postInc | postDec => exact ho
  | .assign _ target value, ⟨_, htarget, _⟩ => isScalarType_staticType henv target htarget

variable {env : Env} {e : Expr}

lemma isString_eq_false (henv : env.AllScalar) (he : e.IsScalar) : env.isString e = false := by
  unfold Env.isString Env.scalarType
  rcases isScalarType_staticType henv e he with h | h | h <;> rw [h] <;> decide

lemma isFloating_eq_false (henv : env.AllScalar) (he : e.IsScalar) : env.isFloating e = false := by
  unfold Env.isFloating Env.scalarType
  rcases isScalarType_staticType henv e he with h | h | h <;> rw [h] <;> decide

/-! ## Texts -/

/-- The same in parentheses. -/
lemma ofList_wrapped (j : Joint) (left right : List Char) :
    String.ofList ('(' :: Expr.joinCode j left right ++ [')']) =
      "(" ++ String.ofList left ++ " " ++ j.text ++ " " ++ String.ofList right ++ ")" := by
  rw [← String.toList_inj]
  simp [Expr.joinCode]

lemma joined_singleton (text : String) : String.join [text] = text := by simp

/-- A text in parentheses without them. -/
lemma unwrap_parens (text : List Char) :
    unwrap (String.ofList ('(' :: text ++ [')'])) = String.ofList text := by
  simp [unwrap]

lemma bare_code (he : e.IsScalar) :
    bare e (String.ofList (e.code true)) = String.ofList (e.code false) := by
  cases e with
  | binary line op left right =>
    cases op with
    | assign op => rfl
    | arith _ | equal | notEqual | order _ | and | or => exact unwrap_parens _
  | literal _ _ | var _ _ | unary _ _ _ | assign _ _ _ => rfl
  | call _ _ _ | methodCall _ _ _ _ | index _ _ _ | field _ _ _ | newObject _ _ _
  | newArray _ _ _ _ | arrayInit _ _ => exact he.elim

/-- The text of an operator with one operand has a guard where the operand starts with a sign. -/
lemma unaryText_code (he : e.IsScalar) (op : UnaryOp) :
    unaryText op (String.ofList (e.code true)) =
      String.ofList (Expr.unaryCode op e.startsWithSign (e.code true)) := by
  obtain ⟨c, more, htext, hc⟩ := Expr.exists_leads he
  have hguard : prefixed op (String.ofList (c :: more)) =
      if e.startsWithSign then op.text ++ "(" ++ String.ofList (c :: more) ++ ")"
      else op.text ++ String.ofList (c :: more) := by
    unfold prefixed
    rw [String.toList_ofList]
    split
    next hsign =>
      obtain ⟨rfl, -⟩ := List.cons.inj hsign
      rw [if_pos (hc.startsWithSign (.inl rfl))]
    next hsign =>
      obtain ⟨rfl, -⟩ := List.cons.inj hsign
      rw [if_pos (hc.startsWithSign (.inr rfl))]
    next hminus hplus =>
      have hnot : e.startsWithSign ≠ true := by
        intro hsign
        rcases hc.isSign hsign with rfl | rfl
        · exact hminus more rfl
        · exact hplus more rfl
      rw [if_neg hnot]
  rw [htext, unaryText, hguard, Expr.unaryCode, ← String.toList_inj]
  split
  · simp
  · split <;> simp

lemma literalText_eq {l : Literal} (hl : l.Consistent) (hunsigned : l.IsUnsigned) :
    literalText l = pure l.text := by
  obtain ⟨value, text⟩ := l
  cases value with
  | int i => rfl
  | boolean b =>
    obtain rfl : text = if b then "true" else "false" := hl
    rfl
  | float _ | double _ | char _ | string _ | null => exact hunsigned.elim

lemma isNull_eq_false (he : e.IsScalar) : isNull e = false := by
  cases e with
  | literal line l =>
    obtain ⟨value, text⟩ := l
    cases value with
    | null => exact he.2.elim
    | int _ | boolean _ | float _ | double _ | char _ | string _ => rfl
  | _ => rfl

/-- The text of an operation with two operands from their texts. -/
lemma render_binary {left right : Expr} (henv : env.AllScalar) (hleft : left.IsScalar)
    (hright : right.IsScalar) {line : Nat} {op : BinaryOp}
    (hstring : env.isString (.binary line op left right) = false)
    (hl : render env .alone left = pure [String.ofList (left.code true)])
    (hr : render env .alone right = pure [String.ofList (right.code true)]) :
    render env .alone (.binary line op left right) =
      pure [String.ofList ((Expr.binary line op left right).code true)] := by
  have hfloat : (env.isFloating left || env.isFloating right) = false := by
    rw [isFloating_eq_false henv hleft, isFloating_eq_false henv hright, Bool.or_false]
  cases op with
  | arith op =>
    cases op with
    | mod =>
      simp only [render, hstring, hl, hr, hfloat, joined_singleton, Place.fit, Bool.and_false,
        Bool.false_eq_true, if_false, pure_bind]
      refine congrArg (fun text => pure [text]) (String.toList_inj.1 ?_)
      simp [Expr.code, Expr.joinCode, Joint.text, BinaryOp.text, Arith.text, BinaryOp.isAssignment]
    | add | sub | mul | div =>
      simp only [render, hstring, hl, hr, joined_singleton, Place.fit, Bool.and_false,
        Bool.false_eq_true, if_false, pure_bind]
      rw [Expr.code_wrapped rfl, ofList_wrapped, Joint.text]
  | equal | notEqual | order _ | and | or =>
    simp only [render, hstring, hl, hr, joined_singleton, Place.fit, Bool.and_false,
      Bool.false_eq_true, if_false, pure_bind]
    rw [Expr.code_wrapped rfl, ofList_wrapped, Joint.text]
  | assign op =>
    have hadd := isString_eq_false henv hleft
    cases op <;>
      simp only [render, hstring, hl, hr, hadd, joined_singleton, bare_code hright, Place.fit,
        Bool.and_false, Bool.false_eq_true, if_false, pure_bind] <;>
      refine congrArg (fun text => pure [text]) (String.toList_inj.1 ?_) <;>
      simp [Expr.code, Expr.joinCode, Joint.text, BinaryOp.text, Arith.text, BinaryOp.isAssignment]

/-- The generated text of an expression on scalars. -/
theorem render_eq {env : Env} (henv : env.AllScalar) :
    (e : Expr) → e.IsScalar → render env .alone e = pure [String.ofList (e.code true)]
  | .literal _ l, ⟨hl, hunsigned⟩ => by
    simp [render, literalText_eq hl hunsigned, Place.fit, Expr.code]
  | .var _ name, _ => by simp [render, Place.fit, Expr.code]
  | .binary line op left right, h =>
    render_binary henv h.2.1 h.2.2 (isString_eq_false henv h) (render_eq henv left h.2.1)
      (render_eq henv right h.2.2)
  | .unary _ op operand, ⟨_, h⟩ => by
    simp [render, render_eq henv operand h, Place.fit, unaryText_code h, Expr.code]
  | .assign _ target value, ⟨_, htarget, hvalue⟩ => by
    simp only [render, render_eq henv target htarget, render_eq henv value hvalue,
      isNull_eq_false hvalue, joined_singleton, bare_code hvalue, Place.fit, Bool.false_eq_true,
      if_false, map_pure, pure_bind]
    refine congrArg (fun text => pure [text]) (String.toList_inj.1 ?_)
    simp [Expr.code, Expr.joinCode, Joint.text]

/-- The text of an expression on scalars, whatever is needed so far. -/
theorem exprText_eq (henv : env.AllScalar) (he : e.IsScalar) :
    exprText env e = pure (String.ofList (e.code true)) := by
  rw [exprText, render_eq henv e he, pure_bind, joined_singleton]

/-- The text without parentheses around all of it. -/
theorem bareText_eq (henv : env.AllScalar) (he : e.IsScalar) :
    bareText env e = pure (String.ofList (e.code false)) := by
  rw [bareText, exprText_eq henv he, pure_bind, bare_code he]

end Target

end ClassLang
