import ClassLang.Grammar.Expr
import ClassLang.Proofs.Grammar.Reads

set_option autoImplicit false

/-!
# Rendering expressions

An expression is written down as a list of spellings, with parentheses around an operand exactly
where its own layer is looser than the layer its place asks for. From loose to tight the layers
are

* `0` — assignments, plain and compound, grouped to the right;
* `1`, `2`, `3`, `4` — `||`; `&&`; `==` and `!=`; comparisons of size;
* `5`, `6` — sums; products;
* `7` — operators in front of their operand;
* `8` — a step `++` or `--` behind its operand, which nothing may follow;
* `9` — access to fields, elements and methods, one behind the other;
* `10` — primary expressions.

Steps and access are the two parts of what stands behind a primary expression.

## Main definitions

* `ClassLang.Expr.layer` — the layer of an expression.
* `ClassLang.Expr.spellings`, `ClassLang.Expr.rendering` — the spellings of an expression, and those
  in a place of a given layer.
* `ClassLang.Expr.Plain` — the expressions made of consistent literals, names without brackets,
  operators, access and calls.
* `ClassLang.Expr.unlined` — an expression without its lines.

## Main results

* `ClassLang.Expr.rendering_eq` — the two forms of a rendering, with and without parentheses.
-/

namespace ClassLang

open ClassLang.Grammar

/-! ## Layers -/

/-- The layer of an operator with two operands. -/
def BinaryOp.layer : BinaryOp → Nat
  | assign _ => 0
  | or => 1
  | and => 2
  | equal | notEqual => 3
  | order _ => 4
  | arith .add | arith .sub => 5
  | arith _ => 6

/-- The layer that the left operand of an operator has to reach. -/
def BinaryOp.leftLayer : BinaryOp → Nat
  | assign _ => 1
  | op => op.layer

/-- The layer that the right operand of an operator has to reach. -/
def BinaryOp.rightLayer : BinaryOp → Nat
  | assign _ => 0
  | op => op.layer + 1

/-- The layer of an expression. -/
def Expr.layer : Expr → Nat
  | binary _ op _ _ => op.layer
  | assign _ _ _ => 0
  | unary _ op _ => if op.standsBehind then 8 else 7
  | field _ _ _ | index _ _ _ | methodCall _ _ _ _ => 9
  | _ => 10

lemma BinaryOp.mem_all (op : BinaryOp) : op ∈ all := by
  rcases op with op | _ | _ | op | _ | _ | op <;> first | decide | (cases op <;> decide)

lemma BinaryOp.layer_le_six (op : BinaryOp) : op.layer ≤ 6 := by
  have h : ∀ op ∈ all, op.layer ≤ 6 := by decide
  exact h op op.mem_all

lemma Expr.layer_le_ten (e : Expr) : e.layer ≤ 10 := by
  cases e with
  | binary _ op _ _ => exact Nat.le_trans op.layer_le_six (by omega)
  | unary _ op _ =>
    simp only [Expr.layer]
    split <;> omega
  | _ => simp [Expr.layer]

/-! ## Spellings -/

/-- The spelling of an operator, a separator or a bracket. -/
abbrev Spelling.sign (text : String) : Spelling := (.operator, text)

/-- Parentheses around spellings of a given layer, if their place asks for a tighter one. -/
def Spelling.wrap (place layer : Nat) (inner : List Spelling) : List Spelling :=
  if layer < place then sign "(" :: inner ++ [sign ")"] else inner

open Spelling (sign wrap)

/-- The kind of token that a literal is. -/
def Literal.Value.kind : Literal.Value → Kind
  | int _ => .number
  | float _ | double _ => .floatNumber
  | boolean _ | null => .keyword
  | char _ => .charLiteral
  | string _ => .stringLiteral

/-- The spelling of an operator with one operand: in front of the operand or behind it. -/
def UnaryOp.place (op : UnaryOp) (operand : List Spelling) : List Spelling :=
  if op.standsBehind then operand ++ [sign op.text] else sign op.text :: operand

/-- The layer that the operand of an operator has to reach. -/
def UnaryOp.operandLayer (op : UnaryOp) : Nat :=
  if op.standsBehind then 9 else 7

mutual

/-- The spellings of an expression, with parentheses inside it where they are needed. New objects,
new arrays and arrays in braces are left out. -/
def Expr.spellings : Expr → List Spelling
  | .literal _ l => [(l.value.kind, l.text)]
  | .var _ name => [(.identifier, name)]
  | .binary _ op left right =>
    wrap op.leftLayer left.layer left.spellings ++
      sign op.text :: wrap op.rightLayer right.layer right.spellings
  | .unary _ op operand => op.place (wrap op.operandLayer operand.layer operand.spellings)
  | .call _ name args => (.identifier, name) :: sign "(" :: Expr.spellingsOfArgs args
  | .methodCall _ receiver name args =>
    wrap 9 receiver.layer receiver.spellings ++
      sign "." :: (.identifier, name) :: sign "(" :: Expr.spellingsOfArgs args
  | .index _ array place =>
    wrap 9 array.layer array.spellings ++ sign "[" :: place.spellings ++ [sign "]"]
  | .field _ object name =>
    wrap 9 object.layer object.spellings ++ [sign ".", (.identifier, name)]
  | .assign _ target value =>
    wrap 1 target.layer target.spellings ++ sign "=" :: value.spellings
  | .newObject _ _ _ | .newArray _ _ _ _ | .arrayInit _ _ => []

/-- The spellings of arguments with commas between them, up to the closing parenthesis. -/
def Expr.spellingsOfArgs : List Expr → List Spelling
  | [] => [sign ")"]
  | [e] => e.spellings ++ [sign ")"]
  | e :: es => e.spellings ++ sign "," :: Expr.spellingsOfArgs es

end

/-- The spellings of an expression in a place that asks for a given layer. -/
def Expr.rendering (place : Nat) (e : Expr) : List Spelling :=
  wrap place e.layer e.spellings

/-- A rendering is the expression in parentheses, or the expression itself. -/
lemma Expr.rendering_eq (place : Nat) (e : Expr) :
    (e.layer < place ∧ e.rendering place = sign "(" :: e.spellings ++ [sign ")"]) ∨
      (place ≤ e.layer ∧ e.rendering place = e.spellings) := by
  unfold rendering wrap
  split
  · exact .inl ⟨by assumption, rfl⟩
  · exact .inr ⟨by omega, rfl⟩

/-- A whole expression needs no parentheses. -/
@[simp]
lemma Expr.rendering_zero (e : Expr) : e.rendering 0 = e.spellings := by
  simp [rendering, wrap]

/-! ## The expressions that are rendered -/

/-- The text of a literal is one of its value. -/
def Literal.Consistent (l : Literal) : Prop :=
  match l.value with
  | .int i => Number.readInt64? l.text.toList = some i
  | .float _ | .double _ => floatValue? l.text.toList = some l.value
  | .boolean b => l.text = if b then "true" else "false"
  | .char text | .string text => unquote l.text = text
  | .null => l.text = "null"

/-- A name without brackets in it. -/
def BracketFree (name : String) : Prop :=
  '[' ∉ name.toList ∧ ']' ∉ name.toList

mutual

/-- The expressions made of consistent literals, names without brackets, operators, access to
fields and elements, and calls. -/
def Expr.Plain : Expr → Prop
  | .literal _ l => l.Consistent
  | .var _ name => BracketFree name
  | .binary _ _ left right => left.Plain ∧ right.Plain
  | .unary _ _ operand => operand.Plain
  | .call _ name args => BracketFree name ∧ Expr.AllPlain args
  | .methodCall _ receiver name args => receiver.Plain ∧ BracketFree name ∧ Expr.AllPlain args
  | .index _ array place => array.Plain ∧ place.Plain
  | .field _ object name => object.Plain ∧ BracketFree name
  | .assign _ target value => target.Plain ∧ value.Plain
  | .newObject _ _ _ | .newArray _ _ _ _ | .arrayInit _ _ => False

/-- Every expression of a list is plain. -/
def Expr.AllPlain : List Expr → Prop
  | [] => True
  | e :: es => e.Plain ∧ Expr.AllPlain es

end

/-! ## Equality up to lines -/

mutual

/-- The expression with line `0` in all places. -/
def Expr.unlined : Expr → Expr
  | .literal _ l => .literal 0 l
  | .var _ name => .var 0 name
  | .binary _ op left right => .binary 0 op left.unlined right.unlined
  | .unary _ op operand => .unary 0 op operand.unlined
  | .call _ name args => .call 0 name (Expr.unlinedAll args)
  | .methodCall _ receiver name args => .methodCall 0 receiver.unlined name (Expr.unlinedAll args)
  | .index _ array place => .index 0 array.unlined place.unlined
  | .field _ object name => .field 0 object.unlined name
  | .newObject _ type diamond => .newObject 0 type diamond
  | .newArray _ type size diamond => .newArray 0 type size.unlined diamond
  | .assign _ target value => .assign 0 target.unlined value.unlined
  | .arrayInit _ elements => .arrayInit 0 (Expr.unlinedAll elements)

/-- Several expressions with line `0` in all places. -/
def Expr.unlinedAll : List Expr → List Expr
  | [] => []
  | e :: es => e.unlined :: Expr.unlinedAll es

end

end ClassLang
