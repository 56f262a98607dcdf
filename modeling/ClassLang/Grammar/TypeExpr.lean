import ClassLang.Grammar.Basic
import ClassLang.Syntax.TypeExpr

/-!
# Grammar of types

A type is a word, then type arguments in angle brackets if the word has no array suffix, then
pairs of brackets. The operators `>>` and `>>>` close several lists of arguments at once, each
list taking one `>` off the token.

## Main definitions

* `ClassLang.Grammar.typeExprWithin`, `ClassLang.Grammar.typeExpr`: types.
* `ClassLang.Grammar.typeArgumentsWithin`, `ClassLang.Grammar.typeArguments`: lists of type
  arguments, and whether the list is the empty `<>`.
* `ClassLang.Grammar.splitDeclarator`: a declared name without its array suffixes.
-/

set_option autoImplicit false

namespace ClassLang.Grammar

open ClassLang.Parser

/-- A declared name without its suffixes `[]`, and their number. -/
def splitDeclarator (lexeme : String) : String × Nat :=
  Word.splitArray lexeme

/-- Whether a type can start with this token. -/
def startsType (t : Token) : Bool :=
  (t.kind = .keyword && Word.isTypeKeyword t.lexeme) || t.kind = .identifier

/-- Whether the token closes a list of type arguments. -/
def closesAngle (t : Token) : Bool :=
  t.isOperator ">" || t.isOperator ">>" || t.isOperator ">>>"

/-- Consumes one `>`. What a longer operator has behind it is put back. -/
def closeAngle : Parser Unit := do
  let t ← expectWhere closesAngle "'>'"
  if t.lexeme ≠ ">" then
    pushFront { t with lexeme := String.ofList t.lexeme.toList.tail }

/-- The types of a list of type arguments, up to the `>` that closes it. -/
def typeList (type : Parser TypeExpr) : Nat → Parser (List TypeExpr)
  | 0 => exhausted
  | budget + 1 => do
    let first ← type
    if ← acceptOperator "," then
      let others ← typeList type budget
      return first :: others
    else
      closeAngle
      return [first]

/-- A list of type arguments in angle brackets, and whether it is the empty list `<>`. -/
def typeArgumentsOf (type : Parser TypeExpr) (budget : Nat) : Parser (List TypeExpr × Bool) := do
  let _ ← expectOperator "<"
  if ← acceptOperator ">" then
    return ([], true)
  else
    let args ← typeList type budget
    return (args, false)

/-- Pairs of brackets `[` `]`; gives their number. -/
def bracketPairs : Nat → Parser Nat
  | 0 => exhausted
  | budget + 1 => do
    if ← hasOperator "[" then
      if ← hasOperatorAt 1 "]" then
        let _ ← next
        let _ ← next
        let count ← bracketPairs budget
        return count + 1
      else
        return 0
    else
      return 0

/-- A type, with type arguments read by `arguments`. -/
def typeExprOf (arguments : Parser (List TypeExpr × Bool)) (budget : Nat) : Parser TypeExpr := do
  let t ← expectWhere startsType "type name"
  let (name, suffixes) := Word.splitArray t.lexeme
  let opensList ← hasOperator "<"
  let args ← if suffixes = 0 && opensList then (·.1) <$> arguments else pure []
  let pairs ← bracketPairs budget
  return .mk name args (suffixes + pairs)

/-- A type, within a budget. -/
def typeExprWithin : Nat → Parser TypeExpr
  | 0 => exhausted
  | budget + 1 => typeExprOf (typeArgumentsOf (typeExprWithin budget) budget) (budget + 1)

/-- A list of type arguments, within a budget. -/
def typeArgumentsWithin (budget : Nat) : Parser (List TypeExpr × Bool) :=
  typeArgumentsOf (typeExprWithin budget) budget

/-- A type. -/
def typeExpr : Parser TypeExpr :=
  withBudget typeExprWithin

/-- A list of type arguments. -/
def typeArguments : Parser (List TypeExpr × Bool) :=
  withBudget typeArgumentsWithin

end ClassLang.Grammar
