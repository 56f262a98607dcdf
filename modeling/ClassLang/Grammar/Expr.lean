import ClassLang.Grammar.Brackets
import ClassLang.Grammar.TypeExpr
import ClassLang.Syntax.Expr
import ClassLang.Token.Scan

/-!
# Grammar of expressions

From loose to tight the layers are: assignment (to the right), `||`, `&&`, `==` and `!=`,
comparisons, sums, products, operators in front, and access, calls and steps behind a primary
expression. Each layer is a parser over the next one, and `expr` stands for a whole expression
inside brackets; `exprWithin` ties the knot.

A word with brackets in its lexeme is taken apart: following tokens are pulled in until the
brackets balance, each bracket group is scanned anew and read as an index, and what is left over
is put back.

## Main definitions

* `ClassLang.Grammar.glued`: a word taken apart into a name and indices.
* `ClassLang.Grammar.primary`, `ClassLang.Grammar.arrayInit`, `ClassLang.Grammar.initializer`,
  `ClassLang.Grammar.expr`: the entry points.
-/

set_option autoImplicit false

namespace ClassLang.Grammar

open ClassLang.Parser

/-- The opening brace. -/
def openBrace : String := "\x7b"

/-- The closing brace. -/
def closeBrace : String := "\x7d"

/-! ## Words with brackets in them -/

/-- Scans a text again; all its tokens get the line `line`. -/
def rescan (line : Nat) (cs : List Char) : List Token :=
  (tokenize (String.ofList cs)).map fun t => { t with line }

/-- Adds the lexemes of the following tokens to a text until its brackets balance. -/
def gather (text : List Char) : Nat → Parser (List Char)
  | 0 => exhausted
  | budget + 1 => do
    if 0 < Brackets.depth text then
      let t ← anyToken
      gather (text ++ ' ' :: t.lexeme.toList) budget
    else
      return text

/-- Reads indices in brackets up to the end of the tokens. -/
def indexGroups (expr : Parser Expr) (line : Nat) : Nat → Parser (List Expr)
  | 0 => exhausted
  | budget + 1 => do
    if ← atEnd then
      return []
    else
      let _ ← expectOperator "["
      if ← hasOperator "]" then
        throw ⟨.unexpectedToken "index expression" "]", line⟩
      else
        let first ← expr
        let _ ← expectOperator "]"
        let others ← indexGroups expr line budget
        return first :: others

/-- Runs a parser on tokens of their own. -/
def apart {α : Type} (tokens : List Token) (p : Parser α) : Parser α :=
  match p.onTokens tokens with
  | .ok value => return value
  | .error e => throw e

/-- Takes a word apart into a name and indices. A word without brackets, or with nothing but
pairs `[]` behind its name, stays whole. -/
def glued (expr : Parser Expr) (budget : Nat) (t : Token) : Parser (String × List Expr) := do
  let lexeme := t.lexeme.toList
  let suffix := lexeme.dropWhile (· ≠ '[')
  if Brackets.isPairs suffix then
    return (t.lexeme, [])
  else
    let text ← gather suffix budget
    let (groups, rest) := Brackets.split text
    pushAllFront (rescan t.line rest)
    let indices ←
      apart (rescan t.line (Brackets.spaceOut groups)) (indexGroups expr t.line budget)
    return (String.ofList (lexeme.takeWhile (· ≠ '[')), indices)

/-- An expression with indices behind it. -/
def indexed (e : Expr) (indices : List Expr) : Expr :=
  indices.foldl (fun array place => .index array.line array place) e

/-! ## Lists of expressions -/

/-- The rest of a list of arguments, from an argument to the closing parenthesis. -/
def argumentList (expr : Parser Expr) : Nat → Parser (List Expr)
  | 0 => exhausted
  | budget + 1 => do
    let first ← expr
    if ← acceptOperator ")" then
      return [first]
    else
      let _ ← expectOperator ","
      let others ← argumentList expr budget
      return first :: others

/-- The arguments of a call in parentheses. -/
def arguments (expr : Parser Expr) (budget : Nat) : Parser (List Expr) := do
  let _ ← expectOperator "("
  if ← acceptOperator ")" then
    return []
  else
    argumentList expr budget

/-- The rest of an array in braces, from an element to the closing brace. A comma may stand
behind the last element. -/
def elementList (element : Parser Expr) : Nat → Parser (List Expr)
  | 0 => exhausted
  | budget + 1 => do
    let first ← element
    if ← acceptOperator closeBrace then
      return [first]
    else
      let _ ← expectOperator ","
      if ← acceptOperator closeBrace then
        return [first]
      else
        let others ← elementList element budget
        return first :: others

/-- An array in braces, whose elements are expressions or arrays in braces. -/
def arrayInitOf (expr : Parser Expr) : Nat → Parser Expr
  | 0 => exhausted
  | budget + 1 => do
    let opening ← expectOperator openBrace
    if ← acceptOperator closeBrace then
      return .arrayInit opening.line []
    else
      let element : Parser Expr := do
        if ← hasOperator openBrace then arrayInitOf expr budget else expr
      let elements ← elementList element budget
      return .arrayInit opening.line elements

/-- An initial value: an array in braces or an expression. -/
def initializerOf (expr : Parser Expr) (budget : Nat) : Parser Expr := do
  if ← hasOperator openBrace then arrayInitOf expr budget else expr

/-! ## Primary expressions -/

/-- The value of a floating-point lexeme. The letter at its end decides the type, and all such
letters are left out of the number. -/
def floatValue? (lexeme : List Char) : Option Literal.Value :=
  (Number.Binary64.read? (Text.dropEndWhile Scan.isNumberSuffix lexeme)).map fun x =>
    if lexeme.getLast?.any fun c => c = 'f' || c = 'F' then .float x else .double x

/-- A lexeme without its first and its last character. -/
def unquote (lexeme : String) : String :=
  String.ofList lexeme.toList.tail.dropLast

/-- The literal of a token, as an expression. -/
def literalExpr (t : Token) (value : Literal.Value) : Expr :=
  .literal t.line { value, text := t.lexeme }

/-- Consumes the next token `t` as a literal, whose value can be missing. -/
def literal (t : Token) (value : Option Literal.Value) : Parser Expr := do
  let _ ← next
  match value with
  | some value => return literalExpr t value
  | none => throw ⟨.invalidLiteral t.lexeme, t.line⟩

/-- An array or an object after the keyword `new`. -/
def newExpr (expr : Parser Expr) (budget : Nat) : Parser Expr := do
  let keyword ← expectKeyword "new"
  let t ← expectWhere (fun t => t.kind = .identifier || t.kind = .keyword) "type after 'new'"
  let (word, sizes) ← glued expr budget t
  let named := TypeExpr.ofWord word
  match sizes with
  | [size] => return .newArray keyword.line (named.arrayOf 1) size false
  | _ :: _ :: _ => failUnsupported keyword.line .nestedAllocation
  | [] =>
    if 0 < named.dimensions then
      arrayInitOf expr budget
    else
      let (args, diamond) ←
        if ← hasOperator "<" then typeArgumentsWithin budget else pure ([], false)
      let type := TypeExpr.mk named.name args 0
      if ← hasOperator "[" then
        let _ ← expectOperator "["
        let size ← expr
        let _ ← expectOperator "]"
        return .newArray keyword.line (type.arrayOf 1) size diamond
      else
        let args ← arguments expr budget
        if args.isEmpty then return .newObject keyword.line type diamond
        else failUnsupported keyword.line .constructorArguments

/-- A keyword that starts an expression: a truth value, `null`, `new`, or the name of a type whose
member follows. -/
def keywordExpr (expr : Parser Expr) (budget : Nat) (t : Token) : Parser Expr := do
  if t.lexeme = "true" || t.lexeme = "false" then
    literal t (some (.boolean (t.lexeme = "true")))
  else if t.lexeme = "null" then
    literal t (some .null)
  else if t.lexeme = "new" then
    newExpr expr budget
  else if Word.isTypeKeyword t.lexeme then
    if ← hasOperatorAt 1 "." then
      let _ ← next
      return .var t.line t.lexeme
    else
      failUnexpected "expression" t
  else
    failUnexpected "expression" t

/-- A variable with its indices, or a call of a method of the class at hand. -/
def nameExpr (expr : Parser Expr) (budget : Nat) (t : Token) : Parser Expr := do
  let _ ← next
  let (name, indices) ← glued expr budget t
  if indices.isEmpty then
    if ← hasOperator "(" then
      let args ← arguments expr budget
      return .call t.line name args
    else
      return .var t.line name
  else
    return indexed (.var t.line name) indices

/-- An expression in parentheses. -/
def grouped (expr : Parser Expr) : Parser Expr := do
  let _ ← next
  let inner ← expr
  let _ ← expectOperator ")"
  return inner

/-- A primary expression. -/
def primaryOf (expr : Parser Expr) (budget : Nat) : Parser Expr := do
  match ← peek with
  | none => failExpected "expression"
  | some t =>
    match t.kind with
    | .number => literal t ((Number.readInt64? t.lexeme.toList).map .int)
    | .floatNumber => literal t (floatValue? t.lexeme.toList)
    | .stringLiteral => literal t (some (.string (unquote t.lexeme)))
    | .charLiteral => literal t (some (.char (unquote t.lexeme)))
    | .keyword => keywordExpr expr budget t
    | .identifier => nameExpr expr budget t
    | .operator => if t.lexeme = "(" then grouped expr else failUnexpected "expression" t
    | .error => throw ⟨.lexical t.lexeme, t.line⟩
    | .unknown => failUnexpected "expression" t

/-! ## Behind and in front of primary expressions -/

/-- The step that an operator behind an expression stands for. -/
def trailingStep? (t : Token) : Option UnaryOp :=
  if t.isOperator "++" then some .postInc
  else if t.isOperator "--" then some .postDec
  else none

/-- Access to members, calls, indices, and at last a step, behind the expression `e`. -/
def trailers (expr : Parser Expr) (budget : Nat) : Nat → Expr → Parser Expr
  | 0, _ => exhausted
  | steps + 1, e => do
    if ← acceptOperator "." then
      let t ← anyToken
      if t.kind = .identifier || t.kind = .keyword then
        let (member, indices) ← glued expr budget t
        let opensCall ← hasOperator "("
        if opensCall && indices.isEmpty then
          let args ← arguments expr budget
          trailers expr budget steps (.methodCall t.line e member args)
        else
          trailers expr budget steps (indexed (.field t.line e member) indices)
      else
        failUnexpected "member name" t
    else if ← hasOperator "[" then
      let opening ← expectOperator "["
      let place ← expr
      let _ ← expectOperator "]"
      trailers expr budget steps (.index opening.line e place)
    else
      match (← peek).bind trailingStep? with
      | some op =>
        let _ ← next
        return .unary e.line op e
      | none => return e

/-- A primary expression with all that stands behind it. -/
def operand (expr : Parser Expr) (budget : Nat) : Parser Expr := do
  let e ← primaryOf expr budget
  trailers expr budget budget e

/-- The operator that stands in front of an operand. A plus there means nothing. -/
def leadingOp? (t : Token) : Option (Option UnaryOp) :=
  if t.isOperator "++" then some (some .preInc)
  else if t.isOperator "--" then some (some .preDec)
  else if t.isOperator "!" then some (some .not)
  else if t.isOperator "-" then some (some .neg)
  else if t.isOperator "+" then some none
  else none

/-- An operand with operators in front of it. -/
def unaryOf (operand : Parser Expr) : Nat → Parser Expr
  | 0 => exhausted
  | budget + 1 => do
    match ← peek with
    | none => operand
    | some t =>
      match leadingOp? t with
      | none => operand
      | some op =>
        let _ ← next
        let inner ← unaryOf operand budget
        match op with
        | some op => return .unary t.line op inner
        | none => return inner

/-! ## Layers of binary operators -/

/-- The operator of `ops` that a token stands for. -/
def binaryOp? (ops : List BinaryOp) (t : Token) : Option BinaryOp :=
  if t.kind = .operator then (BinaryOp.ofText? t.lexeme).filter ops.contains else none

/-- The operators `ops`, each with an operand behind it, that follow the expression `left`. -/
def chainFrom (ops : List BinaryOp) (operand : Parser Expr) : Nat → Expr → Parser Expr
  | 0, _ => exhausted
  | budget + 1, left => do
    match ← peek with
    | none => return left
    | some t =>
      match binaryOp? ops t with
      | none => return left
      | some op =>
        let _ ← next
        let right ← operand
        chainFrom ops operand budget (.binary t.line op left right)

/-- Operands joined by the operators `ops`, grouped to the left. -/
def chain (ops : List BinaryOp) (operand : Parser Expr) (budget : Nat) : Parser Expr := do
  let first ← operand
  chainFrom ops operand budget first

/-- The operator that the sign of a number stands for. -/
def signOp? (t : Token) : Option Arith :=
  if t.kind = .number || t.kind = .floatNumber then
    match t.lexeme.toList with
    | '+' :: _ => some .add
    | '-' :: _ => some .sub
    | _ => none
  else none

/-- The operators `+` and `-` with operands that follow `left`. The scanner may have drawn the
sign into a number, from which it is then split off. -/
def sumFrom (operand : Parser Expr) : Nat → Expr → Parser Expr
  | 0, _ => exhausted
  | budget + 1, left => do
    match ← peek with
    | none => return left
    | some t =>
      match binaryOp? [.arith .add, .arith .sub] t with
      | some op =>
        let _ ← next
        let right ← operand
        sumFrom operand budget (.binary t.line op left right)
      | none =>
        match signOp? t with
        | some op =>
          let _ ← next
          pushFront { t with lexeme := String.ofList t.lexeme.toList.tail }
          let right ← operand
          sumFrom operand budget (.binary t.line (.arith op) left right)
        | none => return left

/-- Products. -/
def product (expr : Parser Expr) (budget : Nat) : Parser Expr :=
  chain [.arith .mul, .arith .div, .arith .mod] (unaryOf (operand expr budget) budget) budget

/-- Sums. -/
def sum (expr : Parser Expr) (budget : Nat) : Parser Expr := do
  let first ← product expr budget
  sumFrom (product expr budget) budget first

/-- Comparisons of size. -/
def relation (expr : Parser Expr) (budget : Nat) : Parser Expr :=
  chain [.order .lt, .order .gt, .order .le, .order .ge] (sum expr budget) budget

/-- Comparisons for equality. -/
def equality (expr : Parser Expr) (budget : Nat) : Parser Expr :=
  chain [.equal, .notEqual] (relation expr budget) budget

/-- Conjunctions. -/
def conjunction (expr : Parser Expr) (budget : Nat) : Parser Expr :=
  chain [.and] (equality expr budget) budget

/-- Disjunctions. -/
def disjunction (expr : Parser Expr) (budget : Nat) : Parser Expr :=
  chain [.or] (conjunction expr budget) budget

/-! ## Assignments -/

/-- The compound assignments. -/
def compoundOps : List BinaryOp :=
  [.assign .add, .assign .sub, .assign .mul, .assign .div, .assign .mod]

/-- Assignments, grouped to the right. Only a plain assignment takes an array in braces. -/
def assignment (expr : Parser Expr) (budget : Nat) : Parser Expr := do
  let left ← disjunction expr budget
  match ← peek with
  | none => return left
  | some t =>
    if t.isOperator "=" then
      let _ ← next
      let right ← initializerOf expr budget
      return .assign t.line left right
    else
      match binaryOp? compoundOps t with
      | some op =>
        let _ ← next
        let right ← expr
        return .binary t.line op left right
      | none => return left

/-- An expression, within a budget. -/
def exprWithin : Nat → Parser Expr
  | 0 => exhausted
  | budget + 1 => assignment (exprWithin budget) (budget + 1)

/-- An expression. -/
def expr : Parser Expr :=
  withBudget exprWithin

/-- A primary expression. -/
def primary : Parser Expr :=
  withBudget fun budget => primaryOf (exprWithin budget) budget

/-- An array in braces. -/
def arrayInit : Parser Expr :=
  withBudget fun budget => arrayInitOf (exprWithin budget) budget

/-- An initial value. -/
def initializer : Parser Expr :=
  withBudget fun budget => initializerOf (exprWithin budget) budget

end ClassLang.Grammar
