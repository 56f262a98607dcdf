import ClassLang.Cursor.Basic

/-!
# Parsers

A parser moves a cursor and gives a value or a syntax error; the cursor keeps the moves made
before an error. Repetitions and nested constructs are bounded by a budget of steps, for which
the weight of the upcoming tokens is always enough.

## Main definitions

* `ClassLang.Parser`: parsers.
* `ClassLang.Parser.peekAt`, `ClassLang.Parser.next`, `ClassLang.Parser.pushFront`: the moves.
* `ClassLang.Parser.expectOperator`, `ClassLang.Parser.acceptOperator` and their like: tests of
  the next token.
* `ClassLang.Parser.errorExpected`: the error for a token that is not the one wanted.
* `ClassLang.Parser.withBudget`: runs a parser with a budget for the tokens at hand.
-/

set_option autoImplicit false

namespace ClassLang

/-- Functions that move a cursor and may fail. -/
abbrev Parser (α : Type) := ExceptT SyntaxError (StateM Cursor) α

namespace Parser

/-- Runs a parser from a cursor: its result, and where it leaves the cursor. -/
def runFrom {α : Type} (p : Parser α) (c : Cursor) : Except SyntaxError α × Cursor :=
  p.run.run c

/-- The result of a parser on a list of tokens. -/
def onTokens {α : Type} (p : Parser α) (tokens : List Token) : Except SyntaxError α :=
  (p.runFrom (.ofTokens tokens)).1

/-! ## Moves -/

/-- The token `n` places after the next one. -/
def peekAt (n : Nat) : Parser (Option Token) :=
  modifyGet fun c => (c.upcoming[n]?, c.fetch (n + 1))

/-- The next token. -/
def peek : Parser (Option Token) :=
  peekAt 0

/-- Consumes the next token. -/
def next : Parser (Option Token) :=
  modifyGet Cursor.advance

/-- Puts a token in front of all others. -/
def pushFront (t : Token) : Parser Unit :=
  modify fun c => c.pushFront t

/-- Puts several tokens in front of all others. -/
def pushAllFront (ts : List Token) : Parser Unit :=
  modify fun c => ts.foldr (fun t c => c.pushFront t) c

/-- The failure of the feed, if it has been met. -/
def takeFailure : Parser (Option SyntaxError) :=
  modifyGet Cursor.takeFailure

/-- The line of the token consumed last. -/
def previousLine : Parser Nat :=
  return (← get).previousLine

/-- The line of the next token, or of the last one at the end. -/
def currentLine : Parser Nat := do
  let line ← previousLine
  match ← peek with
  | some t => return t.line
  | none => return line

/-! ## Tests of the tokens ahead -/

/-- Whether no token is left. -/
def atEnd : Parser Bool :=
  return (← peek).isNone

/-- Whether the token `n` places after the next one is the operator `op`. -/
def hasOperatorAt (n : Nat) (op : String) : Parser Bool :=
  return (← peekAt n).any fun t => t.isOperator op

/-- Whether the next token is the operator `op`. -/
def hasOperator (op : String) : Parser Bool :=
  hasOperatorAt 0 op

/-- Whether the next token is the keyword `word`. -/
def hasKeyword (word : String) : Parser Bool :=
  return (← peek).any fun t => t.isKeyword word

/-- Whether the token `n` places after the next one is of a given kind. -/
def hasKindAt (n : Nat) (kind : Kind) : Parser Bool :=
  return (← peekAt n).any fun t => t.kind = kind

/-- Consumes the operator `op` if it is next. -/
def acceptOperator (op : String) : Parser Bool := do
  if ← hasOperator op then
    let _ ← next
    return true
  else
    return false

/-- Consumes the keyword `word` if it is next. -/
def acceptKeyword (word : String) : Parser Bool := do
  if ← hasKeyword word then
    let _ ← next
    return true
  else
    return false

/-! ## Errors -/

/-- The error that `expected` was wanted and something else is there. An `error` token and a
failure of the feed are reported as what they are. -/
def errorExpected (expected : String) : Parser SyntaxError := do
  let line ← previousLine
  match ← peek with
  | some t =>
    if t.kind = .error then return ⟨.lexical t.lexeme, t.line⟩
    else return ⟨.unexpectedToken expected t.lexeme, t.line⟩
  | none => return (← takeFailure).getD ⟨.unexpectedEnd expected, line⟩

/-- Fails because `expected` was wanted and something else is there. -/
def failExpected {α : Type} (expected : String) : Parser α := do
  let e ← errorExpected expected
  throw e

/-- Fails because the token `t` stands where `expected` was wanted. -/
def failUnexpected {α : Type} (expected : String) (t : Token) : Parser α :=
  throw ⟨.unexpectedToken expected t.lexeme, t.line⟩

/-- Fails because a construct is not supported. -/
def failUnsupported {α : Type} (line : Nat) (construct : Construct) : Parser α :=
  throw ⟨.unsupported construct, line⟩

/-- Fails because the budget has run out. -/
def exhausted {α : Type} : Parser α :=
  throw ⟨.budgetExhausted, 0⟩

/-! ## Tokens that have to be there -/

/-- Consumes any token. -/
def anyToken : Parser Token := do
  match ← next with
  | some t => return t
  | none => failExpected "token"

/-- Consumes the next token if it satisfies `p`. -/
def expectWhere (p : Token → Bool) (expected : String) : Parser Token := do
  if (← peek).any p then anyToken else failExpected expected

/-- Consumes the operator `op`. -/
def expectOperator (op : String) : Parser Token :=
  expectWhere (fun t => t.isOperator op) ("'" ++ op ++ "'")

/-- Consumes the keyword `word`. -/
def expectKeyword (word : String) : Parser Token :=
  expectWhere (fun t => t.isKeyword word) ("'" ++ word ++ "'")

/-- Consumes an identifier. -/
def expectIdentifier : Parser Token :=
  expectWhere (fun t => t.kind = .identifier) "identifier"

/-! ## Budgets -/

/-- Runs a parser with a budget for the tokens at hand. -/
def withBudget {α : Type} (p : Nat → Parser α) : Parser α := do
  p ((← get).weight + 1)

end Parser

end ClassLang
