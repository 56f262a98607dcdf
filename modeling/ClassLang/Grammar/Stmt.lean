import ClassLang.Grammar.Expr
import ClassLang.Syntax.Stmt

/-!
# Grammar of statements

The next token decides which statement follows. A type keyword, and an identifier with another
identifier behind it, start a declaration. A statement in the place of a block is a block of its
own.

## Main definitions

* `ClassLang.Grammar.atDeclaration`: whether a declaration of a variable comes next.
* `ClassLang.Grammar.varDecl`, `ClassLang.Grammar.block`, `ClassLang.Grammar.stmt`: the entry
  points.
-/

set_option autoImplicit false

namespace ClassLang.Grammar

open ClassLang.Parser

/-! ## Declarations of variables -/

/-- Whether a declaration of a local variable comes next. -/
def atDeclaration : Parser Bool := do
  match ← peek with
  | none => return false
  | some t =>
    if t.isKeyword "final" then
      return true
    else if t.kind = .keyword && Word.isTypeKeyword t.lexeme then
      return !(← hasOperatorAt 1 ".")
    else if t.kind = .identifier then
      hasKindAt 1 .identifier
    else
      return false

/-- The initial value behind a declared name, if there is one. -/
def optionalInit (budget : Nat) : Parser (Option Expr) := do
  if ← acceptOperator "=" then
    let value ← initializerOf (exprWithin budget) budget
    return some value
  else
    return none

/-- A type and a name, which may carry array suffixes too: the name, the type and the line of the
name. -/
def declarator (budget : Nat) : Parser (String × TypeExpr × Nat) := do
  let type ← typeExprWithin budget
  let t ← expectIdentifier
  let (name, suffixes) := splitDeclarator t.lexeme
  return (name, type.arrayOf suffixes, t.line)

/-- The declaration of a local variable without the semicolon at its end, within a budget. -/
def varDeclWithin (budget : Nat) : Parser VarDecl := do
  let _ ← acceptKeyword "final"
  let (name, type, line) ← declarator budget
  let init ← optionalInit budget
  return { name, type, init, line }

/-! ## Parts of statements -/

/-- The statements up to the brace that closes a block. -/
def stmtsToBrace (stmt : Parser Stmt) : Nat → Parser (List Stmt)
  | 0 => exhausted
  | budget + 1 => do
    if ← acceptOperator closeBrace then
      return []
    else if ← atEnd then
      failExpected ("'" ++ closeBrace ++ "'")
    else
      let first ← stmt
      let others ← stmtsToBrace stmt budget
      return first :: others

/-- A block in braces. -/
def blockOf (stmt : Parser Stmt) (budget : Nat) : Parser Block := do
  let opening ← expectOperator openBrace
  let stmts ← stmtsToBrace stmt budget
  return .mk opening.line stmts

/-- A block in braces, or one statement that makes up a block. -/
def bodyOf (stmt : Parser Stmt) (budget : Nat) : Parser Block := do
  if ← hasOperator openBrace then
    blockOf stmt budget
  else
    let only ← stmt
    return .mk only.line [only]

/-- A condition in parentheses, with the line of the closing one. -/
def condition (budget : Nat) : Parser (Expr × Nat) := do
  let _ ← expectOperator "("
  let value ← exprWithin budget
  let closing ← expectOperator ")"
  return (value, closing.line)

/-! ## Statements with a keyword -/

/-- A conditional. An `else` with another conditional behind it is a block of that alone. -/
def ifStmt (stmt : Parser Stmt) (budget : Nat) : Parser Stmt := do
  let _ ← expectKeyword "if"
  let (value, line) ← condition budget
  let thenBranch ← bodyOf stmt budget
  if ← acceptKeyword "else" then
    let elseBranch ← bodyOf stmt budget
    return .ifElse line value thenBranch elseBranch
  else
    return .ifThen line value thenBranch

/-- A loop with its condition in front. -/
def whileStmt (stmt : Parser Stmt) (budget : Nat) : Parser Stmt := do
  let _ ← expectKeyword "while"
  let (value, line) ← condition budget
  let body ← bodyOf stmt budget
  return .whileLoop line value body

/-- A loop with its condition behind. -/
def doWhileStmt (stmt : Parser Stmt) (budget : Nat) : Parser Stmt := do
  let keyword ← expectKeyword "do"
  let body ← bodyOf stmt budget
  let _ ← expectKeyword "while"
  let (value, _) ← condition budget
  let _ ← expectOperator ";"
  return .doWhile keyword.line body value

/-- The first clause of a `for` loop with its semicolon. -/
def forInit (budget : Nat) : Parser (Option ForInit) := do
  if ← acceptOperator ";" then
    return none
  else if ← atDeclaration then
    let decl ← varDeclWithin budget
    let _ ← expectOperator ";"
    return some (.decl decl)
  else
    let value ← exprWithin budget
    let _ ← expectOperator ";"
    return some (.expr value)

/-- An expression, unless the operator `stop` comes next. -/
def exprUnless (stop : String) (budget : Nat) : Parser (Option Expr) := do
  if ← hasOperator stop then
    return none
  else
    let value ← exprWithin budget
    return some value

/-- A loop with three clauses, each of which may be missing. -/
def forStmt (stmt : Parser Stmt) (budget : Nat) : Parser Stmt := do
  let keyword ← expectKeyword "for"
  let _ ← expectOperator "("
  if ← hasOperatorAt 2 ":" then
    failUnsupported keyword.line .rangeFor
  else
    let init ← forInit budget
    let value ← exprUnless ";" budget
    let _ ← expectOperator ";"
    let update ← exprUnless ")" budget
    let closing ← expectOperator ")"
    let body ← bodyOf stmt budget
    return .forLoop closing.line init value update body

/-- Whether a token ends the statements of an arm of a switch. -/
def endsArm (t : Token) : Bool :=
  t.isKeyword "case" || t.isKeyword "default" || t.isOperator closeBrace

/-- The statements of an arm of a switch. -/
def armStmts (stmt : Parser Stmt) : Nat → Parser (List Stmt)
  | 0 => exhausted
  | budget + 1 => do
    match ← peek with
    | none => failExpected ("'" ++ closeBrace ++ "'")
    | some t =>
      if endsArm t then
        return []
      else
        let first ← stmt
        let others ← armStmts stmt budget
        return first :: others

/-- Whether a token is a literal that may label a case. -/
def isLabel (t : Token) : Bool :=
  t.kind = .number || t.kind = .floatNumber || t.kind = .charLiteral || t.kind = .stringLiteral ||
    t.isKeyword "true" || t.isKeyword "false"

/-- The label of a case: a single literal. -/
def caseLabel (budget : Nat) : Parser Expr := do
  if (← peek).any isLabel then primaryOf (exprWithin budget) budget
  else failExpected "literal case label"

/-- The arms of a switch up to its closing brace. -/
def switchArms (stmt : Parser Stmt) : Nat → Parser (List SwitchArm)
  | 0 => exhausted
  | budget + 1 => do
    if ← acceptOperator closeBrace then
      return []
    else
      match ← peek with
      | none => failExpected ("'" ++ closeBrace ++ "'")
      | some t =>
        if t.isKeyword "case" then
          let _ ← next
          let label ← caseLabel (budget + 1)
          let _ ← expectOperator ":"
          let stmts ← armStmts stmt (budget + 1)
          let others ← switchArms stmt budget
          return .labelled t.line label (.mk t.line stmts) :: others
        else if t.isKeyword "default" then
          let _ ← next
          let _ ← expectOperator ":"
          let stmts ← armStmts stmt (budget + 1)
          let others ← switchArms stmt budget
          return .otherwise t.line (.mk t.line stmts) :: others
        else
          failUnexpected "'case' or 'default'" t

/-- A switch. -/
def switchStmt (stmt : Parser Stmt) (budget : Nat) : Parser Stmt := do
  let _ ← expectKeyword "switch"
  let (value, line) ← condition budget
  let _ ← expectOperator openBrace
  let arms ← switchArms stmt budget
  return .switch line value arms

/-- A jump out of a loop or to its next round, which is a keyword and a semicolon. -/
def jump (result : Stmt) : Parser Stmt := do
  let _ ← next
  let _ ← expectOperator ";"
  return result

/-- The end of a method, with or without a result. -/
def returnStmt (line budget : Nat) : Parser Stmt := do
  let _ ← next
  let value ← exprUnless ";" budget
  let _ ← expectOperator ";"
  return .ret line value

/-- A declaration or an expression that stands as a statement. -/
def simpleStmt (budget : Nat) : Parser Stmt := do
  if ← atDeclaration then
    let decl ← varDeclWithin budget
    let _ ← expectOperator ";"
    return .varDecl decl
  else
    let value ← exprWithin budget
    let _ ← expectOperator ";"
    return .expr value

/-- A statement that starts with the keyword `t`. -/
def keywordStmt (stmt : Parser Stmt) (budget : Nat) (t : Token) : Parser Stmt :=
  if t.lexeme = "if" then ifStmt stmt budget
  else if t.lexeme = "while" then whileStmt stmt budget
  else if t.lexeme = "do" then doWhileStmt stmt budget
  else if t.lexeme = "for" then forStmt stmt budget
  else if t.lexeme = "switch" then switchStmt stmt budget
  else if t.lexeme = "break" then jump (.breakOff t.line)
  else if t.lexeme = "continue" then jump (.continueOn t.line)
  else if t.lexeme = "return" then returnStmt t.line budget
  else if t.lexeme = "case" || t.lexeme = "default" then failUnexpected "statement" t
  else simpleStmt budget

/-- A statement whose inner statements are read by `stmt`. A semicolon alone is an empty
block. -/
def stmtOf (stmt : Parser Stmt) (budget : Nat) : Parser Stmt := do
  match ← peek with
  | none => failExpected "statement"
  | some t =>
    if t.isOperator openBrace then
      let body ← blockOf stmt budget
      return .block body
    else if t.isOperator ";" then
      let _ ← next
      return .block (.mk t.line [])
    else if t.kind = .keyword then
      keywordStmt stmt budget t
    else
      simpleStmt budget

/-- A statement, within a budget. -/
def stmtWithin : Nat → Parser Stmt
  | 0 => exhausted
  | budget + 1 => stmtOf (stmtWithin budget) (budget + 1)

/-- A block, within a budget. -/
def blockWithin (budget : Nat) : Parser Block :=
  blockOf (stmtWithin budget) budget

/-- The declaration of a local variable without the semicolon at its end. -/
def varDecl : Parser VarDecl :=
  withBudget varDeclWithin

/-- A block in braces. -/
def block : Parser Block :=
  withBudget blockWithin

/-- A statement. -/
def stmt : Parser Stmt :=
  withBudget stmtWithin

end ClassLang.Grammar
