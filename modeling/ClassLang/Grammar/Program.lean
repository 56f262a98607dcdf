import ClassLang.Grammar.Stmt
import ClassLang.Syntax.Program

/-!
# Grammar of programs

A program starts at the first keyword `public`; what stands before it is passed over. From there
on it is a sequence of classes.

## Main definitions

* `ClassLang.Grammar.member`, `ClassLang.Grammar.classDecl`, `ClassLang.Grammar.program`: the
  entry points.
* `ClassLang.Program.ofTokens`, `ClassLang.Program.ofFeed`: parsing a whole program.
-/

set_option autoImplicit false

namespace ClassLang.Grammar

open ClassLang.Parser

/-- Keywords that may stand in front of a class or a member. -/
def modifiers : List String :=
  ["public", "private", "protected", "static", "final", "abstract", "synchronized", "native",
    "transient", "volatile", "strictfp"]

/-- Whether a token is a modifier. -/
def isModifier (t : Token) : Bool :=
  t.kind = .keyword && modifiers.contains t.lexeme

/-- Passes over modifiers; gives whether `static` is among them. -/
def skipModifiers : Nat → Parser Bool
  | 0 => exhausted
  | budget + 1 => do
    match ← peek with
    | none => return false
    | some t =>
      if isModifier t then
        let _ ← next
        let more ← skipModifiers budget
        return t.lexeme = "static" || more
      else
        return false

/-- The rest of a list of parameters, from a parameter to the closing parenthesis. -/
def parameterList : Nat → Parser (List Parameter)
  | 0 => exhausted
  | budget + 1 => do
    let _ ← acceptKeyword "final"
    let (name, type, line) ← declarator (budget + 1)
    if ← acceptOperator ")" then
      return [{ name, type, line }]
    else
      let _ ← expectOperator ","
      let others ← parameterList budget
      return { name, type, line } :: others

/-- The parameters of a method in parentheses. -/
def parameters (budget : Nat) : Parser (List Parameter) := do
  let _ ← expectOperator "("
  if ← acceptOperator ")" then
    return []
  else
    parameterList budget

/-- A field or a method, within a budget. -/
def memberWithin (budget : Nat) : Parser Member := do
  let isStatic ← skipModifiers budget
  let (name, type, line) ← declarator budget
  if ← hasOperator "(" then
    let params ← parameters budget
    let body ← blockWithin budget
    return .method { name, returnType := type, params, body, isStatic, line }
  else
    let init ← optionalInit budget
    let _ ← expectOperator ";"
    return .field { name, type, init, isStatic, line }

/-- The members up to the brace that closes a class. -/
def membersToBrace : Nat → Parser (List Member)
  | 0 => exhausted
  | budget + 1 => do
    if ← acceptOperator closeBrace then
      return []
    else if ← atEnd then
      failExpected ("'" ++ closeBrace ++ "'")
    else
      let first ← memberWithin (budget + 1)
      let others ← membersToBrace budget
      return first :: others

/-- A class, within a budget. -/
def classDeclWithin (budget : Nat) : Parser ClassDecl := do
  let _ ← skipModifiers budget
  let _ ← expectKeyword "class"
  let t ← expectIdentifier
  let inherits ← hasKeyword "extends"
  let implementing ← hasKeyword "implements"
  if inherits || implementing then
    failUnsupported (← currentLine) .inheritance
  else
    let _ ← expectOperator openBrace
    let members ← membersToBrace budget
    return { name := t.lexeme, members, line := t.line }

/-- The classes up to the end of the tokens. -/
def classesToEnd : Nat → Parser (List ClassDecl)
  | 0 => exhausted
  | budget + 1 => do
    if ← atEnd then
      return []
    else
      let first ← classDeclWithin (budget + 1)
      let others ← classesToEnd budget
      return first :: others

/-- Passes over all tokens before the first keyword `public`. -/
def skipToPublic : Nat → Parser Unit
  | 0 => exhausted
  | budget + 1 => do
    match ← peek with
    | none => return ()
    | some t =>
      if t.isKeyword "public" then
        return ()
      else
        let _ ← next
        skipToPublic budget

/-- A program, within a budget. A failure of the feed behind the last class is an error too. -/
def programWithin (budget : Nat) : Parser Program := do
  skipToPublic budget
  if ← atEnd then
    failExpected "'public' class declaration"
  else
    let line ← currentLine
    let classes ← classesToEnd budget
    match ← takeFailure with
    | some e => throw e
    | none => return { classes, line }

/-- A field or a method. -/
def member : Parser Member :=
  withBudget memberWithin

/-- A class. -/
def classDecl : Parser ClassDecl :=
  withBudget classDeclWithin

/-- A program. -/
def program : Parser Program :=
  withBudget programWithin

end ClassLang.Grammar

namespace ClassLang.Program

/-- Parses the tokens of a program. -/
def ofTokens (tokens : List Token) : Except SyntaxError Program :=
  Grammar.program.onTokens tokens

/-- Parses a program from a feed, which may fail on the way. -/
def ofFeed (feed : Feed) : Except SyntaxError Program :=
  (Grammar.program.runFrom (.ofFeed feed)).1

/-- Parses the text of a program. -/
def ofText (source : String) : Except SyntaxError Program :=
  ofTokens (tokenize source)

end ClassLang.Program
