/-!
# Syntax errors

Why a text, or a dump of tokens, is no program.

## Main definitions

* `ClassLang.SyntaxError`: a cause and the line it was met on.
* `ClassLang.SyntaxError.message`, `ClassLang.SyntaxError.text`: the wording, without and with
  the line.
-/

set_option autoImplicit false

namespace ClassLang

/-- Parts of the full language that programs may not use. -/
inductive Construct where
  | inheritance
  | rangeFor
  | nestedAllocation
  | constructorArguments
  deriving DecidableEq

/-- The name of a construct in a message. -/
def Construct.text : Construct → String
  | inheritance => "Class inheritance clauses"
  | rangeFor => "Range-based for loops"
  | nestedAllocation => "Multi-dimensional array allocations"
  | constructorArguments => "Constructor arguments"

/-- What is wrong with a line of a token dump. -/
inductive DumpFault where
  | noMark
  | noLexeme
  | unknownKind
  | noLine
  | noId
  | badLine
  | badId
  | unterminated
  deriving DecidableEq

/-- The wording of a fault. -/
def DumpFault.text : DumpFault → String
  | noMark => "missing 'Token:' prefix"
  | noLexeme => "missing lexeme"
  | unknownKind => "unknown token kind"
  | noLine => "missing line"
  | noId => "missing id"
  | badLine => "bad line number"
  | badId => "bad id"
  | unterminated => "unterminated lexeme"

/-- Causes of a syntax error. -/
inductive SyntaxError.Cause where
  /-- Another token stands where `expected` was wanted. -/
  | unexpectedToken (expected found : String)
  /-- The tokens end where `expected` was wanted. -/
  | unexpectedEnd (expected : String)
  /-- The scanner made no sense of a lexeme. -/
  | lexical (lexeme : String)
  /-- A number that cannot be read. -/
  | invalidLiteral (lexeme : String)
  | unsupported (construct : Construct)
  | malformedDump (fault : DumpFault) (text : String)
  /-- A line of a dump is not valid UTF-8. -/
  | undecodableDump
  | missingFile (path : String)
  /-- The step budget of the parser ran out. -/
  | budgetExhausted
  deriving DecidableEq

/-- A cause and the line on which it was met; line zero for causes outside any text. -/
structure SyntaxError where
  cause : SyntaxError.Cause
  line : Nat
  deriving DecidableEq

namespace SyntaxError

/-- The wording of an error, without its line. -/
def message (e : SyntaxError) : String :=
  match e.cause with
  | .unexpectedToken expected found => "Expected " ++ expected ++ ", found '" ++ found ++ "'"
  | .unexpectedEnd expected => "Expected " ++ expected ++ ", found end of input"
  | .lexical lexeme => "Invalid token '" ++ lexeme ++ "'"
  | .invalidLiteral lexeme => "Invalid literal '" ++ lexeme ++ "'"
  | .unsupported construct => construct.text ++ " are not supported"
  | .malformedDump fault text =>
    "Malformed token dump: " ++ fault.text ++ " in '" ++ text ++ "'"
  | .undecodableDump => "Failed to read token dump: stream did not contain valid UTF-8"
  | .missingFile path => "Failed to read " ++ path ++ ": No such file or directory (os error 2)"
  | .budgetExhausted => "Step budget exhausted"

/-- The wording of an error with its line. -/
def text (e : SyntaxError) : String :=
  e.message ++ " at line " ++ toString e.line

end SyntaxError

end ClassLang
