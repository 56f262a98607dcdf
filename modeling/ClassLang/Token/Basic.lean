/-!
# Tokens

A token is a lexeme with its kind, the line on which it starts and the number of its lexeme.

## Main definitions

* `ClassLang.Kind`: the kinds of token and their names.
* `ClassLang.Token`: tokens.
* `ClassLang.Token.weight`: a size of tokens that cutting a lexeme into smaller lexemes never
  increases.
-/

set_option autoImplicit false

namespace ClassLang

/-- The kinds of token. Text that is no token of any other kind is an `error`, which is a token
too, so that every text can be scanned. -/
inductive Kind where
  | keyword
  | identifier
  | number
  | floatNumber
  | stringLiteral
  | charLiteral
  | operator
  | unknown
  | error
  deriving DecidableEq, Repr, Inhabited

namespace Kind

/-- The name of a kind in a token dump. -/
def name : Kind → String
  | keyword => "KEYWORD"
  | identifier => "IDENTIFIER"
  | number => "NUMBER"
  | floatNumber => "FLOAT_NUMBER"
  | stringLiteral => "STRING_LITERAL"
  | charLiteral => "CHAR_LITERAL"
  | operator => "OPERATOR"
  | unknown => "UNKNOWN"
  | error => "ERROR"

/-- All kinds. -/
def all : List Kind :=
  [keyword, identifier, number, floatNumber, stringLiteral, charLiteral, operator, unknown, error]

/-- The kind of a given name. -/
def ofName? (text : String) : Option Kind :=
  all.find? fun kind => kind.name = text

/-- The name of a kind is read back as that kind. -/
@[simp]
theorem ofName?_name (kind : Kind) : ofName? kind.name = some kind := by
  cases kind <;> decide

end Kind

/-- A lexeme with its kind, the line on which it starts, and the number of the lexeme. -/
structure Token where
  kind : Kind
  lexeme : String
  line : Nat
  id : Nat
  deriving DecidableEq, Repr, Inhabited

namespace Token

/-- Whether the token is the keyword `word`. -/
def isKeyword (t : Token) (word : String) : Bool :=
  t.kind = .keyword && t.lexeme = word

/-- Whether the token is the operator `op`. -/
def isOperator (t : Token) (op : String) : Bool :=
  t.kind = .operator && t.lexeme = op

/-- The number of characters of the lexeme other than spaces, and at least one. A text cut into
lexemes weighs no less than they do together, and every token weighs something. -/
def weight (t : Token) : Nat :=
  max 1 (t.lexeme.toList.countP fun c => c ≠ ' ')

theorem weight_pos (t : Token) : 0 < t.weight := by
  unfold weight
  omega

end Token

end ClassLang
