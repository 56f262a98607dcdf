import ClassLang.Syntax.Error
import ClassLang.Token.Basic

/-!
# Feeds of tokens

A source of tokens may fail on the way and still have more tokens behind the failure. What it
gives is a list of tokens and failures.

## Main definitions

* `ClassLang.Feed`: tokens and failures in order.
* `ClassLang.Feed.tokens`, `ClassLang.Feed.failure?`: the tokens before the first failure, and
  that failure with the feed behind it.
-/

set_option autoImplicit false

namespace ClassLang

/-- Tokens and failures in the order in which a source gives them. -/
abbrev Feed := List (Except SyntaxError Token)

namespace Feed

/-- The feed of a list of tokens. -/
def ofTokens (tokens : List Token) : Feed :=
  tokens.map .ok

/-- The tokens before the first failure. -/
def tokens : Feed → List Token
  | .ok token :: rest => token :: tokens rest
  | _ => []

/-- The first failure, with the feed behind it. -/
def failure? : Feed → Option (SyntaxError × Feed)
  | [] => none
  | .ok _ :: rest => failure? rest
  | .error e :: rest => some (e, rest)

/-- The line of the last token of a feed, and `line` if it has none. -/
def lastLine (line : Nat) : Feed → Nat
  | [] => line
  | .ok token :: rest => lastLine token.line rest
  | .error _ :: rest => lastLine line rest

@[simp]
theorem tokens_ofTokens (ts : List Token) : (ofTokens ts).tokens = ts := by
  induction ts with
  | nil => rfl
  | cons t ts ih => simpa [ofTokens, tokens] using ih

@[simp]
theorem failure?_ofTokens (ts : List Token) : (ofTokens ts).failure? = none := by
  induction ts with
  | nil => rfl
  | cons t ts ih => simpa [ofTokens, failure?] using ih

end Feed

end ClassLang
