import ClassLang.Token.Basic

/-!
# Lookahead windows

A window holds tokens that were fetched and of which some have been consumed. Consumed tokens are
dropped only now and then: once the window has outgrown `maxSize` and more than half of that has
been consumed, as many as leave `minSize` tokens in the window.

## Main definitions

* `ClassLang.Window`: windows.
* `ClassLang.Window.ahead`: the tokens still to be consumed.
* `ClassLang.Window.push`, `ClassLang.Window.insert`, `ClassLang.Window.peekAt`,
  `ClassLang.Window.advance`: the operations.
-/

set_option autoImplicit false

namespace ClassLang

/-- Fetched tokens, the first `position` of which have been consumed. -/
structure Window where
  tokens : List Token := []
  position : Nat := 0
  maxSize : Nat := 64
  minSize : Nat := 32
  /-- How many tokens have been consumed in all. -/
  consumed : Nat := 0
  deriving DecidableEq

namespace Window

/-- The empty window of given sizes. -/
def ofSizes (maxSize minSize : Nat) : Window :=
  { maxSize, minSize }

/-- The tokens still to be consumed. -/
def ahead (w : Window) : List Token :=
  w.tokens.drop w.position

/-- The number of tokens still to be consumed. -/
def available (w : Window) : Nat :=
  w.tokens.length - w.position

/-- Whether at least `count` tokens are still to be consumed. -/
def hasAtLeast (w : Window) (count : Nat) : Bool :=
  count ≤ w.available

/-- Whether no token is left to be consumed. -/
def isEmpty (w : Window) : Bool :=
  w.available = 0

/-- The token `n` places after the next one. -/
def peekAt (w : Window) (n : Nat) : Option Token :=
  w.tokens[w.position + n]?

/-- The next token. -/
def peek (w : Window) : Option Token :=
  w.peekAt 0

/-- Adds a token behind all others. -/
def push (w : Window) (t : Token) : Window :=
  { w with tokens := w.tokens ++ [t] }

/-- Adds a token in front of all tokens still to be consumed. -/
def insert (w : Window) (t : Token) : Window :=
  { w with tokens := w.tokens.insertIdx w.position t }

/-- How many consumed tokens a clean-up drops. -/
def removable (w : Window) : Nat :=
  min w.position (w.tokens.length - w.minSize)

/-- Drops consumed tokens, if the window is due for it. -/
def cleanUp (w : Window) : Window :=
  if w.maxSize < w.tokens.length && w.maxSize / 2 < w.position then
    { w with tokens := w.tokens.drop w.removable, position := w.position - w.removable }
  else w

/-- Consumes the next token. -/
def advance (w : Window) : Option Token × Window :=
  match w.peek with
  | none => (none, w)
  | some t => (some t, { w with position := w.position + 1, consumed := w.consumed + 1 }.cleanUp)

end Window

end ClassLang
