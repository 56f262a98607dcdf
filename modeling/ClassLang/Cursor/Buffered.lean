import ClassLang.Cursor.Window
import ClassLang.Token.Feed

/-!
# Buffered reading of a feed

A feed is read through a window: tokens are fetched when they are first looked at, and the
reading stops at a failure until that failure has been taken.

## Main definitions

* `ClassLang.Buffered`: a feed with the window that it is read through.
* `ClassLang.Buffered.peekAt`, `ClassLang.Buffered.advance`, `ClassLang.Buffered.pushFront`,
  `ClassLang.Buffered.takeFailure`: the operations.
-/

set_option autoImplicit false

namespace ClassLang

/-- A feed that is read through a window. -/
structure Buffered where
  window : Window
  feed : Feed
  /-- The failure at which the reading has stopped. -/
  failure : Option SyntaxError := none
  /-- The line of the token fetched last. -/
  line : Nat := 1

namespace Buffered

/-- Reads a feed through an empty window of given sizes. -/
def ofFeed (feed : Feed) (maxSize minSize : Nat) : Buffered :=
  { window := .ofSizes maxSize minSize, feed }

/-- Fetches tokens until the window has `count` of them ahead, or the feed ends or fails. -/
def fill (count : Nat) (window : Window) (line : Nat) : Feed → Buffered
  | [] => { window, feed := [], line }
  | item :: rest =>
    if window.hasAtLeast count then { window, feed := item :: rest, line }
    else
      match item with
      | .ok t => fill count (window.push t) t.line rest
      | .error e => { window, feed := rest, failure := some e, line }

/-- Fetches tokens until `count` are ahead, as far as that is possible. -/
def ensure (b : Buffered) (count : Nat) : Buffered :=
  match b.failure with
  | some _ => b
  | none => fill count b.window b.line b.feed

/-- The token `n` places after the next one. -/
def peekAt (b : Buffered) (n : Nat) : Option Token × Buffered :=
  let b := b.ensure (n + 1)
  (b.window.peekAt n, b)

/-- The next token. -/
def peek (b : Buffered) : Option Token × Buffered :=
  b.peekAt 0

/-- Consumes the next token. -/
def advance (b : Buffered) : Option Token × Buffered :=
  let b := b.ensure 1
  let (t, window) := b.window.advance
  (t, { b with window })

/-- Puts a token in front of all others. -/
def pushFront (b : Buffered) (t : Token) : Buffered :=
  { b with window := b.window.insert t }

/-- The failure at which the reading has stopped. Once it is taken the reading goes on. -/
def takeFailure (b : Buffered) : Option SyntaxError × Buffered :=
  (b.failure, { b with failure := none })

/-- How many tokens have been consumed. -/
def consumed (b : Buffered) : Nat :=
  b.window.consumed

end Buffered

end ClassLang
