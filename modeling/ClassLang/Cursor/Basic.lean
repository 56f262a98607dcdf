import ClassLang.Token.Feed

/-!
# Cursors

The parser reads a feed through a cursor. What it sees are the upcoming tokens, up to the first
failure of the feed. Next to them the cursor keeps what the looking has brought to light: how far
the feed has been fetched, and whether the failure has been met.

## Main definitions

* `ClassLang.Cursor`: the upcoming tokens and the traces of reading.
* `ClassLang.Cursor.fetch`: notes that the parser looks at the first tokens.
* `ClassLang.Cursor.advance`, `ClassLang.Cursor.pushFront`, `ClassLang.Cursor.takeFailure`: the
  other moves.
* `ClassLang.Cursor.weight`: the weight of the upcoming tokens, which bounds what parsing them
  takes.
-/

set_option autoImplicit false

namespace ClassLang

/-- A place in a feed. -/
structure Cursor where
  /-- The tokens to come, up to the next failure of the feed or its end. -/
  upcoming : List Token
  /-- The failure behind the upcoming tokens, with the feed behind it. -/
  failure : Option (SyntaxError × Feed) := none
  /-- Whether the failure has been met. -/
  failureMet : Bool := false
  /-- How many of the upcoming tokens have been fetched. -/
  fetched : Nat := 0
  /-- The line of the token fetched last. -/
  fetchedLine : Nat := 1
  /-- The line of the token consumed last. -/
  previousLine : Nat := 1

namespace Cursor

/-- The cursor at the start of a feed. -/
def ofFeed (feed : Feed) : Cursor :=
  { upcoming := feed.tokens, failure := feed.failure? }

/-- The cursor at the start of a list of tokens. -/
def ofTokens (tokens : List Token) : Cursor :=
  { upcoming := tokens }

/-- Notes that the parser looks at the first `count` tokens. Looking beyond the upcoming tokens
meets the failure. -/
def fetch (c : Cursor) (count : Nat) : Cursor :=
  if count ≤ c.fetched then c
  else
    let seen := c.upcoming.take count
    { c with
      fetched := seen.length
      fetchedLine := (seen.drop c.fetched).foldl (fun _ t => t.line) c.fetchedLine
      failureMet := c.failureMet || (seen.length < count && c.failure.isSome) }

/-- Consumes the next token. -/
def advance (c : Cursor) : Option Token × Cursor :=
  match c.upcoming with
  | [] => (none, c.fetch 1)
  | t :: rest =>
    (some t,
      { c.fetch 1 with
        upcoming := rest
        fetched := (c.fetch 1).fetched - 1
        previousLine := t.line })

/-- Puts a token in front of all others. -/
def pushFront (c : Cursor) (t : Token) : Cursor :=
  { c with upcoming := t :: c.upcoming, fetched := c.fetched + 1 }

/-- The failure, if it has been met. Once it is taken the feed goes on behind it. -/
def takeFailure (c : Cursor) : Option SyntaxError × Cursor :=
  match c.failureMet, c.failure with
  | true, some (e, feed) =>
    (some e,
      { c with
        upcoming := c.upcoming ++ feed.tokens
        failure := feed.failure?
        failureMet := false })
  | _, _ => (none, c)

/-- The weight of the upcoming tokens. -/
def weight (c : Cursor) : Nat :=
  c.upcoming.foldr (fun t total => t.weight + total) 0

@[simp]
theorem upcoming_fetch (c : Cursor) (count : Nat) : (c.fetch count).upcoming = c.upcoming := by
  unfold fetch
  split <;> rfl

@[simp]
theorem failure_fetch (c : Cursor) (count : Nat) : (c.fetch count).failure = c.failure := by
  unfold fetch
  split <;> rfl

@[simp]
theorem previousLine_fetch (c : Cursor) (count : Nat) :
    (c.fetch count).previousLine = c.previousLine := by
  unfold fetch
  split <;> rfl

@[simp]
theorem upcoming_ofTokens (tokens : List Token) : (ofTokens tokens).upcoming = tokens := rfl

@[simp]
theorem upcoming_advance (c : Cursor) : c.advance.2.upcoming = c.upcoming.tail := by
  unfold advance
  split <;> rename_i h <;> simp_all

@[simp]
theorem fst_advance (c : Cursor) : c.advance.1 = c.upcoming.head? := by
  unfold advance
  split <;> rename_i h <;> simp_all

@[simp]
theorem upcoming_pushFront (c : Cursor) (t : Token) :
    (c.pushFront t).upcoming = t :: c.upcoming := rfl

end Cursor

end ClassLang
