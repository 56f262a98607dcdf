import ClassLang.Text.Blank
import ClassLang.Token.Basic
import ClassLang.Token.Interner
import ClassLang.Token.Words

/-!
# Scanning a text into tokens

A text is read from left to right. Each step takes a nonempty piece off its front, either a gap
(a blank or a comment) or the lexeme of a token. Nothing is refused: malformed literals and stray
characters become tokens of kind `error`.

A word takes the brackets that follow it into its lexeme, so `grid[i]` is one word. A sign is
part of the number that follows it directly, if the sign stands at the start of the text, after a
blank or after `=`.

## Main definitions

* `ClassLang.Scan.step`: the piece at the front of a text.
* `ClassLang.Scan.pieces`: the lexemes of a text with their kinds and lines.
* `ClassLang.Scan.tokens`: the tokens of a text, numbered by an interner.

## Main statements

* `ClassLang.Scan.step_text_append_rest`: a step loses no character.
* `ClassLang.Scan.step_text_ne_nil`: a step takes at least one character.
-/

set_option autoImplicit false

namespace ClassLang.Scan

/-- What a step takes off the front of a text. -/
structure Step where
  /-- The kind of the token, or `none` for a gap. -/
  kind : Option Kind
  /-- The characters taken. -/
  text : List Char
  /-- The characters left. -/
  rest : List Char
  /-- By how much the line number goes up. -/
  newlines : Nat := 0

/-- The number of line feeds in one character. -/
def lineFeeds (c : Char) : Nat :=
  if c = '\n' then 1 else 0

/-! ## Words -/

/-- Characters that start a word. -/
def startsWord (c : Char) : Bool :=
  c.isAlpha || c = '_'

/-- Characters that go on with a word. -/
def continuesWord (c : Char) : Bool :=
  c.isAlphanum || c = '_' || c = '[' || c = ']'

/-- The word at the front of a text. -/
def word (cs : List Char) : Step :=
  let text := cs.takeWhile continuesWord
  { kind := if Word.isKeyword (String.ofList text) then some .keyword else some .identifier
    text
    rest := cs.dropWhile continuesWord }

/-! ## Numbers -/

/-- Digits with at most one point among them. -/
structure Mantissa where
  text : List Char
  rest : List Char
  hasPoint : Bool
  /-- Whether a second point follows. -/
  secondPoint : Bool

/-- A mantissa with one more character in front. -/
def Mantissa.cons (c : Char) (m : Mantissa) : Mantissa :=
  { m with text := c :: m.text }

/-- The mantissa at the front of a text, `hasPoint` telling whether a point came before. -/
def mantissa (hasPoint : Bool) : List Char → Mantissa
  | [] => { text := [], rest := [], hasPoint, secondPoint := false }
  | c :: cs =>
    if c = '.' then
      if hasPoint then { text := [], rest := c :: cs, hasPoint, secondPoint := true }
      else (mantissa true cs).cons c
    else if c.isDigit then (mantissa hasPoint cs).cons c
    else { text := [], rest := c :: cs, hasPoint, secondPoint := false }

/-- The sign at the front of an exponent, if there is one. -/
def exponentSign : List Char → List Char × List Char
  | [] => ([], [])
  | c :: cs => if c = '+' || c = '-' then ([c], cs) else ([], c :: cs)

/-- The letters that may end a number, and that make it a floating-point number. -/
def isNumberSuffix (c : Char) : Bool :=
  c = 'f' || c = 'F' || c = 'd' || c = 'D'

/-- A number read so far as `text`, with the suffix letter that may follow. -/
def withSuffix (isFloat : Bool) (text : List Char) : List Char → Step
  | [] => { kind := some (if isFloat then .floatNumber else .number), text, rest := [] }
  | c :: cs =>
    if isNumberSuffix c then { kind := some .floatNumber, text := text ++ [c], rest := cs }
    else { kind := some (if isFloat then .floatNumber else .number), text, rest := c :: cs }

/-- A number read so far as the mantissa `text`, with the exponent and the suffix letter that may
follow. An exponent without digits is an error, which ends before the digits that are missing. -/
def withExponent (isFloat : Bool) (text : List Char) : List Char → Step
  | [] => withSuffix isFloat text []
  | c :: cs =>
    if c = 'e' || c = 'E' then
      let (sign, more) := exponentSign cs
      let digits := more.takeWhile Char.isDigit
      if digits.isEmpty then { kind := some .error, text := text ++ c :: sign, rest := more }
      else withSuffix true (text ++ c :: (sign ++ digits)) (more.dropWhile Char.isDigit)
    else withSuffix isFloat text (c :: cs)

/-- The number at the front of a text. A second point is an error, which ends before it. -/
def number (cs : List Char) : Step :=
  let m := mantissa false cs
  if m.secondPoint then { kind := some .error, text := m.text, rest := m.rest }
  else withExponent m.hasPoint m.text m.rest

/-- Whether a number starts the text: a digit, or a point with a digit after it. -/
def startsNumber : List Char → Bool
  | [] => false
  | c :: cs => c.isDigit || (c = '.' && cs.head?.any Char.isDigit)

/-- Whether a sign that stands after `before` belongs to the number that follows it. -/
def signFolds (before : Option Char) : Bool :=
  before.all fun c => Text.isBlank c || c = '='

/-! ## Literals -/

/-- The part of a text up to a closing quotation mark, or to the end of the text. -/
structure Quoted where
  text : List Char
  rest : List Char
  newlines : Nat
  closed : Bool

/-- Quoted text with `cs` in front and `newlines` more line feeds. -/
def Quoted.append (cs : List Char) (newlines : Nat) (q : Quoted) : Quoted :=
  { q with text := cs ++ q.text, newlines := newlines + q.newlines }

/-- The rest of a string literal, the closing quotation mark included. A backslash takes the next
character with it, and a line feed taken so does not count. -/
def quoted : List Char → Quoted
  | [] => { text := [], rest := [], newlines := 0, closed := false }
  | [c] =>
    if c = '"' then { text := [c], rest := [], newlines := 0, closed := true }
    else { text := [c], rest := [], newlines := lineFeeds c, closed := false }
  | c :: d :: cs =>
    if c = '"' then { text := [c], rest := d :: cs, newlines := 0, closed := true }
    else if c = '\\' then (quoted cs).append [c, d] 0
    else (quoted (d :: cs)).append [c] (lineFeeds c)

/-- The string literal that starts with the quotation mark before `cs`. -/
def stringLiteral (cs : List Char) : Step :=
  let body := quoted cs
  { kind := some (if body.closed then .stringLiteral else .error)
    text := '"' :: body.text
    rest := body.rest
    newlines := body.newlines }

/-- The character literal read so far as `text`, which wants its closing quote. -/
def closeChar (text : List Char) : List Char → Step
  | '\'' :: cs => { kind := some .charLiteral, text := text ++ ['\''], rest := cs }
  | cs => { kind := some .error, text, rest := cs }

/-- The character literal that starts with the quote before `cs`: one character, or a backslash
and one character. No line feed in it counts. -/
def charLiteral : List Char → Step
  | [] => closeChar ['\''] []
  | ['\\'] => closeChar ['\'', '\\'] []
  | '\\' :: c :: cs => closeChar ['\'', '\\', c] cs
  | c :: cs => closeChar ['\'', c] cs

/-! ## Comments -/

/-- The line comment that starts with the two slashes before `cs`. It ends before the line
feed. -/
def lineComment (cs : List Char) : Step :=
  { kind := none
    text := '/' :: '/' :: cs.takeWhile (· ≠ '\n')
    rest := cs.dropWhile (· ≠ '\n') }

/-- The rest of a block comment, its end included; without an end it goes on to the end of the
text. -/
def commentBody : List Char → Quoted
  | [] => { text := [], rest := [], newlines := 0, closed := false }
  | [c] => { text := [c], rest := [], newlines := lineFeeds c, closed := false }
  | c :: d :: cs =>
    if c = '*' && d = '/' then { text := [c, d], rest := cs, newlines := 0, closed := true }
    else (commentBody (d :: cs)).append [c] (lineFeeds c)

/-- The block comment that starts with the slash and star before `cs`. -/
def blockComment (cs : List Char) : Step :=
  let body := commentBody cs
  { kind := none
    text := '/' :: '*' :: body.text
    rest := body.rest
    newlines := body.newlines }

/-! ## Operators -/

/-- Lengthens an operator by the characters after it, as long as the result is an operator. -/
def extendOperator (text : List Char) : List Char → List Char × List Char
  | [] => (text, [])
  | c :: cs =>
    if Word.isOperator (String.ofList (text ++ [c])) then extendOperator (text ++ [c]) cs
    else (text, c :: cs)

/-- The operator that starts with `c`. -/
def operator (c : Char) (cs : List Char) : Step :=
  let (text, rest) := extendOperator [c] cs
  { kind := some .operator, text, rest }

/-! ## Steps -/

/-- A number with the sign `c` in front. -/
def signedNumber (c : Char) (cs : List Char) : Step :=
  { number cs with text := c :: (number cs).text }

/-- The piece at the front of the text `c :: cs`, where `before` is the character in front. -/
def step (before : Option Char) (c : Char) (cs : List Char) : Step :=
  if Text.isBlank c then
    { kind := none, text := [c], rest := cs, newlines := lineFeeds c }
  else if startsWord c then word (c :: cs)
  else if startsNumber (c :: cs) then number (c :: cs)
  else if c = '"' then stringLiteral cs
  else if c = '\'' then charLiteral cs
  else if c = '/' && cs.head? = some '/' then lineComment cs.tail
  else if c = '/' && cs.head? = some '*' then blockComment cs.tail
  else if (c = '+' || c = '-') && signFolds before && startsNumber cs then signedNumber c cs
  else if Word.isOperator (String.ofList [c]) then operator c cs
  else { kind := some .error, text := [c], rest := cs }

/-! ## No character is lost -/

private theorem word_text_append_rest (cs : List Char) : (word cs).text ++ (word cs).rest = cs := by
  simp [word]

private theorem mantissa_text_append_rest (hasPoint : Bool) (cs : List Char) :
    (mantissa hasPoint cs).text ++ (mantissa hasPoint cs).rest = cs := by
  fun_induction mantissa hasPoint cs <;> simp_all [Mantissa.cons]

private theorem exponentSign_append (cs : List Char) :
    (exponentSign cs).1 ++ (exponentSign cs).2 = cs := by
  cases cs with
  | nil => rfl
  | cons c cs => simp only [exponentSign]; split <;> rfl

private theorem withSuffix_text_append_rest (isFloat : Bool) (text cs : List Char) :
    (withSuffix isFloat text cs).text ++ (withSuffix isFloat text cs).rest = text ++ cs := by
  cases cs with
  | nil => rfl
  | cons c cs => simp only [withSuffix]; split <;> simp

private theorem withExponent_text_append_rest (isFloat : Bool) (text cs : List Char) :
    (withExponent isFloat text cs).text ++ (withExponent isFloat text cs).rest = text ++ cs := by
  cases cs with
  | nil => exact withSuffix_text_append_rest isFloat text []
  | cons c cs =>
    simp only [withExponent]
    split
    · have h := exponentSign_append cs
      split
      · simp [h]
      · rw [withSuffix_text_append_rest]
        simp [h]
    · exact withSuffix_text_append_rest isFloat text (c :: cs)

/-- Scanning a number loses no character. -/
theorem number_text_append_rest (cs : List Char) :
    (number cs).text ++ (number cs).rest = cs := by
  have h := mantissa_text_append_rest false cs
  simp only [number]
  split
  · exact h
  · rw [withExponent_text_append_rest, h]

private theorem quoted_text_append_rest (cs : List Char) :
    (quoted cs).text ++ (quoted cs).rest = cs := by
  fun_induction quoted cs <;> simp_all [Quoted.append]

private theorem closeChar_text_append_rest (text cs : List Char) :
    (closeChar text cs).text ++ (closeChar text cs).rest = text ++ cs := by
  unfold closeChar
  split <;> simp

private theorem charLiteral_text_append_rest (cs : List Char) :
    (charLiteral cs).text ++ (charLiteral cs).rest = '\'' :: cs := by
  unfold charLiteral
  split <;> simp [closeChar_text_append_rest]

private theorem commentBody_text_append_rest (cs : List Char) :
    (commentBody cs).text ++ (commentBody cs).rest = cs := by
  fun_induction commentBody cs <;> simp_all [Quoted.append]

private theorem extendOperator_append (text cs : List Char) :
    (extendOperator text cs).1 ++ (extendOperator text cs).2 = text ++ cs := by
  fun_induction extendOperator text cs <;> simp_all

/-- The text that a step takes and the text that it leaves make up the whole. -/
theorem step_text_append_rest (before : Option Char) (c : Char) (cs : List Char) :
    (step before c cs).text ++ (step before c cs).rest = c :: cs := by
  unfold step
  repeat' split
  · rfl
  · exact word_text_append_rest _
  · exact number_text_append_rest _
  · simp_all [stringLiteral, quoted_text_append_rest]
  · simp_all [charLiteral_text_append_rest]
  · cases cs <;> simp_all [lineComment]
  · cases cs <;> simp_all [blockComment, commentBody_text_append_rest]
  · simp [signedNumber, number_text_append_rest]
  · simpa [operator] using extendOperator_append [c] cs
  · rfl

private theorem closeChar_text_ne_nil {text : List Char} (cs : List Char) (h : text ≠ []) :
    (closeChar text cs).text ≠ [] := by
  unfold closeChar
  split <;> simp [h]

private theorem withSuffix_text_ne_nil {text : List Char} (isFloat : Bool) (cs : List Char)
    (h : text ≠ []) : (withSuffix isFloat text cs).text ≠ [] := by
  cases cs with
  | nil => exact h
  | cons c cs => simp only [withSuffix]; split <;> simp [h]

private theorem withExponent_text_ne_nil {text : List Char} (isFloat : Bool) (cs : List Char)
    (h : text ≠ []) : (withExponent isFloat text cs).text ≠ [] := by
  cases cs with
  | nil => exact withSuffix_text_ne_nil isFloat [] h
  | cons c cs =>
    simp only [withExponent]
    split
    · split
      · simp
      · exact withSuffix_text_ne_nil _ _ (by simp)
    · exact withSuffix_text_ne_nil _ _ h

private theorem mantissa_text_ne_nil {cs : List Char} (h : startsNumber cs = true) :
    (mantissa false cs).text ≠ [] := by
  cases cs with
  | nil => simp [startsNumber] at h
  | cons c cs =>
    simp only [mantissa]
    split
    · simp [Mantissa.cons]
    · split
      · simp [Mantissa.cons]
      · simp_all [startsNumber]

/-- A number has at least one character. -/
theorem number_text_ne_nil {cs : List Char} (h : startsNumber cs = true) :
    (number cs).text ≠ [] := by
  have hm := mantissa_text_ne_nil h
  simp only [number]
  split
  · exact hm
  · exact withExponent_text_ne_nil _ _ hm

private theorem extendOperator_text_ne_nil {text : List Char} (cs : List Char) (h : text ≠ []) :
    (extendOperator text cs).1 ≠ [] := by
  fun_induction extendOperator text cs <;> simp_all

/-- Every character that starts a word also goes on with one. -/
theorem continuesWord_of_startsWord {c : Char} (h : startsWord c = true) :
    continuesWord c = true := by
  simp only [startsWord, Bool.or_eq_true] at h
  rcases h with h | h <;> simp [continuesWord, Char.isAlphanum, h]

/-- A step takes at least one character. -/
theorem step_text_ne_nil (before : Option Char) (c : Char) (cs : List Char) :
    (step before c cs).text ≠ [] := by
  unfold step
  repeat' split
  · simp
  · rename_i h
    simp [word, continuesWord_of_startsWord h]
  · rename_i h
    exact number_text_ne_nil h
  · simp [stringLiteral]
  · unfold charLiteral
    split <;> exact closeChar_text_ne_nil _ (by simp)
  · simp [lineComment]
  · simp [blockComment]
  · simp [signedNumber]
  · exact extendOperator_text_ne_nil cs (by simp)
  · simp

/-- A step shortens the text. -/
theorem step_rest_length_lt (before : Option Char) (c : Char) (cs : List Char) :
    (step before c cs).rest.length < (c :: cs).length := by
  have h := congrArg List.length (step_text_append_rest before c cs)
  have hpos := List.length_pos_iff.2 (step_text_ne_nil before c cs)
  simp only [List.length_append] at h
  omega

/-! ## Pieces and tokens -/

/-- A lexeme with its kind and line. -/
structure Piece where
  kind : Kind
  text : List Char
  line : Nat
  deriving DecidableEq

/-- The lexemes of a text in order. `before` is the character in front of the text and `line` the
line on which it starts. -/
def pieces (before : Option Char) (line : Nat) (cs : List Char) : List Piece :=
  match cs with
  | [] => []
  | c :: cs =>
    let s := step before c cs
    let more := pieces s.text.getLast? (line + s.newlines) s.rest
    match s.kind with
    | some kind => { kind, text := s.text, line } :: more
    | none => more
termination_by cs.length
decreasing_by exact step_rest_length_lt before c cs

/-- Whether the lexeme is a number, possibly malformed, that took in the sign before it. Only
operators start with a sign otherwise. -/
def Piece.hasSign (p : Piece) : Bool :=
  p.kind ≠ .operator && p.text.head?.any fun c => c = '+' || c = '-'

/-- Numbers a lexeme. A sign that is part of a number is numbered on its own first. -/
def Piece.toToken (known : Interner) (p : Piece) : Token × Interner :=
  let known := if p.hasSign then (known.intern (String.ofList (p.text.take 1))).2 else known
  let lexeme := String.ofList p.text
  let (id, known) := known.intern lexeme
  ({ kind := p.kind, lexeme, line := p.line, id }, known)

/-- Numbers the lexemes of a text in order. -/
def internAll (known : Interner) : List Piece → List Token × Interner
  | [] => ([], known)
  | p :: ps =>
    let (token, known) := p.toToken known
    let (tokens, known) := internAll known ps
    (token :: tokens, known)

/-- The tokens of a text, numbered on from what `known` has met. -/
def tokens (known : Interner) (source : String) : List Token × Interner :=
  internAll known (pieces none 1 source.toList)

end ClassLang.Scan

namespace ClassLang

/-- The tokens of a text, numbered from one. -/
def tokenize (source : String) : List Token :=
  (Scan.tokens .empty source).1

end ClassLang
