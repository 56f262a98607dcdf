import ClassLang.Number.Integer
import ClassLang.Text.Blank
import ClassLang.Text.Cut
import ClassLang.Token.Feed

/-!
# Token dumps

A dump is a text with one line for each token. The lexeme stands between two marks and is written
as it is; a string literal with line feeds in it therefore takes several lines.

## Main definitions

* `ClassLang.Dump.write`: the dump of a list of tokens.
* `ClassLang.Dump.read`: the feed of tokens and errors that the lines of a dump give.
-/

set_option autoImplicit false

namespace ClassLang.Dump

/-! ## Writing -/

/-- The line of a token, without the line feed that ends it. -/
def line (t : Token) : String :=
  "Token: " ++ t.kind.name ++ " Lexem: @" ++ t.lexeme ++ "@ Line: " ++ toString t.line ++
    " Id: " ++ toString t.id

/-- The dump of a list of tokens. -/
def write (tokens : List Token) : String :=
  String.join (tokens.map fun t => line t ++ "\n")

/-! ## Lines -/

/-- A line of a dump as it was read, without its line feed. -/
inductive RawLine where
  | text (cs : List Char)
  /-- The bytes of the line are not valid UTF-8. -/
  | undecodable
  deriving DecidableEq

/-- The lines of a text. -/
def ofText (text : String) : List RawLine :=
  (Text.lines '\n' text.toList).map .text

/-- The lines of a sequence of bytes. Each line is decoded on its own. -/
def ofBytes (bytes : ByteArray) : List RawLine :=
  (Text.lines (10 : UInt8) bytes.toList).map fun line =>
    match String.fromUTF8? ⟨line.toArray⟩ with
    | some text => .text text.toList
    | none => .undecodable

/-! ## Reading -/

/-- The mark at the start of a line. -/
def startMark : List Char := "Token: ".toList

/-- The mark in front of the lexeme. -/
def lexemeMark : List Char := " Lexem: @".toList

/-- The mark behind the lexeme. -/
def lineMark : List Char := "@ Line: ".toList

/-- The mark in front of the number of the lexeme. -/
def idMark : List Char := " Id: ".toList

/-- Whether a line breaks off inside a lexeme: a string literal starts and its end is not there.
The lexeme then goes on with the next line. -/
def breaksOff (text : List Char) : Bool :=
  match Text.behind? startMark text with
  | none => false
  | some body =>
    match Text.cut lexemeMark body with
    | none => false
    | some (_, lexeme) => lexeme.head? = some '"' && !Text.contains lineMark lexeme

/-- Line numbers and lexeme numbers are below this bound. -/
def numberBound : Nat := Nat.pow 2 32

/-- The token that a complete line stands for. A lexeme may contain the mark that ends it, so the
last one counts. -/
def parseLine (text : List Char) : Except DumpFault Token := do
  let some body := Text.behind? startMark text | throw .noMark
  let some (kindName, body) := Text.cut lexemeMark body | throw .noLexeme
  let some kind := Kind.ofName? (String.ofList kindName) | throw .unknownKind
  let some (lexeme, body) := Text.cutLast lineMark body | throw .noLine
  let some (lineText, idText) := Text.cut idMark body | throw .noId
  let some line := Number.readBelow? numberBound (Text.trim lineText) | throw .badLine
  let some id := Number.readBelow? numberBound (Text.trim idText) | throw .badId
  return { kind, lexeme := String.ofList lexeme, line, id }

/-- The token of a complete line that starts at line `start` of the dump. Carriage returns at its
end do not count. -/
def complete (start : Nat) (text : List Char) : Except SyntaxError Token :=
  let text := Text.dropEndWhile (· = '\r') text
  match parseLine text with
  | .ok token => .ok token
  | .error fault => .error ⟨.malformedDump fault (String.ofList text), start⟩

/-- Reads the lines of a dump, of which `count` have been read before. `pending` is a line that
broke off inside a lexeme, with the number of its first line. Blank lines are passed over; an
undecodable line is not counted. -/
def readFrom (count : Nat) (pending : Option (Nat × List Char)) : List RawLine → Feed
  | [] =>
    match pending with
    | none => []
    | some (start, text) => [.error ⟨.malformedDump .unterminated (String.ofList text), start⟩]
  | .undecodable :: rest => .error ⟨.undecodableDump, 0⟩ :: readFrom count none rest
  | .text cs :: rest =>
    match pending with
    | none =>
      if (Text.trim cs).isEmpty then readFrom (count + 1) none rest
      else if breaksOff cs then readFrom (count + 1) (some (count + 1, cs)) rest
      else complete (count + 1) cs :: readFrom (count + 1) none rest
    | some (start, text) =>
      let text := text ++ '\n' :: cs
      if breaksOff text then readFrom (count + 1) (some (start, text)) rest
      else complete start text :: readFrom (count + 1) none rest

/-- Reads the lines of a dump. After an error the reading goes on with the next line. -/
def read (lines : List RawLine) : Feed :=
  readFrom 0 none lines

end ClassLang.Dump
