import ClassLang.Analysis.Program
import ClassLang.Grammar.Program
import ClassLang.Session.CompileError
import ClassLang.Target.SourceUnit
import ClassLang.Token.Dump

/-!
# Sessions

A session compiles any number of texts with the same settings. The numbers of lexemes are shared
by all of them.

## Main definitions

* `ClassLang.Settings`: the settings of a session.
* `ClassLang.Session`: the settings and the lexemes met so far.
* `ClassLang.Session.tokenize`, `ClassLang.Session.parse`, `ClassLang.Session.check`,
  `ClassLang.Session.compile`: the stages of a compilation, and all of them.
-/

set_option autoImplicit false

namespace ClassLang

/-- Settings of a compilation. -/
structure Settings where
  /-- Whether a check ends at its first error. -/
  failFast : Bool := false
  layout : Target.Layout := {}

/-- The settings, and the lexemes met so far. -/
structure Session where
  settings : Settings := {}
  interner : Interner := .empty

namespace Session

/-- The tokens of a text. -/
def tokenize (s : Session) (source : String) : List Token × Session :=
  let (tokens, interner) := Scan.tokens s.interner source
  (tokens, { s with interner })

/-- The program that a text is. -/
def parse (s : Session) (source : String) : Except SyntaxError Program × Session :=
  let (tokens, s) := s.tokenize source
  (Program.ofTokens tokens, s)

/-- The program in a file. There is no content if the file does not exist. -/
def parseFile (s : Session) (path : String) (content : Option String) :
    Except SyntaxError Program × Session :=
  match content with
  | some source => s.parse source
  | none => (.error ⟨.missingFile path, 0⟩, s)

/-- The program that a dump of tokens is. Its lexemes are not numbered anew. -/
def parseDump (dump : ByteArray) : Except SyntaxError Program :=
  Program.ofFeed (Dump.read (Dump.ofBytes dump))

/-- The errors of a program. -/
def check (s : Session) (p : Program) : List SemanticError :=
  p.errors s.settings.failFast

/-- The source file for a program, if it has no errors. -/
def generate (s : Session) (p : Program) : Except CompileError String :=
  match s.check p with
  | [] =>
    match p.generate s.settings.layout with
    | .ok text => .ok text
    | .error e => .error (.generation e)
  | errors => .error (.semantic errors)

/-- The source file for the program that a text is. -/
def compile (s : Session) (source : String) : Except CompileError String × Session :=
  match s.parse source with
  | (.ok p, s) => (s.generate p, s)
  | (.error e, s) => (.error (.parse e), s)

/-- The lexeme of a number. -/
def lexeme? (s : Session) (id : Nat) : Option String :=
  s.interner.lexeme? id

end Session

end ClassLang
