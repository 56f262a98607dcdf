import ClassLang.CommandLine.Options
import ClassLang.Syntax.Outline

/-!
# Running a command

A command reads its input file, and answers with a text to print, a text to write to a file, or
reports of failure.

## Main definitions

* `ClassLang.CommandLine.Reply`: what a command answers.
* `ClassLang.CommandLine.Invocation.reply`: the answer of a command to the content of its file.
* `ClassLang.CommandLine.Files`: files by their paths.
* `ClassLang.CommandLine.run`: the program as a function of its arguments and of the files.
-/

set_option autoImplicit false

namespace ClassLang.CommandLine

/-- What a command answers. -/
inductive Reply where
  /-- A text for the standard output. -/
  | print (text : String)
  /-- A text for a file. -/
  | write (path text : String)
  /-- Lines for the standard error output. -/
  | fail (lines : List String)

/-- The reason why a file that does not exist cannot be used. -/
def missingReason : String := "No such file or directory (os error 2)"

/-- The reason why a file that is no text cannot be read. -/
def undecodableReason : String := "stream did not contain valid UTF-8"

/-- The line for a failed attempt to use a file. -/
def fileFailure (attempt path reason : String) : String :=
  "error: failed to " ++ attempt ++ " " ++ path ++ ": " ++ reason

/-- Prints a text, or writes it to a file. -/
def Reply.to (output : Option String) (text : String) : Reply :=
  match output with
  | some path => .write path text
  | none => .print text

/-- The answer of a stage of a compilation. -/
def Reply.ofResult {α : Type} (answer : α → Reply) : Except CompileError α → Reply
  | .ok value => answer value
  | .error e => .fail e.diagnostics

/-- The answer to the text of a file, if it can be read. -/
def Reply.ofText (path : String) (content : Option ByteArray) (answer : String → Reply) : Reply :=
  match content with
  | none => .fail [fileFailure "read" path missingReason]
  | some bytes =>
    match String.fromUTF8? bytes with
    | none => .fail [fileFailure "read" path undecodableReason]
    | some text => answer text

/-- A program, or why there is none. -/
def parsed (result : Except SyntaxError Program) : Except CompileError Program :=
  match result with
  | .ok p => .ok p
  | .error e => .error (.parse e)

/-- A program without errors. -/
def checked (s : Session) (p : Program) : Except CompileError Program :=
  match s.check p with
  | [] => .ok p
  | errors => .error (.semantic errors)

namespace Invocation

/-- The answer to the content of the input file. There is none if the file does not exist. -/
def reply (i : Invocation) (content : Option ByteArray) : Reply :=
  let s : Session := { settings := i.settings }
  match i.command with
  | .lex input output =>
    .ofText input content fun source => .to output (Dump.write (s.tokenize source).1)
  | .parse input true =>
    match content with
    | none => .fail [fileFailure "open" input missingReason]
    | some dump =>
      .ofResult (fun p => .print p.outline.render) (parsed (Session.parseDump dump))
  | .parse input false =>
    .ofText input content fun source =>
      .ofResult (fun p => .print p.outline.render) (parsed (s.parse source).1)
  | .check input =>
    .ofText input content fun source =>
      .ofResult (fun _ => .print (input ++ ": no errors found\n"))
        (parsed (s.parse source).1 >>= checked s)
  | .compile input output =>
    .ofText input content fun source => .ofResult (.to output) (s.compile source).1

end Invocation

/-! ## Outcomes -/

/-- What a run of the program leaves behind. -/
structure Outcome where
  status : Nat
  stdout : String := ""
  stderr : String := ""

/-- The name and version of the program. -/
def versionText : String := "java2cpp 0.1.0\n"

/-- How the program is used. -/
def usageText : String :=
  "Usage: java2cpp [OPTIONS] <COMMAND>\n\n" ++
    "Commands:\n" ++
    "  lex FILE [-o FILE]      Print the token stream in the staging format\n" ++
    "  parse FILE [--from-dump]  Parse a source file and print the syntax tree\n" ++
    "  check FILE              Run semantic analysis without generating code\n" ++
    "  compile FILE [-o FILE]  Compile a source file to C++\n\n" ++
    "Options:\n" ++
    "  -v, --verbose    Raise log verbosity\n" ++
    "      --fail-fast  Stop semantic analysis at the first error\n" ++
    "      --indent N   Spaces per indentation level in generated code\n" ++
    "      --no-prototypes  Do not emit forward declarations for methods\n" ++
    "  -h, --help       Print help\n" ++
    "  -V, --version    Print version\n"

namespace Outcome

/-- A run that succeeds. -/
def success (stdout : String) : Outcome :=
  { status := 0, stdout }

/-- A run that fails with some reports. -/
def failure (lines : List String) : Outcome :=
  { status := 1, stderr := String.join (lines.map (· ++ "\n")) }

/-- A run without a command. -/
def ofRefusal : Refusal → Outcome
  | .usage => { status := 2, stderr := "error: invalid arguments\n\n" ++ usageText }
  | .version => success versionText
  | .help => success usageText

/-- A run that writes to a file, successfully or not. -/
def ofWrite (path : String) (written : Bool) : Outcome :=
  if written then success "" else failure [fileFailure "write" path missingReason]

end Outcome

/-! ## Files -/

/-- The parts of a path. -/
def pathParts (path : String) : List String :=
  (path.splitOn "/").filter fun part => part ≠ "" && part ≠ "."

/-- Files by the parts of their paths. -/
structure Files where
  entries : List (List String × ByteArray) := []

namespace Files

/-- The content of a file. -/
def read? (files : Files) (path : String) : Option ByteArray :=
  if path.startsWith "/" then none else files.entries.lookup (pathParts path)

/-- Whether there is a folder. The folder at hand always exists, and others if they hold a
file. -/
def hasFolder (files : Files) (parts : List String) : Bool :=
  parts.isEmpty || files.entries.any fun (path, _) => parts.isPrefixOf path && parts ≠ path

/-- Sets the content of a file, if its folder exists. -/
def write? (files : Files) (path : String) (content : ByteArray) : Option Files :=
  let parts := pathParts path
  if path.startsWith "/" || parts.isEmpty || !files.hasFolder parts.dropLast then none
  else some { entries := (parts, content) :: files.entries.filter (·.1 ≠ parts) }

/-- Files by their paths. -/
def ofList (files : List (String × ByteArray)) : Files where
  entries := files.map fun (path, content) => (pathParts path, content)

end Files

/-- Runs the program on arguments and files. -/
def run (args : List String) (files : Files) : Outcome × Files :=
  match Invocation.ofArgs args with
  | .error refusal => (.ofRefusal refusal, files)
  | .ok i =>
    match i.reply (files.read? i.command.input) with
    | .print text => (.success text, files)
    | .fail lines => (.failure lines, files)
    | .write path text =>
      match files.write? path text.toUTF8 with
      | some files => (.ofWrite path true, files)
      | none => (.ofWrite path false, files)

end ClassLang.CommandLine
