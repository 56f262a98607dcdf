import ClassLang.Number.Integer
import ClassLang.Session.Basic

/-!
# Arguments of the command line

A command comes with a file and options. Options that concern every command may stand in front of
it and behind it; where both are given, the one behind counts.

## Main definitions

* `ClassLang.CommandLine.Command`: what is to be done.
* `ClassLang.CommandLine.Invocation`: a command with its settings.
* `ClassLang.CommandLine.Invocation.ofArgs`: reading the arguments.
-/

set_option autoImplicit false

namespace ClassLang.CommandLine

/-- Commands, each with its input file. -/
inductive Command where
  /-- Writes the tokens of a text. -/
  | lex (input : String) (output : Option String)
  /-- Writes the outline of a program. -/
  | parse (input : String) (fromDump : Bool)
  /-- Checks a program. -/
  | check (input : String)
  /-- Writes the source file for a program. -/
  | compile (input : String) (output : Option String)
  deriving DecidableEq

/-- The input file of a command. -/
def Command.input : Command → String
  | lex input _ | parse input _ | check input | compile input _ => input

/-- Why the arguments are no command to run. -/
inductive Refusal where
  /-- The arguments make no sense. -/
  | usage
  /-- The version is asked for. -/
  | version
  /-- Help is asked for. -/
  | help
  deriving DecidableEq

/-- The names of commands. -/
inductive Verb where
  | lex
  | parse
  | check
  | compile
  deriving DecidableEq

/-- The word for a command. -/
def Verb.text : Verb → String
  | lex => "lex"
  | parse => "parse"
  | check => "check"
  | compile => "compile"

/-- The command that a word stands for. -/
def Verb.ofText? (word : String) : Option Verb :=
  [lex, parse, check, compile].find? fun verb => verb.text = word

/-! ## Options -/

/-- Options. -/
inductive Opt where
  | verbose
  | failFast
  | indent
  | noPrototypes
  | output
  | fromDump
  | help
  | version
  deriving DecidableEq

namespace Opt

/-- The long name of an option, behind two dashes. -/
def long : Opt → String
  | verbose => "verbose"
  | failFast => "fail-fast"
  | indent => "indent"
  | noPrototypes => "no-prototypes"
  | output => "output"
  | fromDump => "from-dump"
  | help => "help"
  | version => "version"

/-- The letter of an option, behind one dash. -/
def short? : Opt → Option Char
  | verbose => some 'v'
  | output => some 'o'
  | help => some 'h'
  | version => some 'V'
  | _ => none

/-- Whether an option has a value. -/
def takesValue : Opt → Bool
  | indent | output => true
  | _ => false

/-- The options of every command. -/
def shared : List Opt :=
  [verbose, failFast, indent, noPrototypes, help]

/-- The options in front of the command. -/
def beforeVerb : List Opt :=
  version :: shared

/-- The options behind a command. -/
def afterVerb : Verb → List Opt
  | .lex | .compile => output :: shared
  | .parse => fromDump :: shared
  | .check => shared

end Opt

/-- What is given in front of a command, or behind it. -/
structure Given where
  failFast : Bool := false
  indent : Option Nat := none
  noPrototypes : Bool := false
  output : Option String := none
  fromDump : Bool := false
  input : Option String := none

namespace Given

/-- Indentation widths are below this bound. -/
def widthBound : Nat := Nat.pow 2 64

/-- Adds an option with its value. Options may not be repeated, except for `verbose`, which has no
effect. -/
def add (g : Given) (opt : Opt) (value : String) : Except Refusal Given :=
  match opt with
  | .verbose => .ok g
  | .failFast => if g.failFast then .error .usage else .ok { g with failFast := true }
  | .noPrototypes => if g.noPrototypes then .error .usage else .ok { g with noPrototypes := true }
  | .fromDump => if g.fromDump then .error .usage else .ok { g with fromDump := true }
  | .indent =>
    match g.indent, Number.readBelow? widthBound value.toList with
    | none, some width => .ok { g with indent := some width }
    | _, _ => .error .usage
  | .output =>
    if g.output.isSome || value.isEmpty then .error .usage
    else .ok { g with output := some value }
  | .help => .error .help
  | .version => .error .version

/-- Adds the input file. There may be only one. -/
def addInput (g : Given) (path : String) : Except Refusal Given :=
  if g.input.isSome || path.isEmpty then .error .usage else .ok { g with input := some path }

/-- Adds several input files. -/
def addInputs (g : Given) : List String → Except Refusal Given
  | [] => .ok g
  | path :: paths => do
    let g ← g.addInput path
    g.addInputs paths

end Given

/-! ## Reading -/

/-- Whether an argument cannot be the value of an option in front of it. -/
def isDashed (arg : String) : Bool :=
  arg.startsWith "-" && arg ≠ "-"

/-- Reads letters behind one dash. The result is an option that still wants its value, if the
last letter is one. -/
def readLetters (opts : List Opt) (g : Given) : List Char → Except Refusal (Given × Option Opt)
  | [] => .ok (g, none)
  | c :: rest =>
    match opts.find? fun opt => opt.short? = some c with
    | none => .error .usage
    | some opt =>
      if opt.takesValue then
        match rest with
        | [] => .ok (g, some opt)
        | '=' :: value => do return (← g.add opt (String.ofList value), none)
        | value => do return (← g.add opt (String.ofList value), none)
      else do
        let g ← g.add opt ""
        readLetters opts g rest

/-- Reads a word behind two dashes. The result is an option that still wants its value, if the
word gives none. -/
def readWord (opts : List Opt) (g : Given) (word : List Char) :
    Except Refusal (Given × Option Opt) :=
  let name := String.ofList (word.takeWhile (· ≠ '='))
  match opts.find? fun opt => opt.long = name, word.dropWhile (· ≠ '=') with
  | none, _ => .error .usage
  | some opt, [] =>
    if opt.takesValue then .ok (g, some opt) else do return (← g.add opt "", none)
  | some opt, _ :: value =>
    if opt.takesValue then do return (← g.add opt (String.ofList value), none)
    else .error .usage

/-- Reads one argument that starts with a dash. -/
def readDashed (opts : List Opt) (g : Given) (arg : String) :
    Except Refusal (Given × Option Opt) :=
  match arg.toList with
  | '-' :: '-' :: word => readWord opts g word
  | _ :: letters => readLetters opts g letters
  | [] => .error .usage

/-- Reads an argument that starts with a dash, with the argument behind it as the value that it
may want. The result tells whether the value was taken. -/
def readOption (opts : List Opt) (g : Given) (arg : String) (next : Option String) :
    Except Refusal (Given × Bool) :=
  match readDashed opts g arg, next with
  | .error e, _ => .error e
  | .ok (g, none), _ => .ok (g, false)
  | .ok (_, some _), none => .error .usage
  | .ok (g, some opt), some value =>
    if isDashed value then .error .usage else do return (← g.add opt value, true)

/-- Reads options up to the first argument that is none. The result has the arguments from there
on. -/
def readOptions (opts : List Opt) (g : Given) : List String → Except Refusal (Given × List String)
  | [] => .ok (g, [])
  | arg :: args =>
    if arg = "--" || !isDashed arg then .ok (g, arg :: args)
    else
      match readOption opts g arg args.head?, args with
      | .error e, _ => .error e
      | .ok (g, true), _ :: args => readOptions opts g args
      | .ok (g, _), args => readOptions opts g args

/-- Reads the arguments behind a command: options and the input file in any order. Behind two
dashes everything is an input file. -/
def readBehind (opts : List Opt) (g : Given) : List String → Except Refusal Given
  | [] => .ok g
  | arg :: args =>
    if arg = "--" then g.addInputs args
    else if !isDashed arg then
      match g.addInput arg with
      | .error e => .error e
      | .ok g => readBehind opts g args
    else
      match readOption opts g arg args.head?, args with
      | .error e, _ => .error e
      | .ok (g, true), _ :: args => readBehind opts g args
      | .ok (g, _), args => readBehind opts g args

/-- A command with its settings. -/
structure Invocation where
  command : Command
  settings : Settings

namespace Invocation

/-- The command of a verb with what is given behind it. -/
def command? (verb : Verb) (g : Given) : Option Command :=
  g.input.map fun input =>
    match verb with
    | .lex => .lex input g.output
    | .parse => .parse input g.fromDump
    | .check => .check input
    | .compile => .compile input g.output

/-- The settings from what is given in front of a command and behind it. -/
def settings? (front behind : Given) : Settings where
  failFast := front.failFast || behind.failFast
  layout :=
    { indentWidth := (behind.indent <|> front.indent).getD 4
      prototypes := !(front.noPrototypes || behind.noPrototypes) }

/-- What the word `help` asks for, with the words behind it. -/
def helpRefusal : List String → Refusal
  | [] => .help
  | [word] => if word = "help" || (Verb.ofText? word).isSome then .help else .usage
  | _ => .usage

/-- Reads the arguments of the program. -/
def ofArgs (args : List String) : Except Refusal Invocation := do
  match ← readOptions Opt.beforeVerb {} args with
  | (_, []) => .error .usage
  | (front, word :: args) =>
    match Verb.ofText? word with
    | none => .error (if word = "help" then helpRefusal args else .usage)
    | some verb =>
      let behind ← readBehind (Opt.afterVerb verb) {} args
      match command? verb behind with
      | none => .error .usage
      | some command => .ok { command, settings := settings? front behind }

end Invocation

end ClassLang.CommandLine
