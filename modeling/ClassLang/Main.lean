import ClassLang.CommandLine.Run

/-!
# The program

Reads the input file, and prints or writes what the command answers.
-/

set_option autoImplicit false

namespace ClassLang.CommandLine

/-- The content of a file, if it can be read. -/
def readFile (path : String) : IO (Option ByteArray) := do
  try
    return some (← IO.FS.readBinFile path)
  catch _ =>
    return none

/-- Writes a file. The result tells whether that was possible. -/
def writeFile (path text : String) : IO Bool := do
  try
    IO.FS.writeFile path text
    return true
  catch _ =>
    return false

/-- Prints what a run leaves behind. -/
def finish (outcome : Outcome) : IO UInt32 := do
  IO.print outcome.stdout
  IO.eprint outcome.stderr
  return outcome.status.toUInt32

/-- Runs the program on files of the system. -/
def runOnSystem (args : List String) : IO UInt32 := do
  match Invocation.ofArgs args with
  | .error refusal => finish (.ofRefusal refusal)
  | .ok i =>
    match i.reply (← readFile i.command.input) with
    | .print text => finish (.success text)
    | .fail lines => finish (.failure lines)
    | .write path text => finish (.ofWrite path (← writeFile path text))

end ClassLang.CommandLine

/-- The entry point. -/
def main (args : List String) : IO UInt32 :=
  ClassLang.CommandLine.runOnSystem args
