import ClassLang.Target.StmtLines

/-!
# Generated source files

A program becomes one source file: the headers, the helper that formats numbers if it is called,
the fields of all classes as global variables, the prototypes of the methods, and the methods as
functions.

## Main definitions

* `ClassLang.Target.Layout`: the choices of layout.
* `ClassLang.Target.SourceUnit`: the parts of a source file.
* `ClassLang.Target.SourceUnit.ofProgram`: the parts for a program.
* `ClassLang.Target.SourceUnit.text`: the text of a source file.
* `ClassLang.Program.generate`: the text for a program.
-/

set_option autoImplicit false

namespace ClassLang.Target

/-- Choices of layout. -/
structure Layout where
  /-- Blanks for each level of nesting. -/
  indentWidth : Nat := 4
  /-- Whether functions are announced before they are defined. -/
  prototypes : Bool := true

/-- The parts of a source file. -/
structure SourceUnit where
  needs : Needs
  globals : List Line
  prototypes : List Line
  functions : List (List Line)

/-- The text of a parameter. Arrays and containers are shared with the caller. -/
def parameterText (p : Parameter) : Emit String := do
  let type ← typeText p.type
  if p.type.dimensions > 0 || isContainer p.type then return type ++ "& " ++ p.name
  else return type ++ " " ++ p.name

/-- The texts of parameters. -/
def parameterTexts : List Parameter → Emit (List String)
  | [] => return []
  | p :: ps => do
    let text ← parameterText p
    return text :: (← parameterTexts ps)

/-- The name of the entry point of a program. -/
def entryPoint : String := "main"

/-- The head of a function. The entry point has a fixed one. -/
def signatureText (d : MethodDecl) : Emit String := do
  if d.name = entryPoint then return "int main(int argc, char* argv[])"
  let result ← typeText d.returnType
  let params ← parameterTexts d.params
  return result ++ " " ++ d.name ++ "(" ++ ", ".intercalate params ++ ")"

/-- The names in scope in the body of a method. The parameters of the entry point are not among
them. -/
def Env.enter (env : Env) (d : MethodDecl) : Env :=
  let params := if d.name = entryPoint then [] else (d.params.map fun p => (p.name, p.type)).reverse
  { env with scopes := [params], inMain := d.name = entryPoint, returnType := some d.returnType }

/-- The lines of a function. -/
def functionLines (env : Env) (d : MethodDecl) : Emit (List Line) := do
  let signature ← signatureText d
  let lines ← stmtsLines (env.enter d) 1 d.body.stmts
  return ⟨0, signature⟩ :: ⟨0, "\x7b"⟩ :: lines ++ [⟨0, "\x7d"⟩]

/-- The lines of functions. -/
def functionsLines (env : Env) : List MethodDecl → Emit (List (List Line))
  | [] => return []
  | d :: ds => do
    let lines ← functionLines env d
    return lines :: (← functionsLines env ds)

/-- The lines of global variables. -/
def globalLines (env : Env) : List FieldDecl → Emit (List Line)
  | [] => return []
  | d :: ds => do
    let text ← declarationText env d.type d.name d.init
    return ⟨0, text ++ ";"⟩ :: (← globalLines env ds)

/-- The lines of prototypes. The entry point needs none. -/
def prototypeLines : List MethodDecl → Emit (List Line)
  | [] => return []
  | d :: ds => do
    if d.name = entryPoint then prototypeLines ds
    else
      let text ← signatureText d
      return ⟨0, text ++ ";"⟩ :: (← prototypeLines ds)

/-- Headers that are always needed. -/
def startNeeds : Needs where
  headers := [.iostream, .string]

/-- The helper that formats numbers with as few digits as a number needs, and at least one behind
the point. -/
def numberFormatLines : List Line :=
  [⟨0, "std::string format_number(double value, int digits)"⟩,
    ⟨0, "\x7b"⟩,
    ⟨1, "std::ostringstream out;"⟩,
    ⟨1, "out << std::setprecision(digits) << value;"⟩,
    ⟨1, "std::string text = out.str();"⟩,
    ⟨1, "if (text.find_first_of(\".en\") == std::string::npos) \x7b"⟩,
    ⟨2, "text += \".0\";"⟩,
    ⟨1, "\x7d"⟩,
    ⟨1, "return text;"⟩,
    ⟨0, "\x7d"⟩]

namespace SourceUnit

/-- Generates the parts of a source file one after the other. -/
def emit (p : Program) (prototypes : Bool) : Emit (List Line × List Line × List (List Line)) := do
  let env := Env.ofProgram p
  let globals ← globalLines env p.fields
  let heads ← if prototypes then prototypeLines p.methods else pure []
  let functions ← functionsLines env p.methods
  return (globals, heads, functions)

/-- The parts of the source file for a program. -/
def ofProgram (p : Program) (prototypes : Bool) : Except Unsupported SourceUnit :=
  match (emit p prototypes).runFrom startNeeds with
  | (.ok (globals, heads, functions), needs) =>
    .ok { needs, globals, prototypes := heads, functions }
  | (.error e, _) => .error e

/-- Lines with a blank line behind them, if there are any. -/
def paragraph (lines : List Line) : List Line :=
  if lines.isEmpty then [] else lines ++ [⟨0, ""⟩]

/-- Groups of lines with a blank line between two of them. -/
def spaced : List (List Line) → List Line
  | [] => []
  | [lines] => lines
  | lines :: rest => lines ++ ⟨0, ""⟩ :: spaced rest

/-- The lines behind the headers and the helper. -/
def bodyLines (u : SourceUnit) : List Line :=
  paragraph u.globals ++ paragraph u.prototypes ++ spaced u.functions

/-- The lines of the headers and of the helper. -/
def headLines (u : SourceUnit) : List Line :=
  u.needs.sortedHeaders.map (fun h => ⟨0, h.includeLine⟩) ++ [⟨0, ""⟩] ++
    if u.needs.numberFormat then paragraph numberFormatLines else []

/-- The text of a source file. -/
def text (width : Nat) (u : SourceUnit) : String :=
  String.join ((u.headLines ++ u.bodyLines).map fun line => line.render width ++ "\n")

end SourceUnit

end ClassLang.Target

namespace ClassLang

/-- The text of the source file for a program. -/
def Program.generate (p : Program) (layout : Target.Layout) : Except Target.Unsupported String := do
  let u ← Target.SourceUnit.ofProgram p layout.prototypes
  return u.text layout.indentWidth

end ClassLang
