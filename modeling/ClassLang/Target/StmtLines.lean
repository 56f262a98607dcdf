import ClassLang.Target.ExprText

/-!
# Statements in generated code

A statement is written as lines, each at a depth of nesting. What a depth is in blanks is decided
later.

## Main definitions

* `ClassLang.Target.Line`: a text at a depth.
* `ClassLang.Target.stmtLines`, `ClassLang.Target.stmtsLines`, `ClassLang.Target.blockLines`: the
  lines of a statement, of a list of them, and of a block.
-/

set_option autoImplicit false

namespace ClassLang.Target

/-- A line at a depth of nesting. -/
structure Line where
  depth : Nat
  text : String

/-- The line with its indentation, `width` blanks for each level. -/
def Line.render (width : Nat) (line : Line) : String :=
  "".pushn ' ' (line.depth * width) ++ line.text

/-- The text of a declaration. A new container as initial value is left out, because a container
starts empty. -/
def declarationText (env : Env) (type : TypeExpr) (name : String) (init : Option Expr) :
    Emit String := do
  let declared := (← typeText type) ++ " " ++ name
  match init with
  | none => return declared
  | some value =>
    match value, isContainer type with
    | .newObject _ _ _, true => return declared
    | _, _ => return declared ++ " = " ++ (← valueText env (some type) value)

/-- The names in scope after a statement. -/
def Env.after (env : Env) : Stmt → Env
  | .varDecl d => env.declare d.name d.type
  | _ => env

/-- The names in scope after the first clause of a `for` loop. -/
def Env.afterInit (env : Env) : Option ForInit → Env
  | some (.decl d) => env.declare d.name d.type
  | _ => env

/-- The text of the first clause of a `for` loop. -/
def initText (env : Env) : Option ForInit → Emit String
  | none => return ""
  | some (.decl d) => declarationText env d.type d.name d.init
  | some (.expr e) => bareText env e

/-- The text of an expression that may be missing. -/
def optionalText (env : Env) : Option Expr → Emit String
  | none => return ""
  | some e => bareText env e

/-- The line that opens a branch or loop. -/
def opening (word head : String) : String :=
  word ++ " (" ++ head ++ ") \x7b"

/-- Whether a statement is a branch. -/
def isBranch : Stmt → Bool
  | .ifThen _ _ _ | .ifElse _ _ _ _ => true
  | _ => false

/-- The label of an arm of a switch. -/
def labelText (env : Env) : SwitchArm → Emit String
  | .labelled _ label _ => return "case " ++ (← bareText env label) ++ ":"
  | .otherwise _ _ => return "default:"

/-- The text of a `return`. The entry point returns zero. -/
def returnText (env : Env) : Option Expr → Emit String
  | some value => return "return " ++ (← valueText env env.returnType value) ++ ";"
  | none => return if env.inMain then "return 0;" else "return;"

mutual

/-- The lines of a statement at a depth. A branch starts with `lead`. -/
def stmtLines (env : Env) (depth : Nat) (lead : String) : Stmt → Emit (List Line)
  | .varDecl d => return [⟨depth, (← declarationText env d.type d.name d.init) ++ ";"⟩]
  | .block body => do
    let lines ← blockLines env (depth + 1) body
    return ⟨depth, "\x7b"⟩ :: lines ++ [⟨depth, "\x7d"⟩]
  | .ifThen _ condition thenBranch => do
    let head ← bareText env condition
    let lines ← blockLines env (depth + 1) thenBranch
    return ⟨depth, opening (lead ++ "if") head⟩ :: lines ++ [⟨depth, "\x7d"⟩]
  | .ifElse _ condition thenBranch elseBranch => do
    let head ← bareText env condition
    let lines ← blockLines env (depth + 1) thenBranch
    let others ← elseLines env depth elseBranch
    return ⟨depth, opening (lead ++ "if") head⟩ :: lines ++ [⟨depth, "\x7d"⟩] ++ others
  | .whileLoop _ condition body => do
    let head ← bareText env condition
    let lines ← blockLines env (depth + 1) body
    return ⟨depth, opening "while" head⟩ :: lines ++ [⟨depth, "\x7d"⟩]
  | .doWhile _ body condition => do
    let lines ← blockLines env (depth + 1) body
    let last ← bareText env condition
    return ⟨depth, "do \x7b"⟩ :: lines ++ [⟨depth, "\x7d while (" ++ last ++ ");"⟩]
  | .forLoop _ init condition update body => do
    let outer := env.push
    let inner := outer.afterInit init
    let first ← initText outer init
    let second ← optionalText inner condition
    let third ← optionalText inner update
    let lines ← blockLines inner (depth + 1) body
    return ⟨depth, opening "for" (first ++ "; " ++ second ++ "; " ++ third)⟩ :: lines ++
      [⟨depth, "\x7d"⟩]
  | .switch _ condition arms => do
    let head ← bareText env condition
    let lines ← armsLines env depth arms
    return ⟨depth, opening "switch" head⟩ :: lines ++ [⟨depth, "\x7d"⟩]
  | .ret _ value => return [⟨depth, ← returnText env value⟩]
  | .expr e => return [⟨depth, (← bareText env e) ++ ";"⟩]
  | .breakOff _ => return [⟨depth, "break;"⟩]
  | .continueOn _ => return [⟨depth, "continue;"⟩]

/-- The lines of the other side of a branch. A branch alone in its block joins the `else`. -/
def elseLines (env : Env) (depth : Nat) : Block → Emit (List Line)
  | .mk _ stmts =>
    match stmts with
    | [s] => do
      if isBranch s then stmtLines env depth "else " s
      else
        let lines ← stmtLines env.push (depth + 1) "" s
        return ⟨depth, "else \x7b"⟩ :: lines ++ [⟨depth, "\x7d"⟩]
    | stmts => do
      let lines ← stmtsLines env.push (depth + 1) stmts
      return ⟨depth, "else \x7b"⟩ :: lines ++ [⟨depth, "\x7d"⟩]

/-- The lines of statements one after the other. -/
def stmtsLines (env : Env) (depth : Nat) : List Stmt → Emit (List Line)
  | [] => return []
  | s :: ss => do
    let lines ← stmtLines env depth "" s
    return lines ++ (← stmtsLines (env.after s) depth ss)

/-- The lines of the statements of a block, in a scope of their own. -/
def blockLines (env : Env) (depth : Nat) : Block → Emit (List Line)
  | .mk _ stmts => stmtsLines env.push depth stmts

/-- The lines of the arms of a switch. An arm with a declaration has braces, because a declaration
may not be jumped over by a later label. -/
def armsLines (env : Env) (depth : Nat) : List SwitchArm → Emit (List Line)
  | [] => return []
  | arm :: arms => do
    let lines ← armLines env depth arm
    return lines ++ (← armsLines env depth arms)

/-- The lines of an arm of a switch. -/
def armLines (env : Env) (depth : Nat) (arm : SwitchArm) : Emit (List Line) := do
  let label ← labelText env arm
  let lines ← match arm with
    | .labelled _ _ body => blockLines env (depth + 1) body
    | .otherwise _ body => blockLines env (depth + 1) body
  if arm.body.stmts.any Stmt.isVarDecl then
    return ⟨depth, label ++ " \x7b"⟩ :: lines ++ [⟨depth, "\x7d"⟩]
  else
    return ⟨depth, label⟩ :: lines

end

end ClassLang.Target
