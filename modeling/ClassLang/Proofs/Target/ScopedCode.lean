import ClassLang.Proofs.Target.Sites
import Mathlib.Data.List.Basic

set_option autoImplicit false

/-!
# Generated code with its scopes

Of generated code only the names of variables and the scopes are kept: where a variable is declared,
where one is mentioned, and what is in a scope of its own. The parameters of a function are in one
scope with the top level of its body, and so is the variable of a loop with the top level of the
body of the loop.

## Main definitions

* `ClassLang.Target.Code` — names and scopes in the order of the text.
* `ClassLang.Target.declared`, `ClassLang.Target.undeclared` — the names that code declares, and the
  names that it mentions without declaring them.
* `ClassLang.Target.Spells` — a text has the names and scopes of some code.
* `ClassLang.Target.Site.mentions` — the variables that an expression is written with.
* `ClassLang.Target.Site.stmtCode` — the code of a statement.
* `ClassLang.Program.globalCode`, `ClassLang.Program.functionCodes` — the code of a program.
-/

namespace ClassLang

namespace Target

/-! ## Code and texts -/

/-- Generated code as far as its scopes are concerned. -/
inductive Code where
  | mention (name : String)
  | declare (name : String)
  | scope (body : List Code)

/-- The name that is declared. -/
def Code.declares? : Code → Option String
  | declare name => some name
  | mention _ | scope _ => none

/-- The names that code declares outside of its inner scopes. -/
def declared (code : List Code) : List String :=
  code.filterMap Code.declares?

mutual

/-- The names that are mentioned in code without being declared before in the same scope or around
it. The names in `known` are declared already. -/
def undeclared (known : List String) : List Code → List String
  | [] => []
  | c :: cs => c.undeclaredIn known ++ undeclared (known ++ c.declares?.toList) cs

/-- The names that are mentioned in one piece of code without being declared. -/
def Code.undeclaredIn (known : List String) : Code → List String
  | .mention name => if name ∈ known then [] else [name]
  | .declare _ => []
  | .scope body => undeclared known body

end

/-- A text has the names of code at their places. What is between them is left open, but each scope
starts with a bracket and ends with a closing brace. -/
inductive Spells : String → List Code → Prop where
  | plain (s : String) : Spells s []
  | mention (name : String) : Spells name [.mention name]
  | declare (name : String) : Spells name [.declare name]
  | scope {bracket s : String} {body : List Code} (hbracket : bracket ∈ ["(", "\x7b"])
      (h : Spells s body) : Spells (bracket ++ s ++ "\x7d") [.scope body]
  | append {s t : String} {code more : List Code} (hs : Spells s code) (ht : Spells t more) :
      Spells (s ++ t) (code ++ more)

/-! ## Mentions -/

namespace Site

/-- Whether a name stands for a variable. -/
def namesVar (w : Site) (name : String) : Bool :=
  (w.scopes.resolve name).any Symbol.isVar

/-- Whether a class has a field of a given name. -/
def hasField (w : Site) (object : Expr) (name : String) : Bool :=
  match object with
  | .var _ c => (w.scopes.class? c).any fun info => (info.members.get? name).any Symbol.isVar
  | _ => false

mutual

/-- The variables that an expression is written with, from left to right. The name of a class in
front of one of its members is left out, and so are the output stream and all but the first item to
print. -/
def mentions (w : Site) : Expr → List String
  | .literal _ _ | .newObject _ _ _ => []
  | .var _ name => if w.namesVar name then [name] else []
  | .binary _ _ left right => w.mentions left ++ w.mentions right
  | .unary _ _ operand => w.mentions operand
  | .call _ _ args => w.mentionsAll args
  | .methodCall _ receiver _ args =>
    if isOutput receiver then w.mentionsFirst args
    else if w.env.isClassName receiver then w.mentionsAll args
    else w.mentions receiver ++ w.mentionsAll args
  | .index _ array key => w.mentions array ++ w.mentions key
  | .field _ object name =>
    if w.env.isClassName object then if w.hasField object name then [name] else []
    else w.mentions object
  | .newArray _ _ size _ => w.mentions size
  | .assign _ target value => w.mentions target ++ w.mentions value
  | .arrayInit _ elements => w.mentionsAll elements

/-- The variables that several expressions are written with. -/
def mentionsAll (w : Site) : List Expr → List String
  | [] => []
  | e :: es => w.mentions e ++ w.mentionsAll es

/-- The variables that the first of several expressions is written with. -/
def mentionsFirst (w : Site) : List Expr → List String
  | [] => []
  | e :: _ => w.mentions e

end

end Site

/-! ## Statements as code -/

/-- Code in a scope of its own, or not. -/
def scopeIf (braces : Bool) (code : List Code) : List Code :=
  if braces then [.scope code] else code

/-- Whether the other side of a branch is a branch alone, which joins its `else`. -/
def joinsElse : List Stmt → Bool
  | [s] => isBranch s
  | _ => false

namespace Site

/-- The code of an expression. -/
def exprCode (w : Site) (e : Expr) : List Code :=
  (w.mentions e).map .mention

/-- The code of an expression that may be missing. -/
def optionalCode (w : Site) : Option Expr → List Code
  | none => []
  | some e => w.exprCode e

/-- The code of a declaration. The name is declared before its initial value. -/
def declCode (w : Site) (name : String) (init : Option Expr) : List Code :=
  .declare name :: w.optionalCode init

/-- The code of the first clause of a `for` loop. -/
def initCode (w : Site) : Option ForInit → List Code
  | none => []
  | some (.decl d) => (w.within d).declCode d.name d.init
  | some (.expr e) => w.exprCode e

mutual

/-- The code of a statement. -/
def stmtCode (w : Site) : Stmt → List Code
  | .varDecl d => (w.within d).declCode d.name d.init
  | .block body => [.scope (w.blockCode body)]
  | .ifThen _ c thenBranch => w.exprCode c ++ [.scope (w.blockCode thenBranch)]
  | .ifElse _ c thenBranch elseBranch =>
    w.exprCode c ++ ([.scope (w.blockCode thenBranch)] ++ w.elseCode elseBranch)
  | .whileLoop _ c body => w.exprCode c ++ [.scope (w.blockCode body)]
  | .doWhile _ body c => [.scope (w.blockCode body)] ++ w.exprCode c
  | .forLoop _ init c update body =>
    let inner := w.push.afterInit init
    [.scope (w.push.initCode init ++ (inner.optionalCode c ++ (inner.optionalCode update ++
      inner.blockCode body)))]
  | .switch _ c arms => w.exprCode c ++ [.scope (w.armsCode arms)]
  | .ret _ value => w.optionalCode value
  | .expr e => w.exprCode e
  | .breakOff _ | .continueOn _ => []

/-- The code of statements one after the other. -/
def stmtsCode (w : Site) : List Stmt → List Code
  | [] => []
  | s :: ss => w.stmtCode s ++ (w.after s).stmtsCode ss

/-- The code of a block. -/
def blockCode (w : Site) : Block → List Code
  | .mk _ ss => w.push.stmtsCode ss

/-- The code of the other side of a branch. -/
def elseCode (w : Site) : Block → List Code
  | .mk _ ss => scopeIf (!joinsElse ss) ((w.otherwise ss).stmtsCode ss)

/-- The code of an arm of a switch. Only an arm with a declaration has a scope of its own. -/
def armCode (w : Site) : SwitchArm → List Code
  | .labelled _ label body =>
    w.exprCode label ++ scopeIf (body.stmts.any Stmt.isVarDecl) (w.blockCode body)
  | .otherwise _ body => scopeIf (body.stmts.any Stmt.isVarDecl) (w.blockCode body)

/-- The code of the arms of a switch. -/
def armsCode (w : Site) : List SwitchArm → List Code
  | [] => []
  | arm :: arms => w.armCode arm ++ w.armsCode arms

end

end Site

/-- The names of the parameters of a function. The entry point has a fixed head. -/
def functionParams (d : MethodDecl) : List String :=
  if d.name = entryPoint then ["argc", "argv"] else d.params.map Parameter.name

/-- The code of the scope of a function: its parameters and the top level of its body. -/
def Site.functionCode (w : Site) (d : MethodDecl) : List Code :=
  (functionParams d).map .declare ++ (w.enter d).stmtsCode d.body.stmts

end Target

/-! ## Programs -/

open Target

namespace Program

/-- What the classes of a program hold, with the sites of the classes, from the scopes that the
check of the program leaves behind. -/
def sited {α : Type} (p : Program) (s : Scopes) (items : ClassDecl → List α) : List (Site × α) :=
  p.classes.flatMap fun c => (items c).map fun x => (.ofClass s p c.name, x)

/-- The code of the global variables of a program. -/
def globalCode (p : Program) (s : Scopes) : List Code :=
  (p.sited s ClassDecl.fields).flatMap fun f => f.1.declCode f.2.name f.2.init

/-- The methods of a program with the code of their functions. -/
def functionCodes (p : Program) (s : Scopes) : List (MethodDecl × List Code) :=
  (p.sited s ClassDecl.methods).map fun f => (f.2, f.1.functionCode f.2)

/-- The code of a program. -/
def code (p : Program) (s : Scopes) : List Code :=
  p.globalCode s ++ (p.functionCodes s).map fun f => .scope f.2

variable {α : Type} {p : Program} {s : Scopes} {items : ClassDecl → List α}

lemma map_sited (p : Program) (s : Scopes) (items : ClassDecl → List α) :
    (p.sited s items).map Prod.snd = p.classes.flatMap items := by
  simp [sited, List.map_flatMap, Function.comp_def]

lemma exists_of_mem_sited {f : Site × α} (h : f ∈ p.sited s items) :
    ∃ c ∈ p.classes, f.2 ∈ items c ∧ f.1 = .ofClass s p c.name := by
  obtain ⟨c, hc, h⟩ := List.mem_flatMap.1 h
  obtain ⟨x, hx, rfl⟩ := List.mem_map.1 h
  exact ⟨c, hc, hx, rfl⟩

lemma env_of_mem_sited {f : Site × α} (h : f ∈ p.sited s items) : f.1.env = .ofProgram p := by
  obtain ⟨c, -, -, hsite⟩ := exists_of_mem_sited h
  rw [hsite]
  rfl

end Program

end ClassLang
