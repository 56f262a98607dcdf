import ClassLang.Proofs.Grammar.Decoding
import ClassLang.Syntax.Program
import Mathlib.Tactic.MkIffOfInductiveProp

set_option autoImplicit false

/-!
# Rendering programs

A program is written down as a list of spellings: every class with `public` in front of it, every
body in braces, and no modifier but `static`. The word of a type carries its dimensions if there are
no type arguments, as `int[][]` does; behind type arguments, dimensions are pairs of brackets. A
local declaration starts with `final` only if its type would not be taken for one otherwise.

## Main definitions

* `ClassLang.TypeExpr.spellings`, `ClassLang.Stmt.spellings`, `ClassLang.Program.spellings` — the
  spellings of types, statements and programs.
* `ClassLang.TypeExpr.Plain`, `ClassLang.Stmt.Plain`, `ClassLang.Program.Plain` — those made of
  plain expressions, names without brackets and literals as labels.
* `ClassLang.Stmt.unlined`, `ClassLang.Program.unlined` — statements and programs without lines.
-/

namespace ClassLang

open ClassLang.Grammar
open Spelling (sign word name)

/-! ## Types -/

/-- The spelling of the word that a type starts with, which is a keyword or a name. -/
def Spelling.typeWord (text : String) : Spelling :=
  (if Word.isKeyword text then .keyword else .identifier, text)

open Spelling (typeWord)

namespace TypeExpr

/-- Pairs of brackets. -/
def pairs : Nat → List Spelling
  | 0 => []
  | dimensions + 1 => sign "[" :: sign "]" :: pairs dimensions

mutual

/-- The spellings of a type. -/
def spellings : TypeExpr → List Spelling
  | mk text [] dimensions => [typeWord (text ++ brackets dimensions)]
  | mk text (arg :: args) dimensions =>
    typeWord text :: sign "<" :: (spellingsOfArgs (arg :: args) ++ pairs dimensions)

/-- The spellings of type arguments with commas between them, up to the closing bracket. -/
def spellingsOfArgs : List TypeExpr → List Spelling
  | [] => [sign ">"]
  | [type] => type.spellings ++ [sign ">"]
  | type :: types => type.spellings ++ sign "," :: spellingsOfArgs types

end

mutual

/-- The types whose names have no brackets, and which name a type where they are keywords. -/
def Plain : TypeExpr → Prop
  | mk text args _ =>
    BracketFree text ∧ (Word.isKeyword text = true → Word.isTypeKeyword text = true) ∧ AllPlain args

/-- Every type of a list is plain. -/
def AllPlain : List TypeExpr → Prop
  | [] => True
  | type :: types => type.Plain ∧ AllPlain types

end

/-- Whether a type with a name behind it is taken for a declaration. A name with type arguments is
not. -/
def isTelling (type : TypeExpr) : Bool :=
  type.args.isEmpty || Word.isKeyword type.name

end TypeExpr

/-! ## Declarations -/

/-- The spellings of a type with a declared name behind it. -/
def declaratorSpellings (type : TypeExpr) (text : String) : List Spelling :=
  type.spellings ++ [name text]

/-- The spellings of an initial value with the sign in front of it. -/
def initSpellings : Option Expr → List Spelling
  | none => []
  | some e => sign "=" :: e.spellings

/-- The spellings of an expression that may be missing. -/
def optionalSpellings : Option Expr → List Spelling
  | none => []
  | some e => e.spellings

/-- The spellings of a local declaration without the semicolon at its end. -/
def VarDecl.spellings (d : VarDecl) : List Spelling :=
  (if d.type.isTelling then [] else [word "final"]) ++
    (declaratorSpellings d.type d.name ++ initSpellings d.init)

/-- The spellings of the first clause of a `for` loop without the semicolon at its end. -/
def ForInit.spellings : ForInit → List Spelling
  | decl d => d.spellings
  | expr e => e.spellings

/-- Declarations of plain types and names without brackets, with a plain initial value. -/
@[mk_iff]
structure VarDecl.Plain (d : VarDecl) : Prop where
  type : d.type.Plain
  name : BracketFree d.name
  init : ∀ e ∈ d.init, e.Plain

/-- Plain first clauses of a `for` loop. -/
def ForInit.Plain : ForInit → Prop
  | decl d => d.Plain
  | expr e => e.Plain

/-- The declaration with line `0` in all places. -/
def VarDecl.unlined (d : VarDecl) : VarDecl :=
  { d with init := d.init.map Expr.unlined, line := 0 }

/-- The first clause of a `for` loop with line `0` in all places. -/
def ForInit.unlined : ForInit → ForInit
  | decl d => decl d.unlined
  | expr e => expr e.unlined

/-! ## Statements -/

/-- The spellings of a condition in parentheses. -/
def conditionSpellings (e : Expr) : List Spelling :=
  sign "(" :: (e.spellings ++ [sign ")"])

/-- The spellings of the three clauses of a `for` loop, up to the closing parenthesis. -/
def clauseSpellings (init : Option ForInit) (condition update : Option Expr) : List Spelling :=
  (init.map ForInit.spellings).getD [] ++ (sign ";" :: (optionalSpellings condition ++
    (sign ";" :: (optionalSpellings update ++ [sign ")"]))))

mutual

/-- The spellings of a statement. -/
def Stmt.spellings : Stmt → List Spelling
  | .varDecl d => d.spellings ++ [sign ";"]
  | .block body => body.spellings
  | .ifThen _ c thenBranch => word "if" :: (conditionSpellings c ++ thenBranch.spellings)
  | .ifElse _ c thenBranch elseBranch =>
    word "if" :: (conditionSpellings c ++
      (thenBranch.spellings ++ word "else" :: elseBranch.spellings))
  | .whileLoop _ c body => word "while" :: (conditionSpellings c ++ body.spellings)
  | .doWhile _ body c =>
    word "do" :: (body.spellings ++ word "while" :: (conditionSpellings c ++ [sign ";"]))
  | .forLoop _ init c update body =>
    word "for" :: sign "(" :: (clauseSpellings init c update ++ body.spellings)
  | .switch _ c arms =>
    word "switch" :: (conditionSpellings c ++ sign openBrace :: SwitchArm.spellingsOfAll arms)
  | .ret _ value => word "return" :: (optionalSpellings value ++ [sign ";"])
  | .expr e => e.spellings ++ [sign ";"]
  | .breakOff _ => [word "break", sign ";"]
  | .continueOn _ => [word "continue", sign ";"]

/-- The spellings of statements one after the other. -/
def Stmt.spellingsOfAll : List Stmt → List Spelling
  | [] => []
  | s :: ss => s.spellings ++ Stmt.spellingsOfAll ss

/-- The spellings of a block in braces. -/
def Block.spellings : Block → List Spelling
  | .mk _ stmts => sign openBrace :: (Stmt.spellingsOfAll stmts ++ [sign closeBrace])

/-- The spellings of an arm of a switch. -/
def SwitchArm.spellings : SwitchArm → List Spelling
  | .labelled _ label (.mk _ stmts) =>
    word "case" :: (label.spellings ++ sign ":" :: Stmt.spellingsOfAll stmts)
  | .otherwise _ (.mk _ stmts) => word "default" :: sign ":" :: Stmt.spellingsOfAll stmts

/-- The spellings of the arms of a switch, up to the closing brace. -/
def SwitchArm.spellingsOfAll : List SwitchArm → List Spelling
  | [] => [sign closeBrace]
  | arm :: arms => arm.spellings ++ SwitchArm.spellingsOfAll arms

end

/-- Literals that may label a case, with a text of their value. -/
def Expr.IsLabel : Expr → Prop
  | literal _ l => l.Consistent ∧ l.value ≠ .null
  | _ => False

mutual

/-- The statements made of plain expressions, plain declarations and literals as labels. -/
def Stmt.Plain : Stmt → Prop
  | .varDecl d => d.Plain
  | .block body => body.Plain
  | .ifThen _ c thenBranch => c.Plain ∧ thenBranch.Plain
  | .ifElse _ c thenBranch elseBranch => c.Plain ∧ thenBranch.Plain ∧ elseBranch.Plain
  | .whileLoop _ c body => c.Plain ∧ body.Plain
  | .doWhile _ body c => body.Plain ∧ c.Plain
  | .forLoop _ init c update body =>
    (∀ i ∈ init, i.Plain) ∧ (∀ e ∈ c, e.Plain) ∧ (∀ e ∈ update, e.Plain) ∧ body.Plain
  | .switch _ c arms => c.Plain ∧ SwitchArm.AllPlain arms
  | .ret _ value => ∀ e ∈ value, e.Plain
  | .expr e => e.Plain
  | .breakOff _ | .continueOn _ => True

/-- Every statement of a list is plain. -/
def Stmt.AllPlain : List Stmt → Prop
  | [] => True
  | s :: ss => s.Plain ∧ Stmt.AllPlain ss

/-- Every statement of a block is plain. -/
def Block.Plain : Block → Prop
  | .mk _ stmts => Stmt.AllPlain stmts

/-- The label of an arm is a literal, and its statements are plain. -/
def SwitchArm.Plain : SwitchArm → Prop
  | .labelled _ label body => label.IsLabel ∧ body.Plain
  | .otherwise _ body => body.Plain

/-- Every arm of a list is plain. -/
def SwitchArm.AllPlain : List SwitchArm → Prop
  | [] => True
  | arm :: arms => arm.Plain ∧ SwitchArm.AllPlain arms

end

mutual

/-- The statement with line `0` in all places. -/
def Stmt.unlined : Stmt → Stmt
  | .varDecl d => .varDecl d.unlined
  | .block body => .block body.unlined
  | .ifThen _ c thenBranch => .ifThen 0 c.unlined thenBranch.unlined
  | .ifElse _ c thenBranch elseBranch => .ifElse 0 c.unlined thenBranch.unlined elseBranch.unlined
  | .whileLoop _ c body => .whileLoop 0 c.unlined body.unlined
  | .doWhile _ body c => .doWhile 0 body.unlined c.unlined
  | .forLoop _ init c update body =>
    .forLoop 0 (init.map ForInit.unlined) (c.map Expr.unlined) (update.map Expr.unlined)
      body.unlined
  | .switch _ c arms => .switch 0 c.unlined (SwitchArm.unlinedAll arms)
  | .ret _ value => .ret 0 (value.map Expr.unlined)
  | .expr e => .expr e.unlined
  | .breakOff _ => .breakOff 0
  | .continueOn _ => .continueOn 0

/-- Several statements with line `0` in all places. -/
def Stmt.unlinedAll : List Stmt → List Stmt
  | [] => []
  | s :: ss => s.unlined :: Stmt.unlinedAll ss

/-- The block with line `0` in all places. -/
def Block.unlined : Block → Block
  | .mk _ stmts => .mk 0 (Stmt.unlinedAll stmts)

/-- The arm with line `0` in all places. -/
def SwitchArm.unlined : SwitchArm → SwitchArm
  | .labelled _ label body => .labelled 0 label.unlined body.unlined
  | .otherwise _ body => .otherwise 0 body.unlined

/-- Several arms with line `0` in all places. -/
def SwitchArm.unlinedAll : List SwitchArm → List SwitchArm
  | [] => []
  | arm :: arms => arm.unlined :: SwitchArm.unlinedAll arms

end

/-! ## Classes -/

/-- The spellings of a parameter. -/
def Parameter.spellings (q : Parameter) : List Spelling :=
  declaratorSpellings q.type q.name

/-- The spellings of parameters with commas between them, up to the closing parenthesis. -/
def Parameter.spellingsOfAll : List Parameter → List Spelling
  | [] => [sign ")"]
  | [q] => q.spellings ++ [sign ")"]
  | q :: qs => q.spellings ++ sign "," :: spellingsOfAll qs

/-- The spellings of the modifiers of a member. -/
def staticSpellings (isStatic : Bool) : List Spelling :=
  if isStatic then [word "static"] else []

/-- The spellings of a member of a class. -/
def Member.spellings : Member → List Spelling
  | field d =>
    staticSpellings d.isStatic ++ (declaratorSpellings d.type d.name ++
      (initSpellings d.init ++ [sign ";"]))
  | method d =>
    staticSpellings d.isStatic ++ (declaratorSpellings d.returnType d.name ++
      (sign "(" :: (Parameter.spellingsOfAll d.params ++ d.body.spellings)))

/-- The spellings of a class. -/
def ClassDecl.spellings (c : ClassDecl) : List Spelling :=
  word "public" :: word "class" :: Spelling.name c.name :: sign openBrace ::
    (c.members.flatMap Member.spellings ++ [sign closeBrace])

/-- The spellings of a program. -/
def Program.spellings (p : Program) : List Spelling :=
  p.classes.flatMap ClassDecl.spellings

/-- Parameters of plain types, with names without brackets. -/
@[mk_iff]
structure Parameter.Plain (q : Parameter) : Prop where
  type : q.type.Plain
  name : BracketFree q.name

/-- Members made of plain types, names without brackets, plain initial values and plain
statements. -/
def Member.Plain : Member → Prop
  | field d => d.type.Plain ∧ BracketFree d.name ∧ ∀ e ∈ d.init, e.Plain
  | method d =>
    d.returnType.Plain ∧ BracketFree d.name ∧ (∀ q ∈ d.params, q.Plain) ∧ d.body.Plain

/-- Programs with at least one class, and with plain members only. -/
structure Program.Plain (p : Program) : Prop where
  classes : p.classes ≠ []
  members : ∀ c ∈ p.classes, ∀ m ∈ c.members, m.Plain

/-- The parameter with line `0`. -/
def Parameter.unlined (q : Parameter) : Parameter :=
  { q with line := 0 }

/-- The member with line `0` in all places. -/
def Member.unlined : Member → Member
  | field d => field { d with init := d.init.map Expr.unlined, line := 0 }
  | method d =>
    method { d with params := d.params.map Parameter.unlined, body := d.body.unlined, line := 0 }

/-- The class with line `0` in all places. -/
def ClassDecl.unlined (c : ClassDecl) : ClassDecl :=
  { c with members := c.members.map Member.unlined, line := 0 }

/-- The program with line `0` in all places. -/
def Program.unlined (p : Program) : Program where
  classes := p.classes.map ClassDecl.unlined
  line := 0

end ClassLang
