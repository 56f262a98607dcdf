import ClassLang.Syntax.Stmt

/-!
# Programs

## Main definitions

* `ClassLang.Program`, `ClassLang.ClassDecl`, `ClassLang.Member`: a program is a list of classes,
  and a class a list of fields and methods.
-/

set_option autoImplicit false

namespace ClassLang

/-- A field of a class. -/
structure FieldDecl where
  name : String
  type : TypeExpr
  init : Option Expr
  isStatic : Bool
  line : Nat

/-- A parameter of a method. -/
structure Parameter where
  name : String
  type : TypeExpr
  line : Nat

/-- A method of a class. -/
structure MethodDecl where
  name : String
  returnType : TypeExpr
  params : List Parameter
  body : Block
  isStatic : Bool
  line : Nat

/-- Members of a class. -/
inductive Member where
  | field (decl : FieldDecl)
  | method (decl : MethodDecl)

/-- A class. -/
structure ClassDecl where
  name : String
  members : List Member
  line : Nat

/-- A program. -/
structure Program where
  classes : List ClassDecl
  line : Nat

namespace Member

/-- The field that a member is. -/
def field? : Member → Option FieldDecl
  | field decl => some decl
  | method _ => none

/-- The method that a member is. -/
def method? : Member → Option MethodDecl
  | field _ => none
  | method decl => some decl

end Member

namespace ClassDecl

/-- The fields of a class in order. -/
def fields (c : ClassDecl) : List FieldDecl :=
  c.members.filterMap Member.field?

/-- The methods of a class in order. -/
def methods (c : ClassDecl) : List MethodDecl :=
  c.members.filterMap Member.method?

theorem mem_fields {c : ClassDecl} {d : FieldDecl} : d ∈ c.fields ↔ Member.field d ∈ c.members := by
  refine List.mem_filterMap.trans ⟨fun ⟨m, hm, hfield⟩ => ?_, fun hm => ⟨_, hm, rfl⟩⟩
  cases m with
  | field d' => exact Option.some.inj hfield ▸ hm
  | method d' => cases hfield

theorem mem_methods {c : ClassDecl} {d : MethodDecl} :
    d ∈ c.methods ↔ Member.method d ∈ c.members := by
  refine List.mem_filterMap.trans ⟨fun ⟨m, hm, hmethod⟩ => ?_, fun hm => ⟨_, hm, rfl⟩⟩
  cases m with
  | field d' => cases hmethod
  | method d' => exact Option.some.inj hmethod ▸ hm

end ClassDecl

namespace Program

/-- The fields of all classes in order. -/
def fields (p : Program) : List FieldDecl :=
  p.classes.flatMap ClassDecl.fields

/-- The methods of all classes in order. -/
def methods (p : Program) : List MethodDecl :=
  p.classes.flatMap ClassDecl.methods

end Program

end ClassLang
