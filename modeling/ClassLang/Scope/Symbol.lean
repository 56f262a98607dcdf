import ClassLang.Ty.Basic

/-!
# Symbols

What a name may stand for, and tables of symbols by name.

## Main definitions

* `ClassLang.Symbol`: variables, functions, classes and type parameters.
* `ClassLang.Table`: one level of scope, with `ClassLang.Table.get?` and
  `ClassLang.Table.insert`.
-/

set_option autoImplicit false

namespace ClassLang

/-- What a name stands for. -/
inductive Symbol where
  | var (name : String) (type : Ty)
  | function (name : String) (result : Ty) (params : List (String × Ty)) (isStatic : Bool)
  /-- A class with its type parameters and its members. -/
  | classDef (name : String) (typeParams : List String) (members : List Symbol)
  | typeParam (name : String)

namespace Symbol

/-- The name of a symbol. -/
def name : Symbol → String
  | var name _ | function name _ _ _ | classDef name _ _ | typeParam name => name

/-- The type of a symbol. A function has its result type, and a class the type of its objects. -/
def type : Symbol → Ty
  | var _ type => type
  | function _ result _ _ => result
  | classDef name _ _ => .named name
  | typeParam name => .param name

/-- Whether the symbol is a variable. -/
def isVar : Symbol → Bool
  | var _ _ => true
  | _ => false

/-- Whether the symbol is a class. -/
def isClass : Symbol → Bool
  | classDef _ _ _ => true
  | _ => false

end Symbol

/-- One level of scope. Its symbols have different names. -/
abbrev Table := List Symbol

namespace Table

/-- The symbol of a given name. -/
def get? (table : Table) (name : String) : Option Symbol :=
  table.find? fun symbol => symbol.name = name

/-- Adds a symbol, in the place of an earlier one of the same name. -/
def insert : Table → Symbol → Table
  | [], symbol => [symbol]
  | first :: rest, symbol =>
    if first.name = symbol.name then symbol :: rest else first :: insert rest symbol

@[simp]
theorem get?_nil (name : String) : get? [] name = none := rfl

/-- After an insertion the name of the symbol stands for it, and the others for what they stood
for before. -/
@[simp]
theorem get?_insert (table : Table) (symbol : Symbol) (name : String) :
    (table.insert symbol).get? name =
      if symbol.name = name then some symbol else table.get? name := by
  induction table with
  | nil => by_cases h : symbol.name = name <;> simp [insert, get?, h]
  | cons first rest ih =>
    unfold get? at ih
    by_cases h : first.name = symbol.name <;> by_cases hn : symbol.name = name <;>
      by_cases hf : first.name = name <;> simp_all [insert, get?]

end Table

/-- A class as other code sees it: its type parameters and its members. -/
structure ClassInfo where
  typeParams : List String
  members : Table

/-- The class that a symbol is. -/
def Symbol.class? : Symbol → Option ClassInfo
  | classDef _ typeParams members => some ⟨typeParams, members⟩
  | _ => none

/-- Whether a class has type parameters. -/
def ClassInfo.isGeneric (c : ClassInfo) : Bool :=
  !c.typeParams.isEmpty

end ClassLang
