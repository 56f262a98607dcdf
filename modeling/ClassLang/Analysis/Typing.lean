import ClassLang.Analysis.Error
import ClassLang.Scope.Builtin
import ClassLang.Scope.Chain
import ClassLang.Syntax.Expr
import ClassLang.Ty.Assignable
import ClassLang.Ty.Generic

/-!
# Types of expressions

An expression has a type in a chain of scopes, or a first error. Operands are looked at from left
to right, and each before the expression that they belong to.

## Main definitions

* `ClassLang.Typing.resolveType`: the type that a written type stands for.
* `ClassLang.Typing.typeOf`: the type of an expression.
* `ClassLang.Typing.targetType`: the type of the slot that an assignment writes to.
* `ClassLang.Typing.typeExpecting`: the type of an expression whose value goes to a slot of a known
  type.
* `ClassLang.Typing.checkInitializer`: the check of the initial value of a slot.
-/

set_option autoImplicit false

namespace ClassLang.Typing

/-- A value or the first error. -/
abbrev Typed (α : Type) := Except SemanticError α

/-- An error under a line. -/
def fail {α : Type} (line : Nat) (cause : SemanticError.Cause) : Typed α :=
  .error ⟨cause, line⟩

/-- An error under a line, unless a condition holds. -/
def ensure (condition : Bool) (line : Nat) (cause : SemanticError.Cause) : Typed Unit :=
  if condition then .ok () else fail line cause

/-! ## Written types -/

mutual

/-- The type that a written type stands for. Names of classes are looked up in the global scope;
type arguments count only for generic classes. -/
def resolveType (s : Scopes) (line : Nat) : TypeExpr → Typed Ty
  | .mk name args dimensions => do
    let element ← match Builtin.primitive? name with
      | some type => .ok type
      | none =>
        match s.class? name with
        | none => fail line (.unknownType name)
        | some c =>
          if c.isGeneric then do
            let args ← resolveTypes s line args
            .ok (.generic (.named name) args)
          else .ok (.named name)
    .ok (.arrayOf element dimensions)

/-- The types that several written types stand for. -/
def resolveTypes (s : Scopes) (line : Nat) : List TypeExpr → Typed (List Ty)
  | [] => .ok []
  | type :: types => do
    let t ← resolveType s line type
    let ts ← resolveTypes s line types
    .ok (t :: ts)

end

/-! ## Rules without operands -/

/-- The type of a literal. -/
def literalType : Literal.Value → Ty
  | .int _ => .int
  | .float _ => .float
  | .double _ => .double
  | .boolean _ => .boolean
  | .char _ => .char
  | .string _ => .string
  | .null => .null

/-- The type of a name as a value. The name of a class stands for its objects, so that the members
of a class can be reached through its name. -/
def nameType (s : Scopes) (line : Nat) (name : String) : Typed Ty :=
  match s.resolve name with
  | none => fail line (.undefinedVariable name)
  | some symbol =>
    if symbol.isVar || symbol.isClass then .ok symbol.type else fail line (.notAVariable name)

/-- The type of a name as a slot. -/
def slotType (s : Scopes) (line : Nat) (name : String) : Typed Ty :=
  match s.resolve name with
  | none => fail line (.undefinedVariable name)
  | some symbol => if symbol.isVar then .ok symbol.type else fail line (.notAVariable name)

/-- The type of a new object. -/
def newObjectType (s : Scopes) (line : Nat) (type : TypeExpr) : Typed Ty := do
  let created ← resolveType s line type
  match created.className? with
  | some name =>
    ensure created.isClass line (.newNonClass type.text)
    ensure (s.class? name).isSome line (.classNotFound type.name)
    .ok created
  | none => fail line (.newNonClass type.text)

/-! ## Rules on the types of operands -/

/-- The wider of two numeric types. -/
def wider (left right : Ty) : Ty :=
  if left.isAssignableTo right then right else left

/-- The type of an arithmetic operation; `+` also joins a string with anything. -/
def arithType? (op : Arith) (left right : Ty) : Option Ty :=
  if op = .add && (left = .string || right = .string) then some .string
  else if left.isNumeric && right.isNumeric then some (wider left right)
  else none

/-- The type of an operation that is no assignment. -/
def operationType? (op : BinaryOp) (left right : Ty) : Option Ty :=
  match op with
  | .arith op => arithType? op left right
  | .equal | .notEqual =>
    if left.isCompatibleWith right || right.isCompatibleWith left ||
        (left.isNumeric && right.isNumeric) then
      some .boolean
    else none
  | .order _ => if left.isNumeric && right.isNumeric then some .boolean else none
  | .and | .or => if left = .boolean && right = .boolean then some .boolean else none
  | .assign _ => none

/-- The type of a compound assignment to a slot of type `left`. -/
def compoundType (line : Nat) (op : Arith) (isSlot : Bool) (left right : Ty) : Typed Ty := do
  ensure isSlot line .notAssignable
  match arithType? op left right with
  | none => fail line .invalidOperation
  | some result =>
    ensure (result.isAssignableTo left) line
      (.compoundMismatch (BinaryOp.assign op).text left right)
    .ok left

/-- The type of an operation with two operands; `isSlot` tells whether the left one can be
assigned to. -/
def binaryType (line : Nat) (op : BinaryOp) (isSlot : Bool) (left right : Ty) : Typed Ty :=
  match op with
  | .assign op => compoundType line op isSlot left right
  | op =>
    match operationType? op left right with
    | some type => .ok type
    | none => fail line (.binaryOperandMismatch op.text left right)

/-- The type of an operation with one operand. -/
def unaryType (line : Nat) (op : UnaryOp) (operand : Ty) : Typed Ty :=
  let accepted : Bool := match op with
    | .not => operand = .boolean
    | _ => operand.isNumeric
  if accepted then .ok operand else fail line (.unaryOperandMismatch op.text operand)

/-- The type of a member of an object of type `object`. -/
def memberType (s : Scopes) (line objectLine : Nat) (object : Ty) (name : String) : Typed Ty :=
  match object.className? with
  | none => fail objectLine (.fieldOnNonClass object)
  | some className => do
    ensure object.isClass objectLine (.fieldOnNonClass object)
    match s.class? className with
    | none => fail line (.classNotFound className)
    | some c =>
      match c.members.get? name with
      | none => fail line (.fieldNotFound name object.text)
      | some symbol => .ok symbol.type

/-- The type of a field of an object of type `object`; arrays have a length. -/
def fieldType (s : Scopes) (line objectLine : Nat) (object : Ty) (name : String) : Typed Ty :=
  if object.isArray && name = "length" then .ok .int
  else memberType s line objectLine object name

/-- Whether a call prints. -/
def isPrint (receiver : Ty) (name : String) : Bool :=
  receiver = .named "PrintStream" && (name = "println" || name = "print")

/-- The signature of a method as a receiver sees it: its type arguments are put in. -/
structure Signature where
  result : Ty
  params : List Ty

/-- The signature of a method of a receiver. -/
def methodSignature (s : Scopes) (line : Nat) (receiver : Ty) (name : String) : Typed Signature :=
  match receiver.className? >>= s.class? with
  | none => fail line (.receiverClassNotFound receiver.text)
  | some c =>
    match c.members.get? name with
    | some (.function _ result params _) =>
      let bound := Ty.bindings c.typeParams receiver
      .ok ⟨result.substitute bound, params.map fun (_, type) => type.substitute bound⟩
    | _ => fail line (.receiverMethodNotFound name receiver.text)

/-- Checks the arguments of a call of a method of the class at hand. The first of them stands at
`position`. -/
def checkPassed (method : String) (position : Nat) : List Ty → List (Nat × Ty) → Typed Unit
  | param :: params, (line, found) :: rest => do
    ensure (found.isCompatibleWith param) line (.argumentMismatch position method)
    checkPassed method (position + 1) params rest
  | _, _ => .ok ()

/-- The type of a call of a method of the class at hand, from the lines and types of its
arguments. -/
def callType (s : Scopes) (line : Nat) (name : String) (args : List (Nat × Ty)) : Typed Ty :=
  match s.resolveMember name with
  | none => fail line (.undefinedMethod name)
  | some (.function _ result params _) => do
    ensure (params.length = args.length) line (.callArity name params.length args.length)
    checkPassed name 1 (params.map (·.2)) args
    .ok result
  | some _ => fail line (.notAMethod name)

/-- The type of an element that is read. -/
def elementType (line : Nat) (array : Ty) : Typed Ty := do
  ensure array.isArray line (.nonArrayAccess none)
  .ok array.elementType

/-- What an expression of type `found` is taken for where a value of type `expected` goes:
`new C<>()` takes its type arguments from there. -/
def adopt (e : Expr) (expected found : Ty) : Ty :=
  match e with
  | .newObject _ _ true =>
    if expected.isGeneric && found.genericBase? = expected.genericBase? then expected else found
  | _ => found

/-! ## Expressions -/

mutual

/-- The type of an expression. -/
def typeOf (s : Scopes) : Expr → Typed Ty
  | .literal _ l => .ok (literalType l.value)
  | .var line name => nameType s line name
  | .binary line op left right => do
    let l ← typeOf s left
    let r ← typeOf s right
    binaryType line op left.isLValue l r
  | .unary line op operand => do
    let t ← typeOf s operand
    unaryType line op t
  | .call line name args => do
    let types ← typesOf s args
    callType s line name types
  | .methodCall line receiver name args => do
    let r ← typeOf s receiver
    if isPrint r name then
      ensure (args.length ≤ 1) line .printArity
      let _ ← typesOf s args
      .ok .void
    else
      let signature ← methodSignature s line r name
      ensure (signature.params.length = args.length) line
        (.receiverArity signature.params.length args.length)
      checkArguments s signature.params args
      .ok signature.result
  | .index line array place => do
    let a ← typeOf s array
    let element ← elementType line a
    let i ← typeOf s place
    ensure (i = .int) place.line (.nonNumericIndex none)
    .ok element
  | .field line object name => do
    let o ← typeOf s object
    fieldType s line object.line o name
  | .newObject line type _ => newObjectType s line type
  | .newArray line type size _ => do
    let n ← typeOf s size
    ensure (n = .int) size.line (.arraySizeNotInt n)
    resolveType s line type
  | .assign line target value => do
    let t ← targetType s target
    let found ← typeOf s value
    let v := adopt value t found
    ensure (v.isCompatibleWith t) line (.cannotAssign v t .var)
    .ok t
  | .arrayInit line elements =>
    match elements with
    | [] => .ok (.array .void)
    | first :: rest => do
      let t ← typeOf s first
      checkAlike s line t rest
      .ok (.array t)

/-- The type of the slot that an assignment writes to. -/
def targetType (s : Scopes) : Expr → Typed Ty
  | .var line name => slotType s line name
  | .index _ array place => do
    let a ← typeOf s array
    let i ← typeOf s place
    ensure a.isArray array.line (.nonArrayAccess (some a))
    ensure i.isNumeric place.line (.nonNumericIndex (some i))
    .ok a.elementType
  | .field line object name => do
    let o ← typeOf s object
    memberType s line object.line o name
  | other => fail other.line .invalidAssignmentTarget

/-- The lines and types of several expressions. -/
def typesOf (s : Scopes) : List Expr → Typed (List (Nat × Ty))
  | [] => .ok []
  | e :: es => do
    let t ← typeOf s e
    let ts ← typesOf s es
    .ok ((e.line, t) :: ts)

/-- Checks that arguments fit the parameters that they are for. -/
def checkArguments (s : Scopes) (params : List Ty) : List Expr → Typed Unit
  | [] => .ok ()
  | e :: es =>
    match params with
    | [] => .ok ()
    | expected :: params => do
      let found ← typeOf s e
      ensure (found.isCompatibleWith expected) e.line (.parameterMismatch expected found)
      checkArguments s params es

/-- Checks that the further elements of an array fit the first, which has type `expected`. -/
def checkAlike (s : Scopes) (line : Nat) (expected : Ty) : List Expr → Typed Unit
  | [] => .ok ()
  | e :: es => do
    let found ← typeOf s e
    ensure (found.isCompatibleWith expected) line .inconsistentArrayElements
    checkAlike s line expected es

end

/-- The type of an expression whose value goes to a slot of type `expected`. -/
def typeExpecting (s : Scopes) (e : Expr) (expected : Ty) : Typed Ty := do
  let found ← typeOf s e
  .ok (adopt e expected found)

/-- Checks the elements that an array with elements of type `expected` starts with. -/
def checkElements (s : Scopes) (expected : Ty) : List Expr → Typed Unit
  | [] => .ok ()
  | e :: es => do
    let found ← typeExpecting s e expected
    ensure (found.isCompatibleWith expected) e.line (.arrayElementMismatch expected found)
    checkElements s expected es

/-- Checks the initial value of a slot. The elements in braces for an array are checked one by
one. -/
def checkInitializer (s : Scopes) (declared : Ty) (slot : Slot) (init : Expr) : Typed Unit :=
  match declared, init with
  | .array element, .arrayInit _ elements => checkElements s element elements
  | _, _ => do
    let found ← typeExpecting s init declared
    ensure (found.isCompatibleWith declared) init.line (.cannotAssign found declared slot)

end ClassLang.Typing
