import ClassLang.Target.Env
import ClassLang.Text.Blank

/-!
# Expressions in generated code

An operation with two operands is written in parentheses, which are left out where it stands
alone. A sum with a string in it is one chain of operands, and so is what is printed.

## Main definitions

* `ClassLang.Target.Place`: where an expression stands.
* `ClassLang.Target.render`: the texts that an expression is written as at a place.
* `ClassLang.Target.exprText`, `ClassLang.Target.bareText`: the text of an expression, with and
  without parentheses around all of it.
* `ClassLang.Target.valueText`: the text of a value for a slot of a known type.
-/

set_option autoImplicit false

namespace ClassLang.Target

/-! ## Literals -/

/-- The text of a floating-point number, with a decimal point if it would read as an integer. -/
def withPoint (digits : List Char) : String :=
  let text := String.ofList digits
  if digits.any fun c => c = '.' || c = 'e' || c = 'E' then text else text ++ ".0"

/-- The text of a literal. -/
def literalText (l : Literal) : Emit String :=
  match l.value with
  | .float _ =>
    return withPoint (Text.dropEndWhile (fun c => c = 'f' || c = 'F') l.text.toList) ++ "f"
  | .double _ =>
    return withPoint (Text.dropEndWhile (fun c => c = 'd' || c = 'D') l.text.toList)
  | .boolean value => return if value then "true" else "false"
  | .null => throw .untypedNull
  | .int _ | .char _ | .string _ => return l.text

/-- Whether an expression is the literal `null`. -/
def isNull : Expr → Bool
  | .literal _ l => l.value = .null
  | _ => false

/-- Whether an expression is a string literal. -/
def isStringLiteral : Expr → Bool
  | .literal _ l =>
    match l.value with
    | .string _ => true
    | _ => false
  | _ => false

/-- The text of the empty value of a type. -/
def emptyValue (type : TypeExpr) : Emit String :=
  return (← typeText type) ++ "()"

/-! ## Parentheses -/

/-- A text without the parentheses around it. -/
def unwrap (text : String) : String :=
  match text.toList with
  | '(' :: rest => if rest.getLast? = some ')' then String.ofList rest.dropLast else text
  | _ => text

/-- The text of an expression where nothing stands around it. -/
def bare (e : Expr) (text : String) : String :=
  match e with
  | .binary _ (.assign _) _ _ => text
  | .binary _ _ _ _ => unwrap text
  | _ => text

/-- The text of an operator in front of its operand. A sign does not join with the sign of the
operand. -/
def prefixed (op : UnaryOp) (operand : String) : String :=
  match operand.toList with
  | '-' :: _ | '+' :: _ => op.text ++ "(" ++ operand ++ ")"
  | _ => op.text ++ operand

/-- The text of an operation with one operand. -/
def unaryText (op : UnaryOp) (operand : String) : String :=
  if op.standsBehind then operand ++ op.text else prefixed op operand

/-- The text of an expression in front of a member: a string literal becomes a string object. -/
def receiverText (e : Expr) (text : String) : String :=
  if isStringLiteral e then "std::string(" ++ text ++ ")" else text

/-! ## Strings and printing -/

/-- The text of a truth value as a word. -/
def truthText (text : String) : String :=
  text ++ " ? \"true\" : \"false\""

/-- The text of a number formatted with `digits` significant digits. -/
def numberText (text : String) (digits : Nat) : Emit String := do
  Emit.needNumberFormat
  return "format_number(" ++ text ++ ", " ++ toString digits ++ ")"

/-- Significant digits of numbers of single precision. -/
def singleDigits : Nat := 7

/-- Significant digits of numbers of double precision. -/
def doubleDigits : Nat := 15

/-- The text of an expression as a string object. -/
def stringText (env : Env) (e : Expr) (text : String) : Emit String :=
  match env.scalarType e with
  | some "String" => return bare e text
  | some "char" => return "std::string(1, " ++ bare e text ++ ")"
  | some "boolean" => return "std::string(" ++ truthText text ++ ")"
  | some "float" => numberText (bare e text) singleDigits
  | some "double" => numberText (bare e text) doubleDigits
  | _ => return "std::to_string(" ++ bare e text ++ ")"

/-- The text of an expression as an item of what is printed. -/
def printedText (env : Env) (e : Expr) (text : String) : Emit String :=
  match env.scalarType e with
  | some "boolean" => return "(" ++ truthText text ++ ")"
  | some "float" => numberText (bare e text) singleDigits
  | some "double" => numberText (bare e text) doubleDigits
  | _ => return text

/-! ## Calls -/

/-- Whether an expression is the standard output stream. -/
def isOutput : Expr → Bool
  | .field _ (.var _ "System") "out" => true
  | _ => false

/-- The text of a call of a method of an object. -/
def memberCallText (isMap : Bool) (target name : String) (args : List String) : String :=
  match name, args with
  | "add", [value] | "push", [value] => target ++ ".push_back(" ++ value ++ ")"
  | "get", [key] =>
    if isMap then target ++ ".at(" ++ key ++ ")" else target ++ "[" ++ key ++ "]"
  | "set", [key, value] | "put", [key, value] => target ++ "[" ++ key ++ "] = " ++ value
  | "size", [] | "length", [] => target ++ ".size()"
  | "isEmpty", [] => target ++ ".empty()"
  | "containsKey", [key] => "(" ++ target ++ ".count(" ++ key ++ ") > 0)"
  | "equals", [other] => "(" ++ target ++ " == " ++ other ++ ")"
  | "charAt", [key] => target ++ ".at(" ++ key ++ ")"
  | _, _ => target ++ "." ++ name ++ "(" ++ ", ".intercalate args ++ ")"

/-- What ends a chain of printed items. -/
def printEnd (name : String) : Emit String :=
  match name with
  | "println" => return " << std::endl"
  | "print" => return ""
  | other => throw (.outputMethod other)

/-- The text of a chain of printed items. -/
def printText (items : List String) (last : String) : String :=
  "std::cout" ++ String.join (items.map fun item => " << " ++ item) ++ last

/-! ## Expressions -/

/-- Where an expression stands. -/
inductive Place where
  /-- As one expression. -/
  | alone
  /-- As an operand of a sum of strings, `first` for the leftmost one. -/
  | summand (first : Bool)
  /-- As an item of what is printed. -/
  | printed
  deriving DecidableEq

namespace Place

/-- The place of the left operand of a sum of strings at a place. -/
def left : Place → Place
  | alone => summand true
  | place => place

/-- The place of the right operand of a sum of strings at a place. -/
def right : Place → Place
  | printed => printed
  | _ => summand false

/-- The texts of a sum of strings from those of its operands. Only where the sum stands alone do
they make one text. -/
def gather : Place → List String → List String
  | alone, parts => ["(" ++ " + ".intercalate parts ++ ")"]
  | _, parts => parts

/-- The text of an expression at a place from its text alone. The leftmost operand of a sum has to
be a string object, even where it is a literal. -/
def fit (env : Env) (e : Expr) (text : String) : Place → Emit String
  | alone => return text
  | summand first =>
    if first && isStringLiteral e then return "std::string(" ++ text ++ ")"
    else stringText env e text
  | printed => printedText env e text

end Place

mutual

/-- The texts that an expression is written as at a place: the operands of a sum of strings one by
one where they join a longer chain, and otherwise one text. -/
def render (env : Env) (place : Place) (e : Expr) : Emit (List String) :=
  match e with
  | .literal _ l => do
    let text ← literalText l
    return [← place.fit env e text]
  | .var _ name => return [← place.fit env e name]
  | .binary _ op left right => do
    if op = .arith .add && env.isString e then
      let parts ← render env place.left left
      return place.gather (parts ++ (← render env place.right right))
    else
      let l := String.join (← render env .alone left)
      let r := String.join (← render env .alone right)
      match op with
      | .assign .add =>
        let value ← if env.isString left then stringText env right r else pure (bare right r)
        return [← place.fit env e (l ++ " += " ++ value)]
      | .assign op =>
        return [← place.fit env e (l ++ " " ++ op.text ++ "= " ++ bare right r)]
      | .arith .mod =>
        if env.isFloating left || env.isFloating right then
          Emit.need .cmath
          return [← place.fit env e ("std::fmod(" ++ l ++ ", " ++ r ++ ")")]
        else
          return [← place.fit env e ("(" ++ l ++ " % " ++ r ++ ")")]
      | op => return [← place.fit env e ("(" ++ l ++ " " ++ op.text ++ " " ++ r ++ ")")]
  | .unary _ op operand => do
    let text := String.join (← render env .alone operand)
    return [← place.fit env e (unaryText op text)]
  | .call _ name args => do
    let texts ← renderAll env args
    return [← place.fit env e (name ++ "(" ++ ", ".intercalate texts ++ ")")]
  | .methodCall _ receiver name args => do
    if isOutput receiver then
      let last ← printEnd name
      let items ← match args with
        | [] => pure []
        | arg :: _ => render env .printed arg
      return [← place.fit env e (printText items last)]
    else if env.isClassName receiver then
      let texts ← renderAll env args
      return [← place.fit env e (name ++ "(" ++ ", ".intercalate texts ++ ")")]
    else
      let target := receiverText receiver (String.join (← render env .alone receiver))
      let texts ← renderAll env args
      return [← place.fit env e (memberCallText (env.isMap receiver) target name texts)]
  | .index _ array key => do
    let a := String.join (← render env .alone array)
    let k := bare key (String.join (← render env .alone key))
    return [← place.fit env e (a ++ "[" ++ k ++ "]")]
  | .field _ object name => do
    if env.isClassName object then
      return [← place.fit env e name]
    else
      let o := receiverText object (String.join (← render env .alone object))
      let member := if name = "length" then "size()" else name
      return [← place.fit env e (o ++ "." ++ member)]
  | .newObject _ type diamond => do
    let text ← if diamond then pure "\x7b\x7d" else emptyValue type
    return [← place.fit env e text]
  | .newArray _ type size _ => do
    let t ← typeText type
    let n := bare size (String.join (← render env .alone size))
    return [← place.fit env e (t ++ "(" ++ n ++ ")")]
  | .assign _ target value => do
    let t := String.join (← render env .alone target)
    let v ← match if isNull value then env.staticType target else none with
      | some type => emptyValue type
      | none => (fun parts => bare value (String.join parts)) <$> render env .alone value
    return [← place.fit env e (t ++ " = " ++ v)]
  | .arrayInit _ elements => do
    let texts ← renderAll env elements
    return [← place.fit env e ("\x7b" ++ ", ".intercalate texts ++ "\x7d")]

/-- The texts of several expressions, each standing alone. -/
def renderAll (env : Env) : List Expr → Emit (List String)
  | [] => return []
  | e :: es => do
    let text := bare e (String.join (← render env .alone e))
    return text :: (← renderAll env es)

end

/-- The text of an expression. -/
def exprText (env : Env) (e : Expr) : Emit String :=
  return String.join (← render env .alone e)

/-- The text of an expression without parentheses around all of it. -/
def bareText (env : Env) (e : Expr) : Emit String :=
  return bare e (← exprText env e)

/-- The text of a value for a slot of a known type. The literal `null` is the empty value of that
type. -/
def valueText (env : Env) (type : Option TypeExpr) (e : Expr) : Emit String := do
  match if isNull e then type else none with
  | some type => emptyValue type
  | none => bareText env e

end ClassLang.Target
