/-!
# Integers in decimal

An integer is an optional sign followed by one or more of the digits `0` to `9`, with nothing
else around it, and it has to lie in the range of its width.

## Main definitions

* `ClassLang.Number.readDigits?`: the value of a run of digits.
* `ClassLang.Number.readInt64?`: a signed integer of 64 bits.
* `ClassLang.Number.readBelow?`: an unsigned integer below a bound, an optional `+` in front.
-/

set_option autoImplicit false

namespace ClassLang.Number

/-- The value of an ASCII digit. -/
def digitValue (c : Char) : Nat :=
  c.toNat - '0'.toNat

/-- The value of a run of digits that goes on from `value`. -/
def digitsValue (value : Nat) (cs : List Char) : Nat :=
  cs.foldl (fun v c => 10 * v + digitValue c) value

/-- The value of a text of one or more digits and nothing else. -/
def readDigits? (cs : List Char) : Option Nat :=
  if !cs.isEmpty && cs.all Char.isDigit then some (digitsValue 0 cs) else none

/-- The integer written by a text of an optional sign and digits. -/
def readInt? (cs : List Char) : Option Int :=
  match cs with
  | '-' :: digits => (readDigits? digits).map fun n => -(n : Int)
  | '+' :: digits => (readDigits? digits).map fun n => (n : Int)
  | _ => (readDigits? cs).map fun n => (n : Int)

/-- Whether `i` fits a signed integer of 64 bits. -/
def fitsInt64 (i : Int) : Bool :=
  -(Nat.pow 2 63 : Int) ≤ i && i < (Nat.pow 2 63 : Int)

/-- The integer written by a text, if it fits 64 bits. -/
def readInt64? (cs : List Char) : Option Int :=
  (readInt? cs).filter fitsInt64

/-- The number below `bound` written by a text of digits, which may have a `+` in front. -/
def readBelow? (bound : Nat) (cs : List Char) : Option Nat :=
  let digits := match cs with
    | '+' :: digits => digits
    | _ => cs
  (readDigits? digits).filter (· < bound)

end ClassLang.Number
