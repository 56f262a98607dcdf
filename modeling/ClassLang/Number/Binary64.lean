import ClassLang.Number.Integer

/-!
# Floating-point numbers of 64 bits

A decimal text is read as the floating-point number of 64 bits nearest to it, a tie going to the
even neighbour. The rounding is done in exact integer arithmetic on `m · 10 ^ e`.

## Main definitions

* `ClassLang.Number.Binary64`: a number as its 64 bits.
* `ClassLang.Number.Decimal`: a decimal text taken apart into sign, digits and exponent.
* `ClassLang.Number.Binary64.ofDecimal`: the nearest number.
* `ClassLang.Number.Binary64.read?`: reading a text, which may also name infinity or no number.
-/

set_option autoImplicit false

namespace ClassLang.Number

/-- A floating-point number: one bit of sign, eleven of exponent, fifty-two of significand. -/
structure Binary64 where
  bits : UInt64
  deriving DecidableEq, Inhabited

/-- A decimal `± significand · 10 ^ exponent`. -/
structure Decimal where
  negative : Bool
  significand : Nat
  exponent : Int
  deriving DecidableEq

/-- The quotient `num / den` rounded to the nearest integer, a tie going to the even one. -/
def roundDiv (num den : Nat) : Nat :=
  let q := num / den
  let r := num % den
  if 2 * r > den || (2 * r == den && q % 2 == 1) then q + 1 else q

/-- The greatest `k` with `2 ^ k ≤ num / den`, for positive `num` and `den`. -/
def floorLog2 (num den : Nat) : Int :=
  let k := (num.log2 : Int) - den.log2
  let reached := if k ≥ 0 then num ≥ den * Nat.pow 2 k.toNat else num * Nat.pow 2 (-k).toNat ≥ den
  if reached then k else k - 1

namespace Binary64

/-- The bits of a magnitude with the sign bit in front. -/
def signed (negative : Bool) (magnitude : Nat) : Binary64 :=
  ⟨UInt64.ofNat (magnitude + if negative then Nat.pow 2 63 else 0)⟩

/-- The magnitude of infinity, above every finite one. -/
def infinityMagnitude : Nat := 0x7FF * Nat.pow 2 52

/-- Infinity of either sign. -/
def infinity (negative : Bool) : Binary64 := signed negative infinityMagnitude

/-- The value that is no number. -/
def nan : Binary64 := ⟨0x7FF8000000000000⟩

/-- Whether the value is no number. -/
def isNaN (x : Binary64) : Bool :=
  x.bits.toNat % Nat.pow 2 63 > infinityMagnitude

/-- The magnitude nearest to the ratio of positive `num` and `den`. With `q` the exponent of the
last place, the magnitude of `n · 2 ^ q` is `n` above `q + 1074` steps of `2 ^ 52`; a carry out of
the significand raises the exponent by itself. -/
def nearestMagnitude (num den : Nat) : Nat :=
  let q := max (floorLog2 num den - 52) (-1074)
  let n :=
    if q ≥ 0 then roundDiv num (den * Nat.pow 2 q.toNat)
    else roundDiv (num * Nat.pow 2 (-q).toNat) den
  min ((q + 1074).toNat * Nat.pow 2 52 + n) infinityMagnitude

/-- The number nearest to a decimal. A value of at least `10 ^ 400` is infinite and one below
`10 ^ -400` is zero, so no larger power is formed. -/
def ofDecimal (d : Decimal) : Binary64 :=
  let digits := (Nat.toDigits 10 d.significand).length
  if d.significand = 0 then signed d.negative 0
  else if d.exponent > 400 then infinity d.negative
  else if (digits : Int) + d.exponent < -400 then signed d.negative 0
  else if d.exponent ≥ 0 then
    signed d.negative (nearestMagnitude (d.significand * Nat.pow 10 d.exponent.toNat) 1)
  else
    signed d.negative (nearestMagnitude d.significand (Nat.pow 10 (-d.exponent).toNat))

/-- Takes a sign off the front of a text: whether it is a minus, and the rest. -/
def takeSign (cs : List Char) : Bool × List Char :=
  match cs with
  | '-' :: rest => (true, rest)
  | '+' :: rest => (false, rest)
  | _ => (false, cs)

/-- The exponent of a decimal text, from its `e` to its end; no text stands for zero. -/
def readExponent? (cs : List Char) : Option Int :=
  match cs with
  | [] => some 0
  | c :: rest => if c = 'e' || c = 'E' then readInt? rest else none

/-- A decimal text without its sign: digits with at most one point among or around them, and an
optional exponent. -/
def readDecimal? (negative : Bool) (cs : List Char) : Option Decimal :=
  let whole := cs.takeWhile Char.isDigit
  let rest := cs.dropWhile Char.isDigit
  let fraction := match rest with
    | '.' :: more => more.takeWhile Char.isDigit
    | _ => []
  let rest := match rest with
    | '.' :: more => more.dropWhile Char.isDigit
    | _ => rest
  if whole.isEmpty && fraction.isEmpty then none
  else
    (readExponent? rest).map fun exponent =>
      { negative
        significand := digitsValue 0 (whole ++ fraction)
        exponent := exponent - fraction.length }

/-- The number written by a text: an optional sign, then `inf`, `infinity` or `nan` in any case,
or a decimal. -/
def read? (cs : List Char) : Option Binary64 :=
  let (negative, body) := takeSign cs
  let lower := body.map Char.toLower
  if lower = "inf".toList || lower = "infinity".toList then some (infinity negative)
  else if lower = "nan".toList then some nan
  else (readDecimal? negative body).map ofDecimal

end Binary64

end ClassLang.Number
