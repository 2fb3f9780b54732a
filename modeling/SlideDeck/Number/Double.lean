/-!
Double-precision numbers as values that can be compared and decided about: a number is held by its
64 bits. Arithmetic on them is that of the processor.
-/
namespace SlideDeck

/-- A double-precision number, given by its sign, exponent and fraction bits. -/
structure Double where
  bits : UInt64
  deriving DecidableEq, Repr, Inhabited

namespace Double

/-- The number held in a processor register. -/
def ofFloat (f : Float) : Double := ⟨f.toBits⟩

/-- The sign bit is set; `-0.0` is negative in this sense. -/
def isNegative (d : Double) : Bool := d.bits.toNat / Nat.pow 2 63 == 1

def exponentBits (d : Double) : Nat := d.bits.toNat / Nat.pow 2 52 % Nat.pow 2 11

def fractionBits (d : Double) : Nat := d.bits.toNat % Nat.pow 2 52

/-- The whole number in a finite number's magnitude `mantissa * 2 ^ scale`. -/
def mantissa (d : Double) : Nat :=
  if d.exponentBits = 0 then d.fractionBits else d.fractionBits + Nat.pow 2 52

/-- The power of two in a finite number's magnitude `mantissa * 2 ^ scale`. -/
def scale (d : Double) : Int :=
  if d.exponentBits = 0 then -1074 else (d.exponentBits : Int) - 1075

def isZero (d : Double) : Bool := d.exponentBits == 0 && d.fractionBits == 0

/-- Equality of finite numbers as numbers: the two zeros are equal. -/
def same (a b : Double) : Bool := a == b || (a.isZero && b.isZero)

/-- The power of ten with the given exponent, rounded to the nearest double. -/
def powerOfTen (n : Nat) : Float := Float.ofScientific 1 false n

/-- The largest exponent of a finite power of ten. -/
def largestPower : Nat := 308

/-- `f` divided by `10 ^ n`, in steps of the largest power of ten until the rest is small enough
or nothing is left of the number. -/
def divideByPower (f : Float) (n : Nat) : Float :=
  if n ≤ largestPower then f / powerOfTen n
  else if f == 0 then f
  else divideByPower (f / powerOfTen largestPower) (n - largestPower)
termination_by n
decreasing_by simp [largestPower] at *; omega

/-- `f` multiplied by `10 ^ n`, when the product is finite. -/
def multiplyByPower? (f : Float) (n : Nat) : Option Float :=
  if n ≤ largestPower then
    let product := f * powerOfTen n
    if product.isInf then none else some product
  else if f == 0 then some f
  else none

/-- The double for `± significand * 10 ^ exponent`. The significand is rounded first and then
scaled by one power of ten. There is none when the result would be infinite. -/
def ofDecimal? (negative : Bool) (significand : Nat) (exponent : Int) : Option Double :=
  let f := Float.ofNat significand
  let magnitude? :=
    if 0 ≤ exponent then multiplyByPower? f exponent.toNat
    else some (divideByPower f (-exponent).toNat)
  magnitude?.map fun m => ofFloat (if negative then -m else m)

end Double
end SlideDeck
