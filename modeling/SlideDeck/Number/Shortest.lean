import SlideDeck.Number.Double

/-!
The shortest decimal that reads back as a given double. Decimals of one digit are tried first, then
of two, and so on: of each length only the two neighbours of the exact value can be the one sought.
All comparisons are made on whole numbers.
-/
namespace SlideDeck

/-- A positive decimal: the digits of `digits` with the point behind the first, times
`10 ^ exponent`. -/
structure ShortDecimal where
  digits : Nat
  exponent : Int
  deriving DecidableEq, Repr

/-- A positive number `value / unit` with the ends of the interval of reals that round to it, all
counted in the same unit. -/
structure RoundingInterval where
  low : Nat
  value : Nat
  high : Nat
  unit : Nat
  /-- The ends themselves round to the number. -/
  closed : Bool

/-- The interval of a finite double other than zero. The gap to the number below is half as wide
when the mantissa is a power of two. -/
def Double.roundingInterval (d : Double) : RoundingInterval :=
  let up := (d.scale - 2).toNat
  let down := (2 - d.scale).toNat
  let m := d.mantissa
  let gap := if d.fractionBits = 0 ∧ 1 < d.exponentBits then 1 else 2
  { low := (4 * m - gap) * Nat.pow 2 up
    value := 4 * m * Nat.pow 2 up
    high := (4 * m + 2) * Nat.pow 2 up
    unit := Nat.pow 2 down
    closed := m % 2 == 0 }

namespace RoundingInterval

def digitCount (n : Nat) : Nat := (Nat.toDigits 10 n).length

/-- The exponent of the first decimal digit of the number. -/
def leadingExponent (r : RoundingInterval) : Int :=
  if r.unit ≤ r.value then (digitCount (r.value / r.unit) : Int) - 1
  else -(digitCount ((r.unit - 1) / r.value) : Int)

/-- The decimal `c * 10 ^ e` lies in the interval. -/
def holds (r : RoundingInterval) (c : Nat) (e : Int) : Bool :=
  let point := c * Nat.pow 10 e.toNat * r.unit
  let grid := Nat.pow 10 (-e).toNat
  if r.closed then r.low * grid ≤ point && point ≤ r.high * grid
  else r.low * grid < point && point < r.high * grid

/-- The decimal with last place `10 ^ e` that is nearest to the number, among the two around it
that lie in the interval. Of two equally near ones the even one is taken. -/
def nearest? (r : RoundingInterval) (e : Int) : Option Nat :=
  let numerator := r.value * Nat.pow 10 (-e).toNat
  let denominator := r.unit * Nat.pow 10 e.toNat
  let c := numerator / denominator
  let rest := numerator % denominator
  match r.holds c e, r.holds (c + 1) e with
  | true, true =>
    if 2 * rest < denominator || (2 * rest == denominator && c % 2 == 0) then some c
    else some (c + 1)
  | true, false => some c
  | false, true => some (c + 1)
  | false, false => none

/-- Decimals of `length` digits and then of up to `more` further digits; the first that lies in the
interval is returned. -/
def search (r : RoundingInterval) (length : Nat) : Nat → ShortDecimal
  | 0 => ⟨0, 0⟩
  | more + 1 =>
    let place := r.leadingExponent - length + 1
    match r.nearest? place with
    | some c => ⟨c, place + digitCount c - 1⟩
    | none => r.search (length + 1) more

end RoundingInterval

/-- The shortest decimal that reads back as the magnitude of a finite double other than zero, and
the nearest of those; seventeen digits always suffice. -/
def Double.shortest (d : Double) : ShortDecimal := d.roundingInterval.search 1 17

end SlideDeck
