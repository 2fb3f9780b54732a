import SlideDeck.Number.Shortest

/-!
How a double is laid out as text: positionally while the exponent of its first digit lies in a
window, and with an exponent outside of it.
-/
namespace SlideDeck

/-- The exponents of the first digit that are written positionally, from `least` to `most`. -/
structure DoubleLayout where
  least : Int
  most : Int

/-- The digits of a number without the zeros at their end. -/
def significantDigits (n : Nat) : List Char :=
  ((Nat.toDigits 10 n).reverse.dropWhile (· == '0')).reverse

namespace DoubleLayout

/-- The text with a point and at least one digit on either side of it. -/
def positional (digits : List Char) (exponent : Int) : List Char :=
  if exponent < 0 then
    ['0', '.'] ++ List.replicate (-exponent - 1).toNat '0' ++ digits
  else
    let whole := exponent.toNat + 1
    let fraction := digits.drop whole
    digits.take whole ++ List.replicate (whole - digits.length) '0' ++ ['.'] ++
      (if fraction.isEmpty then ['0'] else fraction)

/-- The text with a signed exponent; a point is written only before further digits. -/
def scientific (digits : List Char) (exponent : Int) : List Char :=
  let fraction := digits.drop 1
  digits.take 1 ++ (if fraction.isEmpty then [] else '.' :: fraction) ++
    ['e', if exponent < 0 then '-' else '+'] ++ Nat.toDigits 10 exponent.natAbs

def write (layout : DoubleLayout) (d : Double) : List Char :=
  let magnitude :=
    if d.isZero then ['0', '.', '0']
    else
      let s := d.shortest
      let digits := significantDigits s.digits
      if layout.least ≤ s.exponent ∧ s.exponent ≤ layout.most then positional digits s.exponent
      else scientific digits s.exponent
  if d.isNegative then '-' :: magnitude else magnitude

end DoubleLayout
end SlideDeck
