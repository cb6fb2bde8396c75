import Floorplan.Overflow

/-!
# Floorplan.Rounding

Quotients rounded to the nearest integer. `Rounding.away` sends a tie away from zero and serves
all level geometry, and `Rounding.divide` is how it is computed in 64 bits; `Rounding.even` sends a
tie to the even neighbour and serves binary floating point and its text.
-/

namespace Floorplan
namespace Rounding

/-- `n / d` to the nearest integer, a half away from zero. -/
def away (n d : Int) : Int :=
  n.sign * d.sign * ((2 * n.natAbs + d.natAbs) / (2 * d.natAbs) : Nat)

/-- `away` in 64 bits: the quotient by truncation, and where the remainder is half of the divisor or
more, the next one away from zero. The remainder fits where the quotient does. -/
def divide (n d : Int) : Except Overflow Int := do
  let quotient ← held .divide (n.tdiv d)
  let remainder ← heldAbs (n.tmod d)
  let twice ← held .multiply (2 * remainder)
  let divisor ← heldAbs d
  if divisor ≤ twice then held .add (quotient + n.sign * d.sign) else return quotient

/-- `n / d` to the nearest integer, a half to the even one. -/
def even (n d : Nat) : Nat :=
  let q := n / d
  let twice := 2 * (n % d)
  if twice < d then q
  else if d < twice then q + 1
  else q + q % 2

end Rounding
end Floorplan
