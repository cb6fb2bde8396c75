import Floorplan.Rounding

/-!
# Floorplan.Binary

Binary floating-point values as exact numbers. A finite `Binary` is a sign and a significand times
a power of two; a `Format` says how many bits there are for each, rounds a ratio to the nearest
value it holds (`Format.round`) and packs values into words (`Format.bits`, `Format.ofBits`).
Colors are made of single values, angles are double ones.
-/

namespace Floorplan

/-- A signed significand times a power of two, or one of the values past the finite ones. -/
inductive Binary where
  | finite (negative : Bool) (significand : Nat) (exponent : Int)
  | infinite (negative : Bool)
  | nan
  deriving DecidableEq

namespace Binary

def twoTo (k : Nat) : Nat := Nat.pow 2 k

/-- The significand's length in bits and the width of the exponent field. -/
structure Format where
  precision : Nat
  exponentBits : Nat
  deriving DecidableEq

namespace Format

def single : Format := ⟨24, 8⟩
def double : Format := ⟨53, 11⟩

/-- The exponent of the smallest values, also that of zero. -/
def least (f : Format) : Int := 3 - twoTo (f.exponentBits - 1) - f.precision

/-- The exponent of the largest values. -/
def greatest (f : Format) : Int := twoTo (f.exponentBits - 1) - f.precision

/-- The exponent at which a nonzero ratio has a significand of full length, but not below the
least one. -/
def exponentOf (f : Format) (n d : Nat) : Int :=
  let e : Int := n.log2 - d.log2 - f.precision + 1
  let short : Bool := n * twoTo (-e).toNat < d * twoTo e.toNat * twoTo (f.precision - 1)
  max f.least (if short then e - 1 else e)

/-- The value nearest to `n / d`, a tie to the even significand. -/
def round (f : Format) (negative : Bool) (n d : Nat) : Binary :=
  if n = 0 then .finite negative 0 f.least
  else
    let e := f.exponentOf n d
    let m := Rounding.even (n * twoTo (-e).toNat) (d * twoTo e.toNat)
    let (m, e) := if m = twoTo f.precision then (twoTo (f.precision - 1), e + 1) else (m, e)
    if f.greatest < e then .infinite negative else .finite negative m e

def ofRatio (f : Format) (n : Int) (d : Nat) : Binary :=
  f.round (n < 0) n.natAbs d

/-- The fields of a word, from the sign down. -/
def ofBits (f : Format) (bits : Nat) : Binary :=
  let fraction := bits % twoTo (f.precision - 1)
  let field := bits / twoTo (f.precision - 1) % twoTo f.exponentBits
  let negative := bits / twoTo (f.precision - 1 + f.exponentBits) % 2 == 1
  if field = twoTo f.exponentBits - 1 then if fraction = 0 then .infinite negative else .nan
  else if field = 0 then .finite negative fraction f.least
  else .finite negative (fraction + twoTo (f.precision - 1)) (f.least + field - 1)

/-- The sign's place in a word. -/
def signBit (f : Format) (negative : Bool) : Nat :=
  if negative then twoTo (f.precision - 1 + f.exponentBits) else 0

/-- The word of a value; there is one word for what is no number. -/
def bits (f : Format) : Binary → Nat
  | .nan => (twoTo f.exponentBits - 1) * twoTo (f.precision - 1) + twoTo (f.precision - 2)
  | .infinite negative =>
    f.signBit negative + (twoTo f.exponentBits - 1) * twoTo (f.precision - 1)
  | .finite negative m e =>
    f.signBit negative + m + twoTo (f.precision - 1) *
      (if m < twoTo (f.precision - 1) then 0 else (e - f.least).toNat)

end Format

/-- A significand times a power of two as a ratio of naturals. -/
def magnitude (m : Nat) (e : Int) : Nat × Nat :=
  (m * twoTo e.toNat, twoTo (-e).toNat)

def times (f : Format) (k : Nat) : Binary → Binary
  | .finite negative m e => let (n, d) := magnitude m e; f.round negative (n * k) d
  | x => x

def dividedBy (f : Format) (k : Nat) : Binary → Binary
  | .finite negative m e => let (n, d) := magnitude m e; f.round negative n (d * k)
  | x => x

/-- The remainder after division by a positive whole number, brought from below zero into the
range by adding the divisor. A multiple keeps its sign on the zero that is left. -/
def modulo (f : Format) (k : Nat) : Binary → Binary
  | .finite negative m e =>
    let (n, d) := magnitude m e
    let rest := n % (k * d)
    if negative && rest != 0 then f.round false (k * d - rest) d else f.round negative rest d
  | _ => .nan

def below (k : Nat) : Binary → Bool
  | .finite negative m e =>
    let (n, d) := magnitude m e
    if negative then 0 < n + k else n < k * d
  | .infinite negative => negative
  | .nan => false

/-- Numerical equality: the zeros are equal, and what is no number equals nothing. -/
def eq : Binary → Binary → Bool
  | .finite s m e, .finite s' m' e' =>
    let (n, d) := magnitude m e
    let (n', d') := magnitude m' e'
    n * d' == n' * d && (s == s' || n == 0)
  | .infinite s, .infinite s' => s == s'
  | _, _ => false

/-- Whether the first magnitude is finite and at most the second. -/
def withinMagnitude : Binary → Binary → Bool
  | .finite _ m e, .finite _ m' e' =>
    let (n, d) := magnitude m e
    let (n', d') := magnitude m' e'
    n * d' ≤ n' * d
  | .finite .., .infinite _ => true
  | _, _ => false

/-- The nearest integer of a finite value, a half away from zero. -/
def nearestInt (negative : Bool) (m : Nat) (e : Int) : Int :=
  let (n, d) := magnitude m e
  let q := Rounding.away n d
  if negative then -q else q

def signText (negative : Bool) : String := if negative then "-" else ""

/-- The text with a fixed number of places, a tie to the even last digit. -/
def placesText (places : Nat) : Binary → String
  | .nan => "NaN"
  | .infinite negative => signText negative ++ "inf"
  | .finite negative m e =>
    let (n, d) := magnitude m e
    let q := Rounding.even (n * Nat.pow 10 places) d
    let fraction := Nat.toDigits 10 (q % Nat.pow 10 places)
    signText negative ++ Nat.repr (q / Nat.pow 10 places) ++ "." ++
      String.ofList (List.replicate (places - fraction.length) '0' ++ fraction)

end Binary
end Floorplan
