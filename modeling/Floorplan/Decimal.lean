import Floorplan.Rounding
import Floorplan.Text.Blank

/-!
# Floorplan.Decimal

Decimal numbers with two places, held as a whole number of hundredths, so that sums are exact and
rounding happens in one place: `ofRatio`, and `half` with it, round half away from zero. Text
that comes from outside is kept within `limit`.

The hundredths are an exact integer here, of any size. They are stored in 64 bits, and `ratio`,
`heldHalf` and `heldAdd` tell where that is too little. In a conversion it never is
(`Conversion.ofOperations_within`).
-/

namespace Floorplan

structure Decimal where
  hundredths : Int
  deriving DecidableEq

namespace Decimal

instance : Zero Decimal := ⟨⟨0⟩⟩
instance : Inhabited Decimal := ⟨0⟩
instance : Add Decimal := ⟨fun a b => ⟨a.hundredths + b.hundredths⟩⟩
instance : Sub Decimal := ⟨fun a b => ⟨a.hundredths - b.hundredths⟩⟩
instance : Neg Decimal := ⟨fun a => ⟨-a.hundredths⟩⟩
instance : LE Decimal := ⟨fun a b => a.hundredths ≤ b.hundredths⟩
instance : LT Decimal := ⟨fun a b => a.hundredths < b.hundredths⟩
instance (a b : Decimal) : Decidable (a ≤ b) :=
  inferInstanceAs (Decidable (a.hundredths ≤ b.hundredths))
instance (a b : Decimal) : Decidable (a < b) :=
  inferInstanceAs (Decidable (a.hundredths < b.hundredths))
instance : Max Decimal := ⟨fun a b => if a ≤ b then b else a⟩

@[simp] theorem hundredths_zero : (0 : Decimal).hundredths = 0 := rfl
@[simp] theorem hundredths_add (a b : Decimal) :
    (a + b).hundredths = a.hundredths + b.hundredths := rfl
@[simp] theorem hundredths_sub (a b : Decimal) :
    (a - b).hundredths = a.hundredths - b.hundredths := rfl
@[simp] theorem hundredths_neg (a : Decimal) : (-a).hundredths = -a.hundredths := rfl

/-- The largest magnitude taken from outside, `21474836.47`. -/
def limit : Decimal := ⟨2147483647⟩

def inRange (x : Decimal) : Bool :=
  x.hundredths.natAbs ≤ limit.hundredths.natAbs

def ofInt (n : Int) : Decimal := ⟨n * 100⟩

def ofInt? (n : Int) : Option Decimal :=
  if (ofInt n).inRange then some (ofInt n) else none

/-- `n / d` to the nearest hundredth, a half away from zero. -/
def ofRatio (n d : Int) : Decimal :=
  ⟨Rounding.away (n * 100) d⟩

/-- Half of a number, rounded as `ofRatio` rounds. -/
def half (x : Decimal) : Decimal :=
  ⟨Rounding.away x.hundredths 2⟩

/-! ### In 64 bits -/

/-- `ofRatio` in 64 bits, from the numerator in hundredths. -/
def heldRatio (n d : Int) : Except Overflow Decimal := do
  let numerator ← held .multiply (n * 100)
  return ⟨← Rounding.divide numerator d⟩

def heldHalf (x : Decimal) : Except Overflow Decimal := do
  return ⟨← Rounding.divide x.hundredths 2⟩

def heldAdd (x y : Decimal) : Except Overflow Decimal := do
  return ⟨← held .add (x + y).hundredths⟩

inductive RatioError where
  | divisionByZero
  | overflow (operation : Overflow)
  deriving DecidableEq

def RatioError.message : RatioError → String
  | .divisionByZero => "division by zero"
  | .overflow operation => operation.message

/-- The ratio of any two integers. -/
def ratio (n d : Int) : Except RatioError Decimal :=
  if d = 0 then .error .divisionByZero else (heldRatio n d).mapError .overflow

/-! ### Text -/

/-- The digits after the point, without trailing zeros, and the point only if there are any. -/
def fractionText (cents : Nat) : String :=
  if cents = 0 then ""
  else if cents % 10 = 0 then "." ++ Nat.repr (cents / 10)
  else "." ++ Nat.repr (cents / 10) ++ Nat.repr (cents % 10)

/-- The shortest text of the exact value. -/
def text (x : Decimal) : String :=
  let magnitude := x.hundredths.natAbs
  (if x.hundredths < 0 then "-" else "") ++ Nat.repr (magnitude / 100) ++
    fractionText (magnitude % 100)

structure ParseError where
  text : String
  deriving DecidableEq

def ParseError.message (e : ParseError) : String :=
  "`" ++ e.text ++ "` is not a decimal number"

/-- Takes off one sign; `true` is a minus. -/
def splitSign : List Char → Bool × List Char
  | '-' :: rest => (true, rest)
  | '+' :: rest => (false, rest)
  | cs => (false, cs)

def digitValue (c : Char) : Nat := c.toNat - '0'.toNat

/-- The hundredths in the digits after a point, the third of which decides the rounding. -/
def cents : List Char → Nat
  | [] => 0
  | [a] => 10 * digitValue a
  | [a, b] => 10 * digitValue a + digitValue b
  | a :: b :: c :: _ => 10 * digitValue a + digitValue b + (if 5 ≤ digitValue c then 1 else 0)

/-- Reads a decimal numeral: blanks around it, one sign, digits with at most one point among
them, rounded to hundredths half away from zero. -/
def parse (s : String) : Except ParseError Decimal :=
  let (negative, numeral) := splitSign (trimBlanks s.toList)
  let whole := numeral.takeWhile (· ≠ '.')
  let fraction := (numeral.dropWhile (· ≠ '.')).drop 1
  let magnitude : Nat := 100 * Nat.ofDigitChars 10 whole 0 + cents fraction
  if (whole ++ fraction).isEmpty || !(whole ++ fraction).all Char.isDigit then .error ⟨s⟩
  else if limit.hundredths.natAbs < magnitude then .error ⟨s⟩
  else .ok ⟨if negative then -magnitude else magnitude⟩

end Decimal
end Floorplan
