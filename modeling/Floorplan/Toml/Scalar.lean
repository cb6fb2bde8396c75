import Floorplan.Binary
import Floorplan.Toml.Moment

/-!
# Floorplan.Toml.Scalar

The values of TOML documents that are neither in quotes nor in brackets: numbers, truth values,
dates and times. A document is well formed or not by the spelling of its numbers alone; a number
that is spelled well and is out of the range of its kind is `Value.other`.
-/

namespace Floorplan
namespace Toml

inductive Value where
  | text (value : String)
  /-- An integer that fits in 64 bits, signed or not. -/
  | integer (value : Int)
  | real (value : Binary)
  /-- A value of another kind, or a number that is out of range. -/
  | other
  deriving DecidableEq

/-- Takes off one sign; `true` is a minus. -/
def splitSign : List Char → Bool × List Char
  | '-' :: rest => (true, rest)
  | '+' :: rest => (false, rest)
  | cs => (false, cs)

/-- The value of a hexadecimal digit that is a digit to a base. -/
def basedDigit? (base : Nat) (c : Char) : Option Nat := (hexDigit? c).filter (· < base)

/-! ### Underscores -/

/-- Whether a digit is behind every underscore and, with `before` for the first character, in front
of it. -/
def separatedFrom (isDigit : Char → Bool) (before : Bool) : List Char → Bool
  | [] => true
  | c :: rest =>
    if c == '_' then before && rest.head?.any isDigit && separatedFrom isDigit false rest
    else separatedFrom isDigit (isDigit c) rest

/-- Whether underscores stand one by one between digits. The sign in front of a number counts as a
digit here. -/
def separated (isDigit : Char → Bool) : List Char → Bool
  | [] => true
  | c :: rest => c != '_' && separatedFrom isDigit true rest

def dropUnderscores (cs : List Char) : List Char := cs.filter (· != '_')

def isDigitRun (cs : List Char) : Bool :=
  cs.all (fun c => c.isDigit || c == '_') && cs.any Char.isDigit

def hasLeadingZero (cs : List Char) : Bool := cs.head? == some '0' && 1 < cs.length

/-! ### Integers -/

def negated (negative : Bool) (n : Nat) : Int := if negative then -(n : Int) else n

def integerValue (n : Int) : Value :=
  if -9223372036854775808 ≤ n && n < 18446744073709551616 then .integer n else .other

/-- An integer to a base, from behind the mark of the base. Without digits it has no value. -/
def basedInteger? (base : Nat) (cs : List Char) : Option Value :=
  let digits := dropUnderscores cs
  match digits.mapM (basedDigit? base) with
  | none => none
  | some values =>
    if !separated (fun c => (hexDigit? c).isSome) cs then none
    else if digits.isEmpty then some .other
    else some (integerValue (values.foldl (fun n d => base * n + d) 0 : Nat))

/-- A decimal integer. Behind an underscore letters are let through, but have no value. -/
def integer? (cs : List Char) : Option Value :=
  let (negative, unsigned) := splitSign cs
  let digits := dropUnderscores unsigned
  if unsigned.isEmpty || hasLeadingZero unsigned then none
  else if !separated (fun c => (hexDigit? c).isSome) cs then none
  else if !digits.all Char.isDigit then some .other
  else some (integerValue (negated negative (Nat.ofDigitChars 10 digits 0)))

/-! ### Real numbers -/

/-- The double value nearest to digits times a power of ten. -/
def decimalValue (negative : Bool) (digits : List Char) (exponent : Int) : Binary :=
  let n := Nat.ofDigitChars 10 digits 0
  let places := (digits.dropWhile (· == '0')).length + exponent
  if n = 0 then Binary.Format.double.round negative 0 1
  else if 310 < places then .infinite negative
  else if places < -330 then Binary.Format.double.round negative 0 1
  else Binary.Format.double.round negative (n * Nat.pow 10 exponent.toNat)
    (Nat.pow 10 (-exponent).toNat)

/-- A number with a fraction or an exponent. One past the finite doubles has no value. -/
def real? (cs : List Char) : Option Value :=
  let (negative, unsigned) := splitSign cs
  let mantissa := unsigned.takeWhile fun c => c != 'e' && c != 'E'
  let scale := unsigned.drop mantissa.length
  let whole := mantissa.takeWhile (· != '.')
  let point := mantissa.drop whole.length
  let (below, power) := splitSign (scale.drop 1)
  if !isDigitRun whole || hasLeadingZero whole then none
  else if !point.isEmpty && !isDigitRun (point.drop 1) then none
  else if !scale.isEmpty && !isDigitRun power then none
  else if !separated Char.isDigit cs then none
  else
    let fraction := dropUnderscores (point.drop 1)
    let exponent := negated below (Nat.ofDigitChars 10 (dropUnderscores power) 0)
    let digits := dropUnderscores whole ++ fraction
    match decimalValue negative digits (exponent - fraction.length) with
    | .infinite _ => some .other
    | x => some (.real x)

/-! ### All of them -/

/-- The value of a number that starts with decimal digits, or of a moment. What ends the digits
tells which it is. -/
def decimalScalar? (cs : List Char) : Option Value :=
  let tail := (splitSign cs).2.dropWhile Char.isDigit
  match tail with
  | [] => integer? cs
  | c :: _ =>
    if c == '-' || c == ':' then if isMoment cs then some .other else none
    else if tail.any fun c => c == '.' || c == 'e' || c == 'E' then real? cs
    else if c == '_' then integer? cs
    else none

def scalar? (cs : List Char) : Option Value :=
  let (negative, unsigned) := splitSign cs
  let word := String.ofList unsigned
  match cs with
  | '0' :: 'x' :: digits => basedInteger? 16 digits
  | '0' :: 'o' :: digits => basedInteger? 8 digits
  | '0' :: 'b' :: digits => basedInteger? 2 digits
  | _ =>
    if ["true", "false"].contains (String.ofList cs) then some .other
    else if word == "inf" then some (.real (.infinite negative))
    else if word == "nan" then some (.real .nan)
    else decimalScalar? cs

end Toml
end Floorplan
