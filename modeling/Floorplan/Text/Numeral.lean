/-!
# Floorplan.Text.Numeral

Whole numbers in text: readers for signed and unsigned decimal numerals within a range, and
hexadecimal writers.
-/

namespace Floorplan
namespace Numeral

def digits? (cs : List Char) : Option Nat :=
  if cs.isEmpty || !cs.all Char.isDigit then none else some (Nat.ofDigitChars 10 cs 0)

/-- Reads an unsigned numeral up to `limit`; one plus sign may stand in front. -/
def unsigned? (limit : Nat) (text : String) : Option Nat :=
  let cs := match text.toList with
    | '+' :: rest => rest
    | cs => cs
  (digits? cs).filter (· ≤ limit)

/-- Reads a numeral from `low` to `high`; one sign may stand in front. -/
def signed? (low high : Int) (text : String) : Option Int :=
  let value : Option Int := match text.toList with
    | '-' :: rest => (digits? rest).map fun n => -(n : Int)
    | '+' :: rest => (digits? rest).map Int.ofNat
    | cs => (digits? cs).map Int.ofNat
  value.filter fun n => low ≤ n && n ≤ high

def padLeft (width : Nat) (fill : Char) (cs : List Char) : List Char :=
  List.replicate (width - cs.length) fill ++ cs

/-- Lower case hexadecimal digits, as many as the number needs. -/
def hex (n : Nat) : String :=
  String.ofList (Nat.toDigits 16 n)

/-- Upper case hexadecimal digits, at least `width` of them. -/
def hexUpper (width n : Nat) : String :=
  String.ofList (padLeft width '0' ((Nat.toDigits 16 n).map Char.toUpper))

end Numeral
end Floorplan
