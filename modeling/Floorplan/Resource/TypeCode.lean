import Floorplan.Bytes
import Floorplan.Text.MacRoman
import Floorplan.Text.Numeral

/-!
# Floorplan.Resource.TypeCode

The code of a resource type: four Mac Roman characters in one long, whose order as a number is
that of its bytes.
-/

namespace Floorplan

structure TypeCode where
  code : UInt32
  deriving DecidableEq

inductive TypeCodeError where
  | length
  deriving DecidableEq

def TypeCodeError.message : TypeCodeError → String
  | .length => "invalid string length"

namespace TypeCode

def bytes (t : TypeCode) : List UInt8 := Bytes.ofLong t.code

def ofBytes? : List UInt8 → Option TypeCode
  | [a, b, c, d] => some ⟨Bytes.long a b c d⟩
  | _ => none

/-- The code whose bytes are those of a text in UTF-8. -/
def ofUtf8 (text : String) : Except TypeCodeError TypeCode :=
  match ofBytes? text.toUTF8.toList with
  | some t => .ok t
  | none => .error .length

/-- The type of pictures, `PICT`. -/
def pict : TypeCode := ⟨0x50494354⟩

/-- The control characters: the first 32, delete, and the 32 after it. -/
def isControl (c : Char) : Bool :=
  c.toNat < 0x20 || (0x7F ≤ c.toNat && c.toNat < 0xA0)

/-- A character as it is shown: a control character by its number. -/
def shown (c : Char) : String :=
  if isControl c then "\\x" ++ Numeral.hexUpper 2 c.toNat else c.toString

def text (t : TypeCode) : String :=
  String.join ((MacRoman.decode t.bytes).toList.map shown)

end TypeCode
end Floorplan
