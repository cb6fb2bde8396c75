import Floorplan.Binary
import Floorplan.Text.Blank
import Floorplan.Text.Numeral

/-!
# Floorplan.Color

Colors: the raw channels of a drawing (`Rgb`), and `Color` with channels from zero to one. A color
is read from `#rrggbb`, `0xrrggbb` or three 16-bit channels, and written with at most three places
for each channel.
-/

namespace Floorplan

structure Rgb where
  red : UInt16
  green : UInt16
  blue : UInt16
  deriving DecidableEq

/-- Red, green and blue as single values, where one is full intensity. -/
structure Color where
  red : Binary
  green : Binary
  blue : Binary
  deriving DecidableEq

namespace Color

/-- A channel as the part that `n` is of `full`. -/
def channel (n full : Nat) : Binary :=
  Binary.Format.single.ofRatio n full

def ofRgb (c : Rgb) : Color :=
  ⟨channel c.red.toNat 65535, channel c.green.toNat 65535, channel c.blue.toNat 65535⟩

def black : Color := ⟨channel 0 1, channel 0 1, channel 0 1⟩

instance : Inhabited Color := ⟨black⟩

/-- A channel with three places, without the zeros at its end. -/
def channelText (x : Binary) : String :=
  let cs := (x.placesText 3).toList.reverse
  let trimmed := String.ofList ((cs.dropWhile (· == '0')).dropWhile (· == '.')).reverse
  if trimmed == "" || trimmed == "-0" then "0" else trimmed

def text (c : Color) : String :=
  channelText c.red ++ "," ++ channelText c.green ++ "," ++ channelText c.blue

structure ParseError where
  text : String
  deriving DecidableEq

def ParseError.message (e : ParseError) : String :=
  "`" ++ e.text ++ "` is not a color, expected `#rrggbb` or three 16-bit channels"

def hexValue? (c : Char) : Option Nat :=
  if '0' ≤ c && c ≤ '9' then some (c.toNat - '0'.toNat)
  else if 'a' ≤ c && c ≤ 'f' then some (c.toNat - 'a'.toNat + 10)
  else if 'A' ≤ c && c ≤ 'F' then some (c.toNat - 'A'.toNat + 10)
  else none

/-- The six digits of a triplet, without the mark in front of them. -/
def tripletDigits : List Char → List Char
  | '#' :: rest => rest
  | '0' :: 'x' :: rest => rest
  | cs => cs

def parseHex (s : String) : Except ParseError Color :=
  match (tripletDigits s.toList).mapM hexValue? with
  | some [a, b, c, d, e, f] =>
    .ok ⟨channel (16 * a + b) 255, channel (16 * c + d) 255, channel (16 * e + f) 255⟩
  | _ => .error ⟨s⟩

/-- Reads one 16-bit channel, with blanks around it. -/
def parseChannel? (cs : List Char) : Option Nat :=
  Numeral.unsigned? 65535 (String.ofList (trimBlanks cs))

def commaParts (cs : List Char) : List (List Char) :=
  cs.splitOn ','

/-- Reads a triplet, or three channels if there is a comma. -/
def parse (s : String) : Except ParseError Color :=
  if s.toList.contains ',' then
    match (commaParts s.toList).mapM parseChannel? with
    | some [r, g, b] => .ok ⟨channel r 65535, channel g 65535, channel b 65535⟩
    | _ => .error ⟨s⟩
  else parseHex s

end Color
end Floorplan
