import Floorplan.Level
import Floorplan.Problem
import Floorplan.Text.Numeral

/-!
# Floorplan.Script.Fields

The pairs of key and value in an object block. Of several values of one key the last counts. A
value that cannot be read counts as none, and the problem is given back beside it.
-/

namespace Floorplan

structure Fields where
  pairs : List (String × String)
  deriving DecidableEq

namespace Fields

def empty : Fields := ⟨[]⟩

def add (fields : Fields) (key value : String) : Fields := ⟨fields.pairs ++ [(key, value)]⟩

def last? (fields : Fields) (key : String) : Option String :=
  (fields.pairs.filter fun pair => pair.1 == key).getLast?.map Prod.snd

def others (fields : Fields) (keys : List String) : List (String × String) :=
  fields.pairs.filter fun pair => !keys.contains pair.1

def read {α : Type} (fields : Fields) (key : String) (parse : String → Except SyntaxFault α) :
    Option α × List Problem :=
  match fields.last? key with
  | none => (none, [])
  | some text =>
    match parse text with
    | .ok value => (some value, [])
    | .error fault => (none, [.malformed fault])

/-- Reads a value of a key, which has no value if it is not of the expected form. -/
def valid {α : Type} (key : String) (parse : String → Option α) (text : String) :
    Except SyntaxFault α :=
  match parse text with
  | some value => .ok value
  | none => .error (.invalidValue key text)

def decimal (fields : Fields) (key : String) : Option Decimal × List Problem :=
  fields.read key (valid key fun text => (Decimal.parse text).toOption)

/-- A count of 32 bits. -/
def count (fields : Fields) (key : String) : Option Nat × List Problem :=
  fields.read key (valid key (Numeral.unsigned? 4294967295))

def parseFlag (key text : String) : Except SyntaxFault Bool :=
  let lower := String.ofList (text.toList.map Char.toLower)
  if ["1", "true", "yes"].contains lower then .ok true
  else if ["0", "false", "no"].contains lower then .ok false
  else .error (.notFlag key text)

def flag (fields : Fields) (key : String) : Option Bool × List Problem :=
  fields.read key (parseFlag key)

def effectsKeys : List String := ["mask", "mass", "transparent", "hostile"]

/-- The effects that the fields ask for; of the mask only the known bits count. -/
def effects (fields : Fields) : Effects × List Problem :=
  let (mask, p₁) := fields.count "mask"
  let (mass, p₂) := fields.decimal "mass"
  let (transparent, p₃) := fields.flag "transparent"
  let (hostile, p₄) := fields.flag "hostile"
  (⟨(mask.map (BitVec.ofNat 4)).getD Effects.standard.mask, mass, transparent.getD false,
    hostile.getD false⟩, p₁ ++ p₂ ++ p₃ ++ p₄)

end Fields
end Floorplan
