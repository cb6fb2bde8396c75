import Floorplan.Conversion
import Floorplan.Decimal.Snap
import Floorplan.Resource.TypeCode
import Floorplan.Toml

/-!
# Floorplan.Settings

The settings of a conversion, from a TOML document. Every key may be left out.
-/

namespace Floorplan

structure Settings where
  wallHeight : Decimal
  baseHeight : Decimal
  author : Option String
  /-- The type of the resources that levels are in, as a text of four characters. -/
  resourceType : String
  deriving DecidableEq

inductive SettingsError where
  | malformed
  | unknownKey (key : String)
  | wrongType (key : String)
  | heightOutOfRange
  | resourceType (text : String)
  deriving DecidableEq

namespace SettingsError

def message : SettingsError → String
  | malformed => "the settings are not well formed"
  | unknownKey key => "unknown key `" ++ key ++ "`"
  | wrongType key => "wrong type of value for `" ++ key ++ "`"
  | heightOutOfRange => "height out of range, the limit is " ++ Decimal.limit.text
  | resourceType text => "resource type `" ++ text ++ "` isn't 4 characters long"

/-- Whether the error is one of the document as such, before its meaning is looked at. -/
def isDocumentError : SettingsError → Bool
  | resourceType _ => false
  | _ => true

end SettingsError

namespace Settings

def standard : Settings := ⟨Options.standardWallHeight, 0, none, TypeCode.pict.text⟩

/-- A height, as an integer or a real number in range. -/
def height (key : String) : Toml.Value → Except SettingsError Decimal
  | .integer n =>
    match Decimal.ofInt? n with
    | some x => .ok x
    | none => .error .heightOutOfRange
  | .real x =>
    if x.withinMagnitude Decimal.limit.toBinary then .ok (Decimal.snap x)
    else .error .heightOutOfRange
  | _ => .error (.wrongType key)

def text (key : String) : Toml.Value → Except SettingsError String
  | .text s => .ok s
  | _ => .error (.wrongType key)

def set (s : Settings) (item : Toml.Item) : Except SettingsError Settings :=
  let (key, value) := item
  match key with
  | "wall_height" => do return { s with wallHeight := ← height key value }
  | "base_height" => do return { s with baseHeight := ← height key value }
  | "author" => do return { s with author := some (← text key value) }
  | "resource_type" => do return { s with resourceType := ← text key value }
  | _ => .error (.unknownKey key)

/-- The type code of the resources that levels are in. -/
def typeCode (s : Settings) : Except SettingsError TypeCode :=
  match TypeCode.ofBytes? (MacRoman.encode s.resourceType) with
  | some t => .ok t
  | none => .error (.resourceType s.resourceType)

/-- Reads a document of settings. Its items are looked at in the order of their keys. -/
def parse (document : String) : Except SettingsError Settings := do
  match Toml.parse? document with
  | none => .error .malformed
  | some items =>
    let s ← (items.mergeSort fun a b => a.1 ≤ b.1).foldlM set standard
    let _ ← s.typeCode
    return s

/-- What a conversion of a level with this name starts from. -/
def options (s : Settings) (name : String) : Options :=
  ⟨name, s.author, s.wallHeight, s.baseHeight⟩

end Settings
end Floorplan
