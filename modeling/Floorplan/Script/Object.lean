import Floorplan.Decimal.Snap
import Floorplan.Draft
import Floorplan.Script.Fields

/-!
# Floorplan.Script.Object

The objects of a script. `Object.ofFields` reads what an object block asks for, `Object.place` puts
it into a draft with the shapes at hand, and `Object.close` does both and reports what was wrong.
An object either takes the shapes it needs or reports the one that is missing.
-/

namespace Floorplan

inductive ObjectKind where
  | incarnator
  | goody
  | ramp
  | wall
  deriving DecidableEq

namespace ObjectKind

def text : ObjectKind → String
  | incarnator => "Incarnator"
  | goody => "Goody"
  | ramp => "Ramp"
  | wall => "Wall"

def ofText? (text : String) : Option ObjectKind :=
  [incarnator, goody, ramp, wall].find? fun kind => kind.text == text

def keys : ObjectKind → List String
  | incarnator => ["y"]
  | goody => Fields.effectsKeys ++ ["y", "shape", "grenades", "missiles", "boosters", "speed"]
  | ramp => Fields.effectsKeys ++ ["deltaY", "y", "thickness"]
  | wall => Fields.effectsKeys ++ ["y", "height"]

end ObjectKind

inductive Object where
  | incarnator (y : Decimal)
  | goody (effects : Effects) (y : Decimal) (kind : GoodyKind) (items : ItemCounts)
    (spin : Decimal)
  | ramp (effects : Effects) (rise y : Decimal) (thickness : Option Decimal)
  | wall (effects : Effects) (y height : Option Decimal)
  deriving DecidableEq

namespace Object

def ofFields (kind : ObjectKind) (fields : Fields) : Object × List Problem :=
  match kind with
  | .incarnator =>
    let (y, p) := fields.decimal "y"
    (.incarnator (y.getD 0), p)
  | .goody =>
    let (effects, p₁) := fields.effects
    let (y, p₂) := fields.decimal "y"
    let shape := (fields.last? "shape").map GoodyKind.ofShape
    let (grenades, p₃) := fields.count "grenades"
    let (missiles, p₄) := fields.count "missiles"
    let (boosters, p₅) := fields.count "boosters"
    let (spin, p₆) := fields.decimal "speed"
    (.goody effects (y.getD 0) (shape.getD .standard)
      ⟨grenades.getD 0, missiles.getD 0, boosters.getD 0⟩ (spin.getD 0),
      p₁ ++ p₂ ++ p₃ ++ p₄ ++ p₅ ++ p₆)
  | .ramp =>
    let (effects, p₁) := fields.effects
    let (rise, p₂) := fields.decimal "deltaY"
    let (y, p₃) := fields.decimal "y"
    let (thickness, p₄) := fields.decimal "thickness"
    (.ramp effects (rise.getD 0) (y.getD 0) thickness, p₁ ++ p₂ ++ p₃ ++ p₄)
  | .wall =>
    let (effects, p₁) := fields.effects
    let (y, p₂) := fields.decimal "y"
    let (height, p₃) := fields.decimal "height"
    (.wall effects y height, p₁ ++ p₂ ++ p₃)

/-- A block that lies flat at a height: as thick as told, or as its corners are round, or as it
was. -/
def slab (b : Block) (effects : Effects) (y : Decimal) (thickness : Option Decimal) : Block :=
  let wanted := thickness.getD b.rounding
  let height := if wanted = 0 then b.size.y else wanted
  { b with
    size := { b.size with y := height }
    center := { b.center with y := y + height.half }
    effects }

/-- A block that rests at `y` or where it did, with a new height or the old one. -/
def standing (b : Block) (effects : Effects) (y height : Option Decimal) : Block :=
  let tall := height.getD b.size.y
  { b with
    size := { b.size with y := tall }
    center := { b.center with y := y.getD b.bottom + tall.half }
    effects }

/-- The ramp over a block, rising where an arc points. -/
def rampOver (b : Block) (arc : DrawnArc) (effects : Effects) (rise y : Decimal)
    (thickness : Option Decimal) : Ramp :=
  let bounds := Placement.rampBounds b arc.heading.quarter y rise
  { base := bounds.base
    top := bounds.top
    width := bounds.width
    thickness := thickness.getD b.rounding
    color := b.color
    effects }

def addIncarnator (d : Draft) (i : Incarnator) : Draft :=
  { d with level := { d.level with incarnators := d.level.incarnators ++ [i] } }

def addGoody (d : Draft) (g : Goody) : Draft :=
  { d with level := { d.level with goodies := d.level.goodies ++ [g] } }

def addRamp (d : Draft) (r : Ramp) : Draft :=
  { d with level := { d.level with ramps := d.level.ramps ++ [r] } }

/-- Claims the current arc for an object, or says that it is missing. -/
def claimArc (d : Draft) (kind : ObjectKind) (use : DrawnArc → Draft → Draft) : Draft :=
  match d.takeArc with
  | (some arc, d) => use arc d
  | (none, d) => d.lack kind.text .arc

/-- A ramp that does not rise is a slab and needs a block only. One that rises needs an arc too,
and its block stays a wall where there is none. -/
def placeRamp (d : Draft) (effects : Effects) (rise y : Decimal) (thickness : Option Decimal) :
    Draft :=
  match d.shapes.block with
  | none => d.lack ObjectKind.ramp.text .rectangle
  | some _ =>
    if rise = 0 then
      match d.takeBlock with
      | (some b, d) => d.addBlock (slab b effects y thickness)
      | (none, d) => d
    else
      claimArc d .ramp fun arc d =>
        match d.takeBlock with
        | (some b, d) => addRamp d (rampOver b arc effects rise y thickness)
        | (none, d) => d

/-- Puts an object into a draft with the shapes at hand. -/
def place (object : Object) (d : Draft) : Draft :=
  match object with
  | .incarnator y =>
    claimArc d .incarnator fun arc d =>
      addIncarnator d ⟨arc.id, arc.center.raised y, Decimal.snap arc.heading.degrees⟩
  | .goody effects y kind items spin =>
    claimArc d .goody fun arc d =>
      addGoody d ⟨arc.id, arc.center.raised y, kind, items, spin, arc.fillColor, effects⟩
  | .ramp effects rise y thickness => placeRamp d effects rise y thickness
  | .wall effects y height =>
    match d.currentBlock? with
    | some _ => (d.modifyBlock fun b => standing b effects y height).forgetBlock
    | none => d.lack ObjectKind.wall.text .rectangle

/-- Closes an object block: the object is placed, then what was wrong with its fields is
reported, and then every key that objects of its kind do not have. -/
def close (kind : String) (fields : Fields) (d : Draft) : Draft :=
  match ObjectKind.ofText? kind with
  | none => d.report (.malformed (.unknownKind kind))
  | some known =>
    let (object, problems) := ofFields known fields
    ((object.place d).reportAll problems).reportAll
      ((fields.others known.keys).map fun pair => .malformed (.unknownField kind pair.1))

end Object
end Floorplan
