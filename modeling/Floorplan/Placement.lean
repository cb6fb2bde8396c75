import Floorplan.Heading
import Floorplan.Level
import Floorplan.Picture.Shape

/-!
# Floorplan.Placement

From the plane of the drawing into space: 18 pixels are one unit of the world, drawn to the right
is x and drawn down is z. A framed rectangle stands for a block, an arc for the middle of its
rectangle, and a ramp is laid over the footprint of a block. `blockSize` and `blockCenter` are what a
block gets, in exact integers, and `blockBounds` computes the two in 64 bits.
-/

namespace Floorplan

/-- A distance in pixels, to the right and down. Both parts are exact integers here, of any size, and
are stored in 64 bits; `Placement.blockBounds` tells where that is too little. How far an origin is
moved in a conversion never needs more (`Conversion.ofOperations_within`). -/
structure Offset where
  x : Int
  y : Int
  deriving DecidableEq

namespace Offset

instance : Zero Offset := ⟨⟨0, 0⟩⟩

def ofPoint (p : Point) : Offset := ⟨p.h.toInt, p.v.toInt⟩

end Offset

/-- The heights that a rectangle is raised by: those of walls and of the floor, and a lift for
the next block only. -/
structure Heights where
  wall : Decimal
  base : Decimal
  lift : Decimal
  deriving DecidableEq

namespace Placement

def pixels : Int := 18

def scale (raw : Int) : Decimal := Decimal.ofRatio raw pixels

/-- Scales a coordinate that is given doubled, such as the sum of two edges. -/
def scaleDoubled (doubled : Int) : Decimal := Decimal.ofRatio doubled (2 * pixels)

/-- The extent between two edges, less the width of the pen that drew them. -/
def span (a b pen : Int) : Int := max ((b - a).natAbs - pen) 0

/-- The size of the block of a framed rectangle. The pen draws inside the rectangle, so the walls
run through the middle of its stroke. -/
def blockSize (r : Rect) (pen : Offset) (heights : Heights) : Vec3 :=
  ⟨scale (span r.left.toInt r.right.toInt pen.x), heights.wall,
    scale (span r.top.toInt r.bottom.toInt pen.y)⟩

def blockCenter (r : Rect) (origin : Offset) (heights : Heights) : Vec3 :=
  ⟨scaleDoubled (r.left.toInt + r.right.toInt + 2 * origin.x),
    heights.base + heights.lift + heights.wall.half,
    scaleDoubled (r.top.toInt + r.bottom.toInt + 2 * origin.y)⟩

/-! ### In 64 bits -/

def heldScale (raw : Int) : Except Overflow Decimal := Decimal.heldRatio raw pixels

def heldScaleDoubled (doubled : Int) : Except Overflow Decimal :=
  Decimal.heldRatio doubled (2 * pixels)

def heldSpan (a b pen : Int) : Except Overflow Int := do
  let difference ← held .subtract (b - a)
  let extent ← heldAbs difference
  return max (← held .subtract (extent - pen)) 0

/-- The middle between two edges, scaled. -/
def heldMiddle (a b : Int) : Except Overflow Decimal := do
  heldScaleDoubled (← held .add (a + b))

/-- The size of the block of a framed rectangle and its center. The edges are moved by the origin
first. -/
def blockBounds (r : Rect) (origin pen : Offset) (heights : Heights) :
    Except Overflow (Vec3 × Vec3) := do
  let left ← held .add (r.left.toInt + origin.x)
  let right ← held .add (r.right.toInt + origin.x)
  let top ← held .add (r.top.toInt + origin.y)
  let bottom ← held .add (r.bottom.toInt + origin.y)
  let across ← heldSpan left right pen.x
  let along ← heldSpan top bottom pen.y
  let width ← heldScale across
  let depth ← heldScale along
  let x ← heldMiddle left right
  let floor ← heights.base.heldAdd heights.lift
  let y ← floor.heldAdd (← heights.wall.heldHalf)
  let z ← heldMiddle top bottom
  return (⟨width, heights.wall, depth⟩, ⟨x, y, z⟩)

/-! ### Arcs and ramps -/

/-- The middle of the rectangle of an arc, on the floor. -/
def arcCenter (r : Rect) (origin : Offset) : Vec3 :=
  ⟨scaleDoubled (r.left.toInt + r.right.toInt + 2 * origin.x), 0,
    scaleDoubled (r.top.toInt + r.bottom.toInt + 2 * origin.y)⟩

structure RampBounds where
  base : Vec3
  top : Vec3
  width : Decimal
  deriving DecidableEq

/-- A ramp over the footprint of a block: its base is on the edge that faces away from the quarter
and its top, higher by `rise`, on the opposite one. -/
def rampBounds (footprint : Block) (quarter : Quarter) (y rise : Decimal) : RampBounds :=
  let cx := footprint.center.x
  let cz := footprint.center.z
  let hx := footprint.size.x.half
  let hz := footprint.size.z.half
  match quarter with
  | .north => ⟨⟨cx, y, cz + hz⟩, ⟨cx, y + rise, cz - hz⟩, footprint.size.x⟩
  | .east => ⟨⟨cx - hx, y, cz⟩, ⟨cx + hx, y + rise, cz⟩, footprint.size.z⟩
  | .south => ⟨⟨cx, y, cz - hz⟩, ⟨cx, y + rise, cz + hz⟩, footprint.size.x⟩
  | .west => ⟨⟨cx + hx, y, cz⟩, ⟨cx - hx, y + rise, cz⟩, footprint.size.z⟩

end Placement
end Floorplan
