import Floorplan.Placement
import Floorplan.Problem

/-!
# Floorplan.Draft

A level while it is drawn: the entities so far, the shapes at hand that scripts can claim, the
heights in force, the ids given out and the problems met. Entities and problems are kept in the
order in which they came.
-/

namespace Floorplan

/-- The ids given out so far are those from 1 to `allocated`. -/
structure Ids where
  allocated : Nat
  deriving DecidableEq

namespace Ids

def none : Ids := ⟨0⟩

/-- A fresh id, and the ids with it given out. -/
def next (ids : Ids) : EntityId × Ids := (⟨ids.allocated + 1⟩, ⟨ids.allocated + 1⟩)

/-- The next `count` ids in order, and the ids with them given out. -/
def take : Nat → Ids → List EntityId × Ids
  | 0, ids => ([], ids)
  | count + 1, ids =>
    let (id, ids) := ids.next
    let (rest, ids) := take count ids
    (id :: rest, ids)

end Ids

/-- An arc of the drawing that no script has claimed yet. -/
structure DrawnArc where
  id : EntityId
  bounds : Rect
  center : Vec3
  heading : Heading
  stroke : Color
  fill : Option Color
  deriving DecidableEq

/-- The color inside an arc; one that was only framed has the color of its outline. -/
def DrawnArc.fillColor (a : DrawnArc) : Color := a.fill.getD a.stroke

structure Shapes where
  /-- Where the current block is among the blocks of the level. -/
  block : Option Nat
  arc : Option DrawnArc
  lastRect : Option Rect
  lastArc : Option Rect
  /-- The color of the last paint, for the next frame of the same rectangle. -/
  paint : Option Color
  deriving DecidableEq

namespace Shapes

def none : Shapes := ⟨.none, .none, .none, .none, .none⟩

/-- Forgets the block and the arc; the rectangles and the paint stay. -/
def clear (s : Shapes) : Shapes := { s with block := .none, arc := .none }

end Shapes

structure Draft where
  level : Level
  shapes : Shapes
  heights : Heights
  ids : Ids
  problems : List Problem
  deriving DecidableEq

namespace Draft

def start (level : Level) (heights : Heights) : Draft := ⟨level, .none, heights, .none, []⟩

def report (d : Draft) (p : Problem) : Draft := { d with problems := d.problems ++ [p] }

def reportAll (d : Draft) (ps : List Problem) : Draft := { d with problems := d.problems ++ ps }

def clearShapes (d : Draft) : Draft := { d with shapes := d.shapes.clear }

def withBlocks (d : Draft) (blocks : List Block) : Draft :=
  { d with level := { d.level with blocks } }

/-- Adds a block that is not current. -/
def addBlock (d : Draft) (b : Block) : Draft := d.withBlocks (d.level.blocks ++ [b])

/-- Adds a block and makes it the current one. -/
def pushBlock (d : Draft) (b : Block) : Draft :=
  let d' := d.addBlock b
  { d' with shapes := { d'.shapes with block := some d.level.blocks.length } }

/-- The current block, if there is one where it should be. -/
def currentBlock? (d : Draft) : Option Block :=
  match d.shapes.block with
  | none => none
  | some i => d.level.blocks[i]?

def modifyBlock (d : Draft) (f : Block → Block) : Draft :=
  match d.shapes.block with
  | none => d
  | some i => d.withBlocks (d.level.blocks.modify i f)

def forgetBlock (d : Draft) : Draft := { d with shapes := { d.shapes with block := none } }

def takeBlock (d : Draft) : Option Block × Draft :=
  match d.shapes.block with
  | none => (none, d)
  | some i => (d.level.blocks[i]?, (d.withBlocks (d.level.blocks.eraseIdx i)).forgetBlock)

def takeArc (d : Draft) : Option DrawnArc × Draft :=
  (d.shapes.arc, { d with shapes := { d.shapes with arc := none } })

/-- Says that a shape an object needs was not drawn, and forgets the shapes at hand. -/
def lack (d : Draft) (object : String) (shape : ShapeKind) : Draft :=
  (d.report (.missingShape object shape)).clearShapes

end Draft
end Floorplan
