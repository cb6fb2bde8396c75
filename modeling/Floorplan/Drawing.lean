import Floorplan.Picture.Operation
import Floorplan.Script.Run

/-!
# Floorplan.Drawing

Replays a drawing. Framed rectangles become blocks at once and arcs are kept until a script claims
them. Texts are gathered, and run as one script when anything else is drawn or the drawing ends.
-/

namespace Floorplan

/-- What the drawing operations set up for those after them. -/
structure PenState where
  /-- Where the origin is after all its shifts. -/
  origin : Offset
  size : Offset
  color : Color
  /-- Size of the corners of round rectangles. -/
  oval : Point
  clip : Option Rect
  /-- The origin moved since the last rectangle. -/
  rectMoved : Bool
  /-- The origin moved since the last arc. -/
  arcMoved : Bool
  deriving DecidableEq

def PenState.start : PenState := ⟨0, 0, .black, ⟨0, 0⟩, none, false, false⟩

structure Drawing where
  pen : PenState
  draft : Draft
  mode : Script.Mode
  /-- The texts since the last operation that was none. -/
  texts : List String
  deriving DecidableEq

namespace Drawing

def start (level : Level) (heights : Heights) : Drawing :=
  ⟨.start, .start level heights, .global, []⟩

def flush (d : Drawing) : Drawing :=
  if d.texts.isEmpty then d
  else
    let (mode, draft) := Script.run d.mode (String.intercalate " " d.texts) d.draft
    { d with mode, draft, texts := [] }

def withShapes (d : Drawing) (f : Shapes → Shapes) : Drawing :=
  { d with draft := { d.draft with shapes := f d.draft.shapes } }

/-- The rounding that a rectangle gets from its corners. -/
def rounding (d : Drawing) : Corners → Decimal
  | .square => 0
  | .round => Placement.scale d.pen.oval.h.toInt

/-! ### Rectangles -/

/-- Raises a rectangle into a new block. The lift is used up by it. -/
def raise (d : Drawing) (r : Rect) (color : Color) (rounding : Decimal) : Drawing :=
  let heights := d.draft.heights
  let draft := d.draft.pushBlock
    { size := Placement.blockSize r d.pen.size heights
      center := Placement.blockCenter r d.pen.origin heights
      color
      rounding
      effects := .standard }
  { d with
    draft := { draft with heights := { draft.heights with lift := 0 } }
    pen := { d.pen with rectMoved := false } }

/-- A paint is for the rectangle it was made for, and another frame forgets it. -/
def frameRect (d : Drawing) (corners : Corners) (r : Rect) : Drawing :=
  (d.withShapes fun s => { s with lastRect := some r, paint := none }).raise r d.pen.color
    (d.rounding corners)

def paintRect (d : Drawing) (r : Rect) : Drawing :=
  { d.withShapes fun s => { s with lastRect := some r, paint := some d.pen.color } with
    pen := { d.pen with rectMoved := false } }

/-- Frames the last rectangle again: a new block if the origin moved, else the current block takes
the color. -/
def frameSameRect (d : Drawing) (corners : Corners) : Drawing :=
  match d.draft.shapes.lastRect with
  | none => d
  | some r =>
    let color := d.draft.shapes.paint.getD d.pen.color
    if d.pen.rectMoved then d.raise r color (d.rounding corners)
    else { d with draft := d.draft.modifyBlock fun b => { b with color } }

def paintSameRect (d : Drawing) : Drawing :=
  d.withShapes fun s => { s with paint := some d.pen.color }

/-! ### Arcs -/

/-- A frame gives an arc the color of its outline, a paint that of its inside. -/
def applyStroke (arc : DrawnArc) (color : Color) : Stroke → DrawnArc
  | .frame => { arc with stroke := color }
  | .paint => { arc with fill := some color }

/-- Draws an arc with an id of its own and makes it the current one. -/
def newArc (d : Drawing) (stroke : Stroke) (r : Rect) (heading : Heading) : Drawing :=
  let (id, ids) := d.draft.ids.next
  let arc : DrawnArc :=
    { id
      bounds := r
      center := Placement.arcCenter r d.pen.origin
      heading
      stroke := d.pen.color
      fill := none }
  let shapes :=
    { d.draft.shapes with arc := some (applyStroke arc d.pen.color stroke), lastArc := some r }
  { d with
    draft := { d.draft with ids, shapes }
    pen := { d.pen with arcMoved := false } }

/-- Draws the last arc again, with new angles. While it points where the current arc does, and the
origin stands, it is the current arc. -/
def sameArc (d : Drawing) (stroke : Stroke) (start sweep : Int16) : Drawing :=
  match d.draft.shapes.lastArc with
  | none => d
  | some r =>
    let heading := Heading.ofArc start sweep
    match d.draft.shapes.arc with
    | none => d.newArc stroke r heading
    | some current =>
      if !d.pen.arcMoved && current.heading.same heading then
        d.withShapes fun s => { s with arc := some (applyStroke current d.pen.color stroke) }
      else d.newArc stroke r heading

/-! ### Operations -/

def shiftOrigin (d : Drawing) (dh dv : Int16) : Drawing :=
  { d with
    pen :=
      { d.pen with
        origin := ⟨d.pen.origin.x - dh.toInt, d.pen.origin.y - dv.toInt⟩
        rectMoved := true
        arcMoved := true } }

/-- Draws an operation that is no text. Those that no level needs do nothing. -/
def draw (d : Drawing) : Operation → Drawing
  | .clip bounds _ => { d with pen := { d.pen with clip := some bounds } }
  | .origin dh dv => d.shiftOrigin dh dv
  | .penSize size => { d with pen := { d.pen with size := .ofPoint size } }
  | .rgbFore color => { d with pen := { d.pen with color := .ofRgb color } }
  | .ovalSize size => { d with pen := { d.pen with oval := size } }
  | .rect .frame corners r => d.frameRect corners r
  | .rect .paint _ r => d.paintRect r
  | .sameRect .frame corners => d.frameSameRect corners
  | .sameRect .paint _ => d.paintSameRect
  | .arc stroke a => d.newArc stroke a.bounds (.ofArc a.start a.sweep)
  | .sameArc stroke start sweep => d.sameArc stroke start sweep
  | _ => d

def step (d : Drawing) : Operation → Drawing
  | .text _ text => { d with texts := d.texts ++ [text] }
  | operation => d.flush.draw operation

/-- Ends the drawing: texts that are gathered are run, and an open block is reported. -/
def finish (d : Drawing) : Draft :=
  let d := d.flush
  (Script.finish d.mode d.draft).2

end Drawing
end Floorplan
