import Floorplan.Color
import Floorplan.Picture.Opcode
import Floorplan.Picture.Shape

/-!
# Floorplan.Picture.Operation

The drawing operations of a picture. Those that a level is built from are the rectangles, the arcs
and the texts, with the settings of pen, oval, color and origin; the others are kept as they are.
-/

namespace Floorplan

/-- Where a text goes: at a point, or at a distance from the text before it. -/
inductive TextPlace where
  | point (location : Point)
  | dh (dh : UInt8)
  | dv (dv : UInt8)
  | dhdv (dh dv : UInt8)
  deriving DecidableEq

inductive Operation where
  | nop
  | clip (bounds : Rect) (region : List UInt8)
  | backPattern (pattern : Pattern)
  | textFont (font : UInt16)
  | textFace (face : UInt8)
  | textMode (mode : UInt16)
  | spaceExtra (extra : Int32)
  | penSize (size : Point)
  | penMode (mode : UInt16)
  | penPattern (pattern : Pattern)
  | fillPattern (pattern : Pattern)
  | ovalSize (size : Point)
  /-- Coordinates of later operations count from the shifted origin. -/
  | origin (dh dv : Int16)
  | textSize (size : UInt16)
  | foreColor (color : UInt32)
  | backColor (color : UInt32)
  | textRatio (numerator denominator : Point)
  | version (number : UInt16)
  | rgbFore (color : Rgb)
  | rgbBack (color : Rgb)
  | defaultHilite
  | line (first last : Point)
  | lineFrom (point : Point)
  | shortLine (first : Point) (dh dv : Int8)
  | shortLineFrom (dh dv : Int8)
  | text (place : TextPlace) (text : String)
  | fontName (font : UInt16) (name : String)
  | rect (stroke : Stroke) (corners : Corners) (bounds : Rect)
  | sameRect (stroke : Stroke) (corners : Corners)
  | arc (stroke : Stroke) (arc : Arc)
  | sameArc (stroke : Stroke) (start sweep : Int16)
  | shortComment (kind : UInt16)
  | longComment (kind : UInt16) (data : List UInt8)
  | endOfPicture
  deriving DecidableEq

/-- A decoded picture: the bounds of the drawing and its operations in order. -/
structure Picture where
  frame : Rect
  operations : List Operation
  deriving DecidableEq

namespace TextPlace

def form : TextPlace → TextForm
  | point _ => .long
  | dh _ => .dh
  | dv _ => .dv
  | dhdv _ _ => .dhdv

def bytes : TextPlace → List UInt8
  | point location => location.bytes
  | dh x => [x]
  | dv y => [y]
  | dhdv x y => [x, y]

def read : TextForm → Read TextPlace
  | .long => do return .point (← Point.read)
  | .dh => do return .dh (← Read.byte)
  | .dv => do return .dv (← Read.byte)
  | .dhdv => do
    let x ← Read.byte
    let y ← Read.byte
    return .dhdv x y

end TextPlace

namespace Operation

def opcode : Operation → Opcode
  | nop => .nop
  | clip _ _ => .clip
  | backPattern _ => .backPattern
  | textFont _ => .textFont
  | textFace _ => .textFace
  | textMode _ => .textMode
  | spaceExtra _ => .spaceExtra
  | penSize _ => .penSize
  | penMode _ => .penMode
  | penPattern _ => .penPattern
  | fillPattern _ => .fillPattern
  | ovalSize _ => .ovalSize
  | origin _ _ => .origin
  | textSize _ => .textSize
  | foreColor _ => .foreColor
  | backColor _ => .backColor
  | textRatio _ _ => .textRatio
  | version _ => .version
  | rgbFore _ => .rgbFore
  | rgbBack _ => .rgbBack
  | defaultHilite => .defaultHilite
  | line _ _ => .line
  | lineFrom _ => .lineFrom
  | shortLine _ _ _ => .shortLine
  | shortLineFrom _ _ => .shortLineFrom
  | text place _ => .text place.form
  | fontName _ _ => .fontName
  | rect stroke corners _ => .rect stroke corners
  | sameRect stroke corners => .sameRect stroke corners
  | arc stroke _ => .arc stroke
  | sameArc stroke _ _ => .sameArc stroke
  | shortComment _ => .shortComment
  | longComment _ _ => .longComment
  | endOfPicture => .endOfPicture

end Operation
end Floorplan
