import Floorplan.Bytes.Cursor

/-!
# Floorplan.Picture.Shape

The plane of a drawing: points, rectangles and arcs on a grid of 16-bit signed coordinates, with
the vertical one first, and how each is held in bytes.
-/

namespace Floorplan

structure Point where
  v : Int16
  h : Int16
  deriving DecidableEq

structure Rect where
  top : Int16
  left : Int16
  bottom : Int16
  right : Int16
  deriving DecidableEq

/-- A part of the ellipse in a rectangle. Angles are in degrees, clockwise from straight up. -/
structure Arc where
  bounds : Rect
  start : Int16
  sweep : Int16
  deriving DecidableEq

structure Pattern where
  rows : Vector UInt8 8
  deriving DecidableEq

namespace Point

def bytes (p : Point) : List UInt8 := Bytes.ofSigned p.v ++ Bytes.ofSigned p.h

def read : Read Point := do
  let v ← Read.signedWord
  let h ← Read.signedWord
  return ⟨v, h⟩

end Point

namespace Rect

def bytes (r : Rect) : List UInt8 :=
  Bytes.ofSigned r.top ++ Bytes.ofSigned r.left ++ Bytes.ofSigned r.bottom ++
    Bytes.ofSigned r.right

def read : Read Rect := do
  let top ← Read.signedWord
  let left ← Read.signedWord
  let bottom ← Read.signedWord
  let right ← Read.signedWord
  return ⟨top, left, bottom, right⟩

end Rect

namespace Arc

def bytes (a : Arc) : List UInt8 :=
  a.bounds.bytes ++ Bytes.ofSigned a.start ++ Bytes.ofSigned a.sweep

def read : Read Arc := do
  let bounds ← Rect.read
  let start ← Read.signedWord
  let sweep ← Read.signedWord
  return ⟨bounds, start, sweep⟩

end Arc

namespace Pattern

def bytes (p : Pattern) : List UInt8 := p.rows.toList

def read : Read Pattern := do
  let taken ← Read.take 8
  if h : taken.length = 8 then return ⟨⟨taken.toArray, by simp [h]⟩⟩ else failure

end Pattern
end Floorplan
