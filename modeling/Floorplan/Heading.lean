import Floorplan.Binary

/-!
# Floorplan.Heading

Directions on the plan, in degrees clockwise from straight up: the heading that a drawn arc points
at, and the quarter of the plan that a heading lies in.
-/

namespace Floorplan

structure Heading where
  degrees : Binary
  deriving DecidableEq

inductive Quarter where
  /-- Towards lower z, from 315 to 45 degrees. -/
  | north
  /-- Towards higher x, from 45 to 135 degrees. -/
  | east
  /-- Towards higher z, from 135 to 225 degrees. -/
  | south
  /-- Towards lower x, from 225 to 315 degrees. -/
  | west
  deriving DecidableEq

namespace Heading

/-- A number of half degrees, brought into one turn. Whole turns below zero leave a negative
zero. -/
def ofHalves (halves : Int) : Heading :=
  let rest := (halves % 720).toNat
  ⟨Binary.Format.double.round (halves < 0 && rest == 0) rest 2⟩

/-- The direction opposite to the middle of an arc, from 0 up to 360 degrees. The middle of an arc
is a whole number of half degrees. -/
def ofArc (start sweep : Int16) : Heading :=
  ofHalves (2 * start.toInt + sweep.toInt + 360)

def same (a b : Heading) : Bool := a.degrees.eq b.degrees

/-- The quarter of a heading; the lower bound of a quarter belongs to it, and what has no
direction counts as west. -/
def quarter (h : Heading) : Quarter :=
  match h.degrees.modulo .double 360 with
  | .finite negative m e =>
    let turned := Binary.finite negative m e
    if turned.below 45 then .north
    else if turned.below 135 then .east
    else if turned.below 225 then .south
    else if turned.below 315 then .west
    else .north
  | _ => .west

end Heading
end Floorplan
