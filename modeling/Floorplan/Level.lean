import Floorplan.Color
import Floorplan.Decimal

/-!
# Floorplan.Level

A finished level: its texts, the sky and the ground if it sets them, and its entities.
-/

namespace Floorplan

/-- A position or a size in space; `y` is up. -/
structure Vec3 where
  x : Decimal
  y : Decimal
  z : Decimal
  deriving DecidableEq

namespace Vec3

instance : Zero Vec3 := ⟨⟨0, 0, 0⟩⟩

def raised (p : Vec3) (dy : Decimal) : Vec3 := { p with y := p.y + dy }

def text (p : Vec3) : String := p.x.text ++ "," ++ p.y.text ++ "," ++ p.z.text

end Vec3

structure EntityId where
  number : Nat
  deriving DecidableEq

def EntityId.text (id : EntityId) : String := "#" ++ Nat.repr id.number

/-- What an entity collides with, a bit each for players, projectiles, scouts and the ground. -/
abbrev CollisionMask := BitVec 4

/-- What scripts can lay on blocks, ramps and goodies. -/
structure Effects where
  mask : CollisionMask
  mass : Option Decimal
  transparent : Bool
  hostile : Bool
  deriving DecidableEq

/-- An entity collides with everything unless it is told otherwise. -/
def Effects.standard : Effects := ⟨15, none, false, false⟩

/-- A box along the axes, a wall or a slab. -/
structure Block where
  size : Vec3
  center : Vec3
  color : Color
  /-- Rounding of the corners, zero for plain ones. -/
  rounding : Decimal
  effects : Effects
  deriving DecidableEq

def Block.bottom (b : Block) : Decimal := b.center.y - b.size.y.half

structure Ramp where
  /-- Middle of the low edge. -/
  base : Vec3
  /-- Middle of the high edge. -/
  top : Vec3
  width : Decimal
  thickness : Decimal
  color : Color
  effects : Effects
  deriving DecidableEq

/-- A place where players enter the level. -/
structure Incarnator where
  id : EntityId
  location : Vec3
  heading : Decimal
  deriving DecidableEq

inductive GoodyKind where
  | standard
  | grenade
  | missile
  deriving DecidableEq

namespace GoodyKind

/-- The kind of a shape by its name in the editor; all but the two weapons look alike. -/
def ofShape (shape : String) : GoodyKind :=
  if shape = "bspGrenade" then .grenade
  else if shape = "bspMissile" then .missile
  else .standard

def text : GoodyKind → String
  | standard => "goody"
  | grenade => "grenade"
  | missile => "missile"

end GoodyKind

structure ItemCounts where
  grenades : Nat
  missiles : Nat
  boosters : Nat
  deriving DecidableEq

structure Goody where
  id : EntityId
  location : Vec3
  kind : GoodyKind
  items : ItemCounts
  /-- Speed at which it turns, zero if it is still. -/
  spin : Decimal
  color : Color
  effects : Effects
  deriving DecidableEq

structure Sky where
  color : Color
  horizon : Color
  deriving DecidableEq

def Sky.standard : Sky :=
  ⟨⟨Color.channel 4 10, Color.channel 6 10, Color.channel 1 1⟩,
    ⟨Color.channel 8 10, Color.channel 9 10, Color.channel 1 1⟩⟩

structure Ground where
  color : Color
  deriving DecidableEq

def Ground.standard : Ground :=
  ⟨⟨Color.channel 1 2, Color.channel 1 2, Color.channel 1 2⟩⟩

structure Level where
  name : String
  author : String
  tagline : String
  description : String
  sky : Option Sky
  ground : Option Ground
  incarnators : List Incarnator
  blocks : List Block
  ramps : List Ramp
  goodies : List Goody
  deriving DecidableEq

namespace Level

def named (name : String) : Level := ⟨name, "", "", "", none, none, [], [], [], []⟩

/-- The number of entities; sky and ground are none. -/
def entityCount (level : Level) : Nat :=
  level.incarnators.length + level.blocks.length + level.ramps.length + level.goodies.length

end Level
end Floorplan
