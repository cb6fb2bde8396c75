import Floorplan.Drawing
import Floorplan.Picture.Stream

/-!
# Floorplan.Conversion

From a picture to a level: what a conversion starts from, and what it gives.
-/

namespace Floorplan

/-- What a level starts with. Its scripts can set another author and other heights. -/
structure Options where
  name : String
  author : Option String
  wallHeight : Decimal
  baseHeight : Decimal
  deriving DecidableEq

namespace Options

def standardWallHeight : Decimal := .ofInt 3

def level (o : Options) : Level :=
  { Level.named o.name with author := o.author.getD "" }

def heights (o : Options) : Heights := ⟨o.wallHeight, o.baseHeight, 0⟩

end Options

structure Conversion where
  level : Level
  problems : List Problem
  deriving DecidableEq

namespace Conversion

/-- Replays operations. What is wrong with their scripts is among the problems. -/
def ofOperations (options : Options) (operations : List Operation) : Conversion :=
  let draft := (operations.foldl Drawing.step (.start options.level options.heights)).finish
  ⟨draft.level, draft.problems⟩

def ofPicture (options : Options) (bytes : List UInt8) : Except PictureError Conversion :=
  match Picture.decode bytes with
  | .error e => .error e
  | .ok picture => .ok (ofOperations options picture.operations)

end Conversion
end Floorplan
