import Floorplan.Level

/-!
# Floorplan.Level.Document

A level as an XML document: a root element with the texts, and in it one line for each of sky,
ground and entities. What an entity leaves at its standard value is not written.
-/

namespace Floorplan

/-- An element: its name, and its attributes in order. -/
structure Element where
  name : String
  attributes : List (String × String)
  deriving DecidableEq

namespace Element

/-- A character inside a quoted attribute. -/
def escapeChar (c : Char) : List Char :=
  if c = '&' then "&amp;".toList
  else if c = '<' then "&lt;".toList
  else if c = '>' then "&gt;".toList
  else if c = '\x22' then "&quot;".toList
  else if c = '\n' then "&#10;".toList
  else if c = '\r' then "&#13;".toList
  else if c = '\t' then "&#9;".toList
  else [c]

def escape (text : String) : String :=
  String.ofList (text.toList.flatMap escapeChar)

def attributeText (pair : String × String) : String :=
  " " ++ pair.1 ++ "=\"" ++ escape pair.2 ++ "\""

def openText (e : Element) : String :=
  "<" ++ e.name ++ String.join (e.attributes.map attributeText)

/-- The line of an element that has no content, inside the root. -/
def line (e : Element) : String :=
  "  " ++ e.openText ++ " />\n"

end Element

namespace Level

/-- The attributes of effects that differ from the standard. -/
def effectsAttributes (effects : Effects) : List (String × String) :=
  (if effects.mask = Effects.standard.mask then [] else [("mask", Nat.repr effects.mask.toNat)]) ++
  (match effects.mass with
    | none => []
    | some mass => [("mass", mass.text)]) ++
  (if effects.transparent then [("transparent", "true")] else []) ++
  (if effects.hostile then [("hostile", "true")] else [])

def skyElement (sky : Sky) : Element :=
  ⟨"sky", [("color", sky.color.text), ("horizon", sky.horizon.text)]⟩

def groundElement (ground : Ground) : Element :=
  ⟨"ground", [("color", ground.color.text)]⟩

def incarnatorElement (i : Incarnator) : Element :=
  ⟨"incarnator", [("location", i.location.text), ("angle", i.heading.text)]⟩

def blockElement (b : Block) : Element :=
  ⟨"block", [("size", b.size.text), ("center", b.center.text), ("color", b.color.text)] ++
    effectsAttributes b.effects⟩

def rampElement (r : Ramp) : Element :=
  ⟨"ramp", [("base", r.base.text), ("top", r.top.text), ("width", r.width.text),
      ("color", r.color.text)] ++
    (if 0 < r.thickness then [("thickness", r.thickness.text)] else []) ++
    effectsAttributes r.effects⟩

def goodyElement (g : Goody) : Element :=
  ⟨"goody", [("location", g.location.text), ("shape", g.kind.text),
      ("grenades", Nat.repr g.items.grenades), ("missiles", Nat.repr g.items.missiles),
      ("boosters", Nat.repr g.items.boosters)] ++
    (if g.spin = 0 then [] else [("speed", g.spin.text)]) ++ [("color", g.color.text)] ++
    effectsAttributes g.effects⟩

/-- The elements inside the root, in the order of the document. -/
def elements (level : Level) : List Element :=
  (level.sky.map skyElement).toList ++ (level.ground.map groundElement).toList ++
    level.incarnators.map incarnatorElement ++ level.blocks.map blockElement ++
    level.ramps.map rampElement ++ level.goodies.map goodyElement

def root (level : Level) : Element :=
  ⟨"map", [("name", level.name), ("author", level.author), ("tagline", level.tagline),
    ("description", level.description)]⟩

def document (level : Level) : String :=
  "<?xml version=\"1.0\" encoding=\"UTF-8\"?>\n" ++ level.root.openText ++ ">\n" ++
    String.join (level.elements.map Element.line) ++ "</map>\n"

end Level
end Floorplan
