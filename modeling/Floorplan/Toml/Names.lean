import Floorplan.Toml.Scalar

/-!
# Floorplan.Toml.Names

The names that a TOML document binds. A key or a header is a path of names; `Names` holds under
every path that was met what is bound there. A value may be bound once. A table may be written in
pieces, under a header, by headers of tables in it, or by dotted keys; which piece may follow which
is decided here.
-/

namespace Floorplan
namespace Toml

abbrev Path := List String

inductive Binding where
  | value (value : Value)
  /-- A table that has had its own header. -/
  | headed
  /-- A table that is known only from headers of tables in it. -/
  | implied
  /-- A table that dotted keys were bound in. -/
  | dotted
  /-- A row of tables. The names below its path are those in the last of them. -/
  | row
  deriving DecidableEq

/-- What is bound under which path, in the order of the document. -/
abbrev Names := List (Path × Binding)

namespace Names

def get? (names : Names) (path : Path) : Option Binding :=
  (names.find? fun entry => entry.1 == path).map Prod.snd

/-- Binds a path, in the place of what was bound there or at the end. -/
def set (path : Path) (binding : Binding) : Names → Names
  | [] => [(path, binding)]
  | entry :: rest =>
    if entry.1 == path then (path, binding) :: rest else entry :: set path binding rest

def clearBelow (names : Names) (path : Path) : Names :=
  names.filter fun entry => !path.isPrefixOf entry.1 || entry.1 == path

/-- Goes down from `base` along a path of tables and binds those that are missing as `step`, which
is `implied` for a header and `dotted` for a key. A key does not go into a table with a header. -/
def descend (step : Binding) (base : Path) : Path → Names → Option Names
  | [], names => some names
  | name :: rest, names =>
    let path := base ++ [name]
    match names.get? path with
    | none => descend step path rest (names.set path step)
    | some (.value _) => none
    | some .headed => if step = .dotted then none else descend step path rest names
    | some _ => descend step path rest names

/-- Binds a key below `base` to a value. The table that the value is put in is `base`, or one that
is made by dotted keys alone. -/
def bind (names : Names) (base key : Path) (value : Value) : Option Names :=
  let path := base ++ key
  match descend .dotted base key.dropLast names with
  | none => none
  | some names =>
    if 1 < key.length && names.get? path.dropLast != some .dotted then none
    else if (names.get? path).isSome then none
    else some (names.set path (.value value))

def openTable (names : Names) (path : Path) : Option Names :=
  match descend .implied [] path.dropLast names with
  | none => none
  | some names =>
    match names.get? path with
    | none | some .implied => some (names.set path .headed)
    | some _ => none

def openRow (names : Names) (path : Path) : Option Names :=
  match descend .implied [] path.dropLast names with
  | none => none
  | some names =>
    match names.get? path with
    | none => some (names.set path .row)
    | some .row => some (names.clearBelow path)
    | some _ => none

/-- What is bound under paths of one name. Tables are values that have no meaning here. -/
def top (names : Names) : List (String × Value) :=
  names.filterMap fun entry =>
    match entry with
    | ([name], .value value) => some (name, value)
    | ([name], _) => some (name, .other)
    | _ => none

end Names

end Toml
end Floorplan
