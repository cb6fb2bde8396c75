import Floorplan.Resource.TypeCode

/-!
# Floorplan.Resource.Fork

The contents of a resource fork: resources under a type and an id, in the order of both. What is
inserted takes the place of what its type and id held before.
-/

namespace Floorplan

structure Resource where
  id : Int16
  name : Option String
  attributes : UInt8
  data : List UInt8
  deriving DecidableEq

structure Entry where
  type : TypeCode
  resource : Resource
  deriving DecidableEq

structure Fork where
  entries : List Entry
  deriving DecidableEq

namespace Entry

/-- The order of a fork: by type, then by id. -/
def order (a b : Entry) : Ordering :=
  (compare a.type.code b.type.code).then (compare a.resource.id b.resource.id)

def insert (e : Entry) : List Entry → List Entry
  | [] => [e]
  | x :: rest =>
    match order e x with
    | .lt => e :: x :: rest
    | .eq => e :: rest
    | .gt => x :: insert e rest

end Entry

namespace Fork

def empty : Fork := ⟨[]⟩

def insert (fork : Fork) (e : Entry) : Fork := ⟨e.insert fork.entries⟩

def ofEntries (entries : List Entry) : Fork :=
  entries.foldl insert empty

/-- The resources of a type, in the order of their ids. -/
def resources (fork : Fork) (type : TypeCode) : List Resource :=
  (fork.entries.filter fun e => e.type == type).map Entry.resource

def types (fork : Fork) : List TypeCode :=
  (fork.entries.map Entry.type).eraseDups

def get? (fork : Fork) (type : TypeCode) (id : Int16) : Option Resource :=
  (fork.resources type).find? fun r => r.id == id

/-- The resource with a name; of several, the one with the lowest id. -/
def named? (fork : Fork) (type : TypeCode) (name : String) : Option Resource :=
  (fork.resources type).find? fun r => r.name == some name

/-! ### Choosing and listing -/

/-- No resource answers the choice. -/
inductive SelectError where
  | noId (type : TypeCode) (id : Int16)
  | noResources (type : TypeCode)
  deriving DecidableEq

def SelectError.message : SelectError → String
  | .noId type id =>
    "there's no " ++ type.text ++ " resource with id " ++ Int.repr id.toInt
  | .noResources type => "the file has no " ++ type.text ++ " resources"

/-- The resource with the given id, or else the one with the name, or else the one with the lowest
id. -/
def select (fork : Fork) (type : TypeCode) (id : Option Int16) (name : String) :
    Except SelectError Resource :=
  match id with
  | some id =>
    match fork.get? type id with
    | some r => .ok r
    | none => .error (.noId type id)
  | none =>
    match fork.named? type name with
    | some r => .ok r
    | none =>
      match fork.resources type with
      | r :: _ => .ok r
      | [] => .error (.noResources type)

def column (width : Nat) (digits : String) : String :=
  String.ofList (Numeral.padLeft width ' ' digits.toList)

/-- A line of the listing: type, id, size and name. -/
def listingLine (type : TypeCode) (r : Resource) : String :=
  type.text ++ " " ++ column 6 (Int.repr r.id.toInt) ++ " " ++
    column 8 (Nat.repr r.data.length) ++ " bytes  " ++ r.name.getD "" ++ "\n"

def listing (fork : Fork) : String :=
  String.join (fork.entries.map fun e => listingLine e.type e.resource)

end Fork
end Floorplan
