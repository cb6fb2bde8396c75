import Floorplan.Resource.Fork

/-!
# Floorplan.Resource.Container

A resource fork as a run of bytes: a header of four longs, a data section and a resource map. The
map holds a list of types, for each type a list of references, and a list of names; a reference
points to its name and to its data. `Container.decode` checks every part against the bytes that
hold it, and `Container.encode` writes a fork.
-/

namespace Floorplan
namespace Container

inductive Part where
  | header
  | dataSection
  | resourceMap
  | typeListOffset
  | nameListOffset
  | typeCount
  | typeEntry
  | referenceEntry
  | nameLength
  | name
  | dataLength
  | resourceData
  deriving DecidableEq

def Part.text : Part → String
  | header => "header"
  | dataSection => "data section"
  | resourceMap => "resource map"
  | typeListOffset => "type list offset"
  | nameListOffset => "name list offset"
  | typeCount => "type count"
  | typeEntry => "type entry"
  | referenceEntry => "reference entry"
  | nameLength => "name length"
  | name => "name"
  | dataLength => "data length"
  | resourceData => "resource data"

/-- A part of `length` bytes at `offset` does not lie within the `bound` bytes that should hold
it. -/
structure Malformed where
  part : Part
  offset : Nat
  length : Nat
  bound : Nat
  deriving DecidableEq

def Malformed.message (e : Malformed) : String :=
  "malformed container: " ++ e.part.text ++ " (" ++ Nat.repr e.length ++ " bytes at 0x" ++
    Numeral.hex e.offset ++ ") lies outside of the " ++ Nat.repr e.bound ++ " available bytes"

def region (part : Part) (bytes : List UInt8) (offset length : Nat) :
    Except Malformed (List UInt8) :=
  if offset + length ≤ bytes.length then .ok ((bytes.drop offset).take length)
  else .error ⟨part, offset, length, bytes.length⟩

def wordIn (part : Part) (bytes : List UInt8) (offset : Nat) : Except Malformed Nat := do
  let found ← region part bytes offset 2
  return (Bytes.wordAt found 0).toNat

/-! ### Decoding -/

def typeEntrySize : Nat := 8
def referenceSize : Nat := 12

/-- The word that stands for the offset of a name where there is none. -/
def unnamed : UInt16 := 0xFFFF

/-- The two sections, and where the lists are in the map. -/
structure Frame where
  data : List UInt8
  map : List UInt8
  typeList : Nat
  nameList : Nat

def frame (bytes : List UInt8) : Except Malformed Frame := do
  let header ← region .header bytes 0 16
  let field (i : Nat) := (Bytes.longAt header i).toNat
  let data ← region .dataSection bytes (field 0) (field 8)
  let map ← region .resourceMap bytes (field 4) (field 12)
  let typeList ← wordIn .typeListOffset map 24
  let nameList ← wordIn .nameListOffset map 26
  return ⟨data, map, typeList, nameList⟩

/-- A name: its length in a byte, then its characters. -/
def nameAt (f : Frame) (offset : Nat) : Except Malformed String := do
  let length ← region .nameLength f.map offset 1
  let name ← region .name f.map (offset + 1) (length.getD 0 0).toNat
  return MacRoman.decode name

def referenceName (f : Frame) (offset : UInt16) : Except Malformed (Option String) :=
  if offset = unnamed then .ok none
  else
    match nameAt f (f.nameList + offset.toNat) with
    | .error e => .error e
    | .ok name => .ok (some name)

/-- The bytes that stand in the data section behind their length. -/
def dataAt (f : Frame) (offset : Nat) : Except Malformed (List UInt8) := do
  let length ← region .dataLength f.data offset 4
  region .resourceData f.data (offset + 4) (Bytes.longAt length 0).toNat

/-- The resource of a reference. The offset of its data has 24 bits. -/
def resourceOf (f : Frame) (reference : List UInt8) : Except Malformed Resource := do
  let byte (i : Nat) := reference.getD i 0
  let name ← referenceName f (Bytes.wordAt reference 2)
  let data ← dataAt f (Bytes.long 0 (byte 5) (byte 6) (byte 7)).toNat
  return ⟨(Bytes.wordAt reference 0).toInt16, name, byte 4, data⟩

/-- The resources that a type entry refers to. Its list is found from the start of the list of
types, and its count is stored less one. -/
def entriesOf (f : Frame) (entry : List UInt8) : Except Malformed (List Entry) := do
  let type : TypeCode := ⟨Bytes.longAt entry 0⟩
  let count := (Bytes.wordAt entry 4).toNat + 1
  let list := f.typeList + (Bytes.wordAt entry 6).toNat
  (List.range count).mapM fun i => do
    let reference ← region .referenceEntry f.map (list + i * referenceSize) referenceSize
    let resource ← resourceOf f reference
    return ⟨type, resource⟩

/-- The number of types is stored less one, so that a map without types holds the largest word. -/
def typeCount (f : Frame) : Except Malformed Nat := do
  let stored ← wordIn .typeCount f.map f.typeList
  return (stored + 1) % 65536

/-- Reads a whole fork. Where a type and id are met again, the later resource counts. -/
def decode (bytes : List UInt8) : Except Malformed Fork := do
  let f ← frame bytes
  let count ← typeCount f
  let entries ← (List.range count).mapM fun i => do
    let entry ← region .typeEntry f.map (f.typeList + 2 + i * typeEntrySize) typeEntrySize
    entriesOf f entry
  return Fork.ofEntries entries.flatten

/-! ### Encoding -/

/-- Where the data section starts; what stands between the header and it is the system's. -/
def dataStart : Nat := 256

def typeListStart : Nat := 28

structure Sections where
  types : List UInt8
  references : List UInt8
  names : List UInt8
  data : List UInt8

/-- The part of a name that there is room for, behind its length. -/
def nameBytes (name : String) : List UInt8 :=
  let encoded := (MacRoman.encode name).take 255
  UInt8.ofNat encoded.length :: encoded

def addResource (s : Sections) (r : Resource) : Sections :=
  let nameOffset := if r.name.isSome then UInt16.ofNat s.names.length else unnamed
  { types := s.types
    references := s.references ++ Bytes.ofWord r.id.toUInt16 ++ Bytes.ofWord nameOffset ++
      [r.attributes] ++ (Bytes.ofLong (UInt32.ofNat s.data.length)).drop 1 ++ Bytes.ofLong 0
    names := s.names ++ (r.name.map nameBytes).getD []
    data := s.data ++ Bytes.ofLong (UInt32.ofNat r.data.length) ++ r.data }

/-- Adds a type with its resources; `listStart` is where the references start in the list of
types. -/
def addType (listStart : Nat) (s : Sections) (type : TypeCode) (resources : List Resource) :
    Sections :=
  let entry := type.bytes ++ Bytes.ofWord (UInt16.ofNat resources.length - 1) ++
    Bytes.ofWord (UInt16.ofNat (listStart + s.references.length))
  resources.foldl addResource { s with types := s.types ++ entry }

/-- Where the references start, counted from the start of the list of types. -/
def referencesStart (fork : Fork) : Nat :=
  2 + fork.types.length * typeEntrySize

def sections (fork : Fork) : Sections :=
  let listStart := referencesStart fork
  fork.types.foldl (fun s type => addType listStart s type (fork.resources type)) ⟨[], [], [], []⟩

def mapBytes (fork : Fork) (s : Sections) : List UInt8 :=
  List.replicate 24 0 ++ Bytes.ofWord (UInt16.ofNat typeListStart) ++
    Bytes.ofWord
      (UInt16.ofNat (typeListStart + referencesStart fork + s.references.length)) ++
    Bytes.ofWord (UInt16.ofNat fork.types.length - 1) ++ s.types ++ s.references ++ s.names

def encode (fork : Fork) : List UInt8 :=
  let s := sections fork
  let map := mapBytes fork s
  let header := Bytes.ofLong (UInt32.ofNat dataStart) ++
    Bytes.ofLong (UInt32.ofNat (dataStart + s.data.length)) ++
    Bytes.ofLong (UInt32.ofNat s.data.length) ++ Bytes.ofLong (UInt32.ofNat map.length)
  header ++ List.replicate (dataStart - header.length) 0 ++ s.data ++ map

end Container
end Floorplan
