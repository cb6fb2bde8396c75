import Floorplan.Picture.Record
import Floorplan.Text.Numeral

/-!
# Floorplan.Picture.Stream

A picture as a run of bytes: a header of 40 bytes with the frame and the mark of version 2, then
records, each of which starts at an even offset. `Picture.decode` reads it as far as the end of
the bytes or the end mark, which it keeps, and `Picture.encode` writes it.
-/

namespace Floorplan

inductive PictureError where
  | truncatedHeader (length : Nat)
  | unsupportedVersion (found : UInt32)
  | unknownOpcode (code : UInt16) (offset : Nat)
  | truncated (opcode : Opcode) (offset : Nat)
  | badRecordLength (opcode : Opcode) (offset length : Nat)
  deriving DecidableEq

namespace PictureError

def message : PictureError → String
  | truncatedHeader length =>
    "picture header is truncated (" ++ Nat.repr length ++ " bytes, at least 40 expected)"
  | unsupportedVersion found =>
    "unsupported picture version 0x" ++ Numeral.hexUpper 8 found.toNat ++
      ", only version 2 pictures (0x001102FF) are supported"
  | unknownOpcode code offset =>
    "unknown opcode 0x" ++ Numeral.hexUpper 4 code.toNat ++ " at offset 0x" ++ Numeral.hex offset
  | truncated opcode offset =>
    opcode.name ++ " record at offset 0x" ++ Numeral.hex offset ++
      " runs past the end of the picture"
  | badRecordLength opcode offset length =>
    opcode.name ++ " record at offset 0x" ++ Numeral.hex offset ++
      " declares an invalid length of " ++ Nat.repr length

/-- The complaint about a record that starts at an offset. -/
def ofFault (opcode : Opcode) (offset : Nat) : RecordFault → PictureError
  | .truncated => truncated opcode offset
  | .badLength length => badRecordLength opcode offset length

end PictureError

namespace Picture

def headerSize : Nat := 40

def versionMark : UInt32 := 0x001102FF

/-- The long where the version mark stands, if the bytes go that far. -/
def versionFound? (bytes : List UInt8) : Option UInt32 :=
  Read.long.find? (bytes.drop 10)

/-! ### Decoding -/

/-- The operation whose record starts at an even offset, and the cursor after it; nothing if less
than a code is left. -/
def nextOperation (start : Cursor) : Except PictureError (Option (Operation × Cursor)) :=
  match Read.word start with
  | (none, _) => .ok none
  | (some code, c) =>
    match Opcode.ofCode? code with
    | none => .error (.unknownOpcode code start.offset)
    | some opcode =>
      match Record.read opcode c with
      | .error fault => .error (.ofFault opcode start.offset fault)
      | .ok (record, c) =>
        match Operation.ofRecord? record with
        | none => .error (.truncated opcode start.offset)
        | some operation => .ok (some (operation, c))

theorem length_rest_of_split? {n : Nat} {c c' : Cursor} {taken : List UInt8}
    (h : c.split? n = some (taken, c')) : c'.rest.length ≤ c.rest.length := by
  simp only [Cursor.split?] at h
  split at h
  · cases h; simp
  · cases h

theorem length_rest_of_read {opcode : Opcode} {c c' : Cursor} {record : Record}
    (h : Record.read opcode c = .ok (record, c')) : c'.rest.length ≤ c.rest.length := by
  simp only [Record.read] at h
  split at h
  · cases h
  · rename_i c₁ h₁
    split at h
    · cases h
    · split at h
      · cases h
      · rename_i c₂ h₂
        cases h
        exact Nat.le_trans (length_rest_of_split? h₂) (length_rest_of_split? h₁)

theorem length_rest_of_nextOperation {start c : Cursor} {operation : Operation}
    (h : nextOperation start = .ok (some (operation, c))) :
    c.rest.length < start.rest.length := by
  simp only [nextOperation] at h
  split at h
  · cases h
  · rename_i hword
    split at h
    · cases h
    · split at h
      · cases h
      · rename_i hread
        split at h
        · cases h
        · cases h
          exact Nat.lt_of_le_of_lt (length_rest_of_read hread) (Read.length_rest_of_word hword)

theorem length_rest_align (c : Cursor) : c.align.rest.length ≤ c.rest.length := by
  simp only [Cursor.align]
  split
  · split
    · exact Nat.le_refl _
    · rename_i heq
      simp [heq]
  · exact Nat.le_refl _

/-- The operations from a cursor on, up to the end of the bytes or the end mark. -/
def operationsFrom (c : Cursor) : Except PictureError (List Operation) :=
  match _h : nextOperation c.align with
  | .error e => .error e
  | .ok none => .ok []
  | .ok (some (operation, rest)) =>
    if operation = .endOfPicture then .ok [operation]
    else
      match operationsFrom rest with
      | .error e => .error e
      | .ok operations => .ok (operation :: operations)
termination_by c.rest.length
decreasing_by
  exact Nat.lt_of_lt_of_le (length_rest_of_nextOperation _h) (length_rest_align c)

/-- Reads a whole picture. A version other than 2 is refused even where the header is cut
short after it. -/
def decode (bytes : List UInt8) : Except PictureError Picture :=
  match (versionFound? bytes).filter (· != versionMark) with
  | some found => .error (.unsupportedVersion found)
  | none =>
    match (Cursor.ofBytes bytes).split? headerSize with
    | none => .error (.truncatedHeader bytes.length)
    | some (header, c) =>
      match (do Read.skip 2; Rect.read).find? header with
      | none => .error (.truncatedHeader bytes.length)
      | some frame =>
        match operationsFrom c with
        | .error e => .error e
        | .ok operations => .ok ⟨frame, operations⟩

/-! ### Standalone files -/

/-- The size of what stands in front of a picture in a file of its own. -/
def preambleSize : Nat := 512

def hasHeader (bytes : List UInt8) : Bool :=
  headerSize ≤ bytes.length && versionFound? bytes == some versionMark

/-- Drops the preamble of a file of its own, if there is one. -/
def dropPreamble (bytes : List UInt8) : List UInt8 :=
  if !hasHeader bytes && hasHeader (bytes.drop preambleSize) then bytes.drop preambleSize
  else bytes

/-! ### Encoding -/

/-- The records of operations, each padded to a whole number of words if another follows. -/
def recordBytes : List Operation → List UInt8
  | [] => []
  | [op] => op.record.bytes
  | op :: rest =>
    let bytes := op.record.bytes
    bytes ++ List.replicate (bytes.length % 2) 0 ++ recordBytes rest

/-- The header after its size word: the frame, the version, a resolution of 72 dots to the inch
both ways, and the frame again. -/
def headerTail (frame : Rect) : List UInt8 :=
  frame.bytes ++ Bytes.ofLong versionMark ++
    Bytes.ofWord 0x0C00 ++ Bytes.ofSigned (-2) ++ Bytes.ofWord 0 ++
    Bytes.ofLong 0x00480000 ++ Bytes.ofLong 0x00480000 ++ frame.bytes ++ Bytes.ofLong 0

/-- Writes a picture. The size word in front holds the low half of the size only. -/
def encode (picture : Picture) : List UInt8 :=
  let records := recordBytes picture.operations
  Bytes.ofWord (UInt16.ofNat (headerSize + records.length)) ++ headerTail picture.frame ++ records

def closed (picture : Picture) : Picture :=
  { picture with operations := picture.operations ++ [.endOfPicture] }

end Picture
end Floorplan
