import Floorplan.Picture.Operation
import Floorplan.Text.MacRoman

/-!
# Floorplan.Picture.Record

A record is an operation in its form on disk: the code, a fixed part whose size hangs on the code,
and a body whose length stands in the fixed one. `Record.read` cuts a record out of the
bytes after its code, `Operation.ofRecord?` gives its meaning, and `Operation.record` is the record
that an operation is written as.
-/

namespace Floorplan

structure Record where
  opcode : Opcode
  fixed : List UInt8
  body : List UInt8
  deriving DecidableEq

/-- What is wrong with a record: it needs more bytes than there are, or its size is less than that
of its fixed part. -/
inductive RecordFault where
  | truncated
  | badLength (length : Nat)
  deriving DecidableEq

def Layout.bodyLength (layout : Layout) (fixed : List UInt8) : Except RecordFault Nat :=
  match layout.extent with
  | .none => .ok 0
  | .totalSize =>
    let total := (Bytes.wordAt fixed 0).toNat
    if total < layout.fixed then .error (.badLength total) else .ok (total - layout.fixed)
  | .countByte i => .ok (fixed.getD i 0).toNat
  | .lengthWord i => .ok (Bytes.wordAt fixed i).toNat

namespace Record

def bytes (r : Record) : List UInt8 :=
  Bytes.ofWord r.opcode.code ++ r.fixed ++ r.body

/-- The record whose code has just been passed, and the cursor after it. -/
def read (opcode : Opcode) (c : Cursor) : Except RecordFault (Record × Cursor) :=
  match c.split? opcode.layout.fixed with
  | none => .error .truncated
  | some (fixed, c) =>
    match opcode.layout.bodyLength fixed with
    | .error fault => .error fault
    | .ok length =>
      match c.split? length with
      | none => .error .truncated
      | some (body, c) => .ok (⟨opcode, fixed, body⟩, c)

end Record

namespace Rgb

def bytes (c : Rgb) : List UInt8 :=
  Bytes.ofWord c.red ++ Bytes.ofWord c.green ++ Bytes.ofWord c.blue

def read : Read Rgb := do
  let red ← Read.word
  let green ← Read.word
  let blue ← Read.word
  return ⟨red, green, blue⟩

end Rgb

namespace Operation

/-- A font's number and its name, which has its length in front. Bytes after the name are passed
over, and a name that is cut short is taken as far as it goes. -/
def readFontName : Read Operation := do
  let font ← Read.word
  let length ← Read.byte
  let name ← Read.takeUpTo length.toNat
  return .fontName font (MacRoman.decode name)

/-- Reads the fixed part of a record with the given body. -/
def read (body : List UInt8) : Opcode → Read Operation
  | .nop => return .nop
  | .clip => do
    Read.skip 2
    return .clip (← Rect.read) body
  | .backPattern => return .backPattern (← Pattern.read)
  | .textFont => return .textFont (← Read.word)
  | .textFace => return .textFace (← Read.byte)
  | .textMode => return .textMode (← Read.word)
  | .spaceExtra => return .spaceExtra (← Read.signedLong)
  | .penSize => return .penSize (← Point.read)
  | .penMode => return .penMode (← Read.word)
  | .penPattern => return .penPattern (← Pattern.read)
  | .fillPattern => return .fillPattern (← Pattern.read)
  | .ovalSize => return .ovalSize (← Point.read)
  | .origin => do
    let dh ← Read.signedWord
    let dv ← Read.signedWord
    return .origin dh dv
  | .textSize => return .textSize (← Read.word)
  | .foreColor => return .foreColor (← Read.long)
  | .backColor => return .backColor (← Read.long)
  | .textRatio => do
    let numerator ← Point.read
    let denominator ← Point.read
    return .textRatio numerator denominator
  | .version => return .version (← Read.word)
  | .rgbFore => return .rgbFore (← Rgb.read)
  | .rgbBack => return .rgbBack (← Rgb.read)
  | .defaultHilite => return .defaultHilite
  | .line => do
    let first ← Point.read
    let last ← Point.read
    return .line first last
  | .lineFrom => return .lineFrom (← Point.read)
  | .shortLine => do
    let first ← Point.read
    let dh ← Read.signedByte
    let dv ← Read.signedByte
    return .shortLine first dh dv
  | .shortLineFrom => do
    let dh ← Read.signedByte
    let dv ← Read.signedByte
    return .shortLineFrom dh dv
  | .text form => return .text (← TextPlace.read form) (MacRoman.decode body)
  | .fontName =>
    match readFontName.find? body with
    | some operation => return operation
    | none => failure
  | .rect stroke corners => return .rect stroke corners (← Rect.read)
  | .sameRect stroke corners => return .sameRect stroke corners
  | .arc stroke => return .arc stroke (← Arc.read)
  | .sameArc stroke => do
    let start ← Read.signedWord
    let sweep ← Read.signedWord
    return .sameArc stroke start sweep
  | .shortComment => return .shortComment (← Read.word)
  | .longComment => return .longComment (← Read.word) body
  | .endOfPicture => return .endOfPicture

/-- The meaning of a record; there is none if a part is shorter than what it holds. -/
def ofRecord? (r : Record) : Option Operation :=
  (read r.body r.opcode).find? r.fixed

/-- The part of a text that a record has room for, in bytes. -/
def shortText (text : String) : List UInt8 :=
  (MacRoman.encode text).take 255

def fixed : Operation → List UInt8
  | nop | defaultHilite | sameRect _ _ | endOfPicture => []
  | clip bounds region => Bytes.ofWord (UInt16.ofNat (10 + region.length)) ++ bounds.bytes
  | backPattern pattern | penPattern pattern | fillPattern pattern => pattern.bytes
  | textFont value | textMode value | penMode value | textSize value | version value
  | shortComment value => Bytes.ofWord value
  | textFace face => [face]
  | spaceExtra extra => Bytes.ofLong extra.toUInt32
  | penSize point | ovalSize point | lineFrom point => point.bytes
  | origin dh dv => Bytes.ofSigned dh ++ Bytes.ofSigned dv
  | foreColor color | backColor color => Bytes.ofLong color
  | textRatio numerator denominator => numerator.bytes ++ denominator.bytes
  | rgbFore color | rgbBack color => color.bytes
  | line first last => first.bytes ++ last.bytes
  | shortLine first dh dv => first.bytes ++ [dh.toUInt8, dv.toUInt8]
  | shortLineFrom dh dv => [dh.toUInt8, dv.toUInt8]
  | text place label => place.bytes ++ [UInt8.ofNat (shortText label).length]
  | fontName _ name => Bytes.ofWord (UInt16.ofNat (3 + (shortText name).length))
  | rect _ _ bounds => bounds.bytes
  | arc _ shape => shape.bytes
  | sameArc _ start sweep => Bytes.ofSigned start ++ Bytes.ofSigned sweep
  | longComment kind data => Bytes.ofWord kind ++ Bytes.ofWord (UInt16.ofNat data.length)

def body : Operation → List UInt8
  | clip _ region => region
  | text _ label => shortText label
  | fontName font name =>
    Bytes.ofWord font ++ [UInt8.ofNat (shortText name).length] ++ shortText name
  | longComment _ data => data
  | _ => []

def record (op : Operation) : Record := ⟨op.opcode, op.fixed, op.body⟩

end Operation
end Floorplan
