/-!
# Floorplan.Picture.Opcode

The operation codes of version 2 pictures that a level may use, and the layout of the record that
follows each. The length of a record hangs on its code alone, so a picture with any other code
cannot be read past it. `ofCode?_eq_some_iff` says that `ofCode?` inverts `code`.
-/

namespace Floorplan

/-- Which half of a frame and paint pair an operation is. -/
inductive Stroke where
  | frame
  | paint
  deriving DecidableEq

inductive Corners where
  | square
  | round
  deriving DecidableEq

/-- How a text operation says where its text goes. -/
inductive TextForm where
  | long
  | dh
  | dv
  | dhdv
  deriving DecidableEq

inductive Opcode where
  | nop
  | clip
  | backPattern
  | textFont
  | textFace
  | textMode
  | spaceExtra
  | penSize
  | penMode
  | penPattern
  | fillPattern
  | ovalSize
  | origin
  | textSize
  | foreColor
  | backColor
  | textRatio
  | version
  | rgbFore
  | rgbBack
  | defaultHilite
  | line
  | lineFrom
  | shortLine
  | shortLineFrom
  | text (form : TextForm)
  | fontName
  | rect (stroke : Stroke) (corners : Corners)
  | sameRect (stroke : Stroke) (corners : Corners)
  | arc (stroke : Stroke)
  | sameArc (stroke : Stroke)
  | shortComment
  | longComment
  | endOfPicture
  deriving DecidableEq

/-- How the length of a record's body is found in its fixed part. -/
inductive Extent where
  | none
  /-- The first word is the size of both parts together. -/
  | totalSize
  | countByte (index : Nat)
  | lengthWord (index : Nat)
  deriving DecidableEq

/-- The size of a record's fixed part, and the extent of what follows it. -/
structure Layout where
  fixed : Nat
  extent : Extent
  deriving DecidableEq

namespace Opcode

def code : Opcode → UInt16
  | nop => 0x00
  | clip => 0x01
  | backPattern => 0x02
  | textFont => 0x03
  | textFace => 0x04
  | textMode => 0x05
  | spaceExtra => 0x06
  | penSize => 0x07
  | penMode => 0x08
  | penPattern => 0x09
  | fillPattern => 0x0A
  | ovalSize => 0x0B
  | origin => 0x0C
  | textSize => 0x0D
  | foreColor => 0x0E
  | backColor => 0x0F
  | textRatio => 0x10
  | version => 0x11
  | rgbFore => 0x1A
  | rgbBack => 0x1B
  | defaultHilite => 0x1E
  | line => 0x20
  | lineFrom => 0x21
  | shortLine => 0x22
  | shortLineFrom => 0x23
  | text .long => 0x28
  | text .dh => 0x29
  | text .dv => 0x2A
  | text .dhdv => 0x2B
  | fontName => 0x2C
  | rect .frame .square => 0x30
  | rect .paint .square => 0x31
  | sameRect .frame .square => 0x38
  | sameRect .paint .square => 0x39
  | rect .frame .round => 0x40
  | rect .paint .round => 0x41
  | sameRect .frame .round => 0x48
  | sameRect .paint .round => 0x49
  | arc .frame => 0x60
  | arc .paint => 0x61
  | sameArc .frame => 0x68
  | sameArc .paint => 0x69
  | shortComment => 0xA0
  | longComment => 0xA1
  | endOfPicture => 0xFF

/-- The short name that a complaint about a record gives it. -/
def name : Opcode → String
  | nop => "Nop"
  | clip => "Clip"
  | backPattern => "BkPat"
  | textFont => "TxFont"
  | textFace => "TxFace"
  | textMode => "TxMode"
  | spaceExtra => "SpExtra"
  | penSize => "PnSize"
  | penMode => "PnMode"
  | penPattern => "PnPat"
  | fillPattern => "FillPat"
  | ovalSize => "OvSize"
  | origin => "Origin"
  | textSize => "TxSize"
  | foreColor => "FgColor"
  | backColor => "BkColor"
  | textRatio => "TxRatio"
  | version => "Version"
  | rgbFore => "RgbFgCol"
  | rgbBack => "RgbBkCol"
  | defaultHilite => "DefHilite"
  | line => "Line"
  | lineFrom => "LineFrom"
  | shortLine => "ShortLine"
  | shortLineFrom => "ShortLineFrom"
  | text .long => "LongText"
  | text .dh => "DhText"
  | text .dv => "DvText"
  | text .dhdv => "DhDvText"
  | fontName => "FontName"
  | rect .frame .square => "FrameRect"
  | rect .paint .square => "PaintRect"
  | sameRect .frame .square => "FrameSameRect"
  | sameRect .paint .square => "PaintSameRect"
  | rect .frame .round => "FrameRRect"
  | rect .paint .round => "PaintRRect"
  | sameRect .frame .round => "FrameSameRRect"
  | sameRect .paint .round => "PaintSameRRect"
  | arc .frame => "FrameArc"
  | arc .paint => "PaintArc"
  | sameArc .frame => "FrameSameArc"
  | sameArc .paint => "PaintSameArc"
  | shortComment => "ShortComment"
  | longComment => "LongComment"
  | endOfPicture => "OpEndPic"

def layout : Opcode → Layout
  | nop | defaultHilite | sameRect _ _ | endOfPicture => ⟨0, .none⟩
  | clip => ⟨10, .totalSize⟩
  | textFace => ⟨1, .none⟩
  | textFont | textMode | penMode | textSize | version | shortComment | shortLineFrom =>
    ⟨2, .none⟩
  | spaceExtra | penSize | ovalSize | origin | foreColor | backColor | lineFrom | sameArc _ =>
    ⟨4, .none⟩
  | rgbFore | rgbBack | shortLine => ⟨6, .none⟩
  | backPattern | penPattern | fillPattern | textRatio | line | rect _ _ => ⟨8, .none⟩
  | arc _ => ⟨12, .none⟩
  | text .long => ⟨5, .countByte 4⟩
  | text .dh | text .dv => ⟨2, .countByte 1⟩
  | text .dhdv => ⟨3, .countByte 2⟩
  | fontName => ⟨2, .lengthWord 0⟩
  | longComment => ⟨4, .lengthWord 2⟩

def all : List Opcode :=
  [nop, clip, backPattern, textFont, textFace, textMode, spaceExtra, penSize, penMode, penPattern,
    fillPattern, ovalSize, origin, textSize, foreColor, backColor, textRatio, version, rgbFore,
    rgbBack, defaultHilite, line, lineFrom, shortLine, shortLineFrom, text .long, text .dh,
    text .dv, text .dhdv, fontName, rect .frame .square, rect .paint .square,
    sameRect .frame .square, sameRect .paint .square, rect .frame .round, rect .paint .round,
    sameRect .frame .round, sameRect .paint .round, arc .frame, arc .paint, sameArc .frame,
    sameArc .paint, shortComment, longComment, endOfPicture]

def ofCode? (n : UInt16) : Option Opcode :=
  all.find? fun op => op.code == n

theorem ofCode?_code (op : Opcode) : ofCode? op.code = some op := by
  cases op with
  | text form => cases form <;> rfl
  | rect stroke corners => cases stroke <;> cases corners <;> rfl
  | sameRect stroke corners => cases stroke <;> cases corners <;> rfl
  | arc stroke => cases stroke <;> rfl
  | sameArc stroke => cases stroke <;> rfl
  | _ => rfl

theorem eq_of_code_eq {op op' : Opcode} (h : op.code = op'.code) : op = op' := by
  have hfound := ofCode?_code op
  rw [h, ofCode?_code] at hfound
  exact (Option.some.inj hfound).symm

theorem ofCode?_eq_some_iff {n : UInt16} {op : Opcode} : ofCode? n = some op ↔ op.code = n := by
  constructor
  · intro h
    have found := List.find?_some h
    simpa using found
  · intro h
    rw [← h, ofCode?_code]

end Opcode
end Floorplan
