import Floorplan.Picture.Record
import Floorplan.Proofs.MacRoman
import Floorplan.Proofs.Reading

/-!
# Floorplan.Proofs.Picture.Record

The record of an operation, read back. Its parts mean the operation again, up to the letters that
its texts lose (`Operation.ofRecord?_record`), and as long as the lengths of its parts fit the
words that hold them, `Record.read` cuts it out of any bytes that start with it
(`Operation.read_record`).
-/

namespace Floorplan

open Read

/-! ### Shapes -/

theorem Point.finds_read (p : Point) : Finds Point.read p.bytes p := by
  refine Finds.bind (finds_signedWord p.v) ?_
  exact Finds.map _ (finds_signedWord p.h)

theorem Rect.finds_read (r : Rect) : Finds Rect.read r.bytes r := by
  simp only [Rect.bytes, List.append_assoc]
  refine Finds.bind (finds_signedWord r.top) ?_
  refine Finds.bind (finds_signedWord r.left) ?_
  refine Finds.bind (finds_signedWord r.bottom) ?_
  exact Finds.map _ (finds_signedWord r.right)

theorem Arc.finds_read (a : Arc) : Finds Arc.read a.bytes a := by
  simp only [Arc.bytes, List.append_assoc]
  refine Finds.bind (Rect.finds_read a.bounds) ?_
  refine Finds.bind (finds_signedWord a.start) ?_
  exact Finds.map _ (finds_signedWord a.sweep)

theorem Pattern.length_bytes (p : Pattern) : p.bytes.length = 8 := by simp [Pattern.bytes]

theorem Pattern.finds_read (p : Pattern) : Finds Pattern.read p.bytes p := by
  intro offset rest
  have h := finds_take p.length_bytes offset rest
  simp only [Pattern.read, bind_apply, h]
  rw [dif_pos p.length_bytes]
  simp only [Pattern.bytes]
  rfl

theorem Rgb.finds_read (c : Rgb) : Finds Rgb.read c.bytes c := by
  simp only [Rgb.bytes, List.append_assoc]
  refine Finds.bind (finds_word c.red) ?_
  refine Finds.bind (finds_word c.green) ?_
  exact Finds.map _ (finds_word c.blue)

theorem TextPlace.finds_read (p : TextPlace) : Finds (TextPlace.read p.form) p.bytes p := by
  cases p with
  | point location => exact Finds.map _ (Point.finds_read location)
  | dh x => exact Finds.map _ (finds_byte x)
  | dv y => exact Finds.map _ (finds_byte y)
  | dhdv x y =>
    refine Finds.bind (p := [x]) (finds_byte x) ?_
    exact Finds.map _ (finds_byte y)

namespace Operation

/-- What is left of an operation that is written and read back: all but letters of its text or
name. -/
def legible : Operation → Operation
  | text place label => text place (MacRoman.legible label)
  | fontName font name => fontName font (MacRoman.legible name)
  | op => op

/-- Whether the size of a region or the length of a long comment fits the word that holds it. -/
def fits : Operation → Bool
  | clip _ region => region.length ≤ 65525
  | longComment _ data => data.length ≤ 65535
  | _ => true

/-! ### The meaning of a record -/

theorem length_shortText (label : String) : (shortText label).length ≤ 255 := by
  simp only [shortText, List.length_take]
  omega

theorem toNat_length_shortText (label : String) :
    (UInt8.ofNat (shortText label).length).toNat = (shortText label).length := by
  have := length_shortText label
  rw [UInt8.toNat_ofNat']
  omega

theorem finds_readFontName (font : UInt16) (name : String) :
    Finds readFontName (fontName font name).body (fontName font (MacRoman.legible name)) := by
  simp only [body, List.append_assoc]
  refine Finds.bind (finds_word font) ?_
  refine Finds.bind (finds_byte _) ?_
  rw [← MacRoman.decode_take_encode]
  refine Finds.map (fun name => fontName font (MacRoman.decode name)) ?_
  intro offset rest
  rw [toNat_length_shortText]
  simp [takeUpTo, shortText]

theorem ofRecord?_record (op : Operation) : ofRecord? op.record = some op.legible := by
  cases op with
  | nop | defaultHilite | endOfPicture => rfl
  | sameRect stroke corners => rfl
  | clip bounds region =>
    refine Finds.find?_eq (Finds.bind (finds_skip rfl) ?_)
    exact Finds.map (fun r => clip r region) (Rect.finds_read bounds)
  | backPattern p | penPattern p | fillPattern p =>
    exact Finds.find?_eq (Finds.map _ p.finds_read)
  | textFont w | textMode w | penMode w | textSize w | version w | shortComment w =>
    exact Finds.find?_eq (Finds.map _ (finds_word w))
  | textFace b => exact Finds.find?_eq (Finds.map _ (finds_byte b))
  | spaceExtra l => exact Finds.find?_eq (Finds.map _ (finds_signedLong l))
  | penSize p | ovalSize p | lineFrom p => exact Finds.find?_eq (Finds.map _ p.finds_read)
  | origin dh dv =>
    refine Finds.find?_eq (Finds.bind (finds_signedWord dh) ?_)
    exact Finds.map _ (finds_signedWord dv)
  | foreColor l | backColor l => exact Finds.find?_eq (Finds.map _ (finds_long l))
  | textRatio p q | line p q =>
    refine Finds.find?_eq (Finds.bind p.finds_read ?_)
    exact Finds.map _ q.finds_read
  | rgbFore c | rgbBack c => exact Finds.find?_eq (Finds.map _ c.finds_read)
  | shortLine p dh dv =>
    refine Finds.find?_eq (Finds.bind p.finds_read ?_)
    refine Finds.bind (p := [dh.toUInt8]) (finds_signedByte dh) ?_
    exact Finds.map _ (finds_signedByte dv)
  | shortLineFrom dh dv =>
    refine Finds.find?_eq (Finds.bind (p := [dh.toUInt8]) (finds_signedByte dh) ?_)
    exact Finds.map _ (finds_signedByte dv)
  | text place label =>
    -- the count behind the place is not read again, so the read stops before the end
    rw [legible, ← MacRoman.decode_take_encode]
    exact Finds.find?_append
      (Finds.map (fun p => text p (MacRoman.decode (shortText label))) place.finds_read) _
  | fontName font name =>
    have h := (finds_readFontName font name).find?_eq
    simp only [ofRecord?, record, opcode, read, h]
    rfl
  | rect stroke corners r => exact Finds.find?_eq (Finds.map _ r.finds_read)
  | arc stroke a => exact Finds.find?_eq (Finds.map _ a.finds_read)
  | sameArc stroke start sweep =>
    refine Finds.find?_eq (Finds.bind (finds_signedWord start) ?_)
    exact Finds.map _ (finds_signedWord sweep)
  | longComment kind data =>
    exact Finds.find?_append (Finds.map (fun k => longComment k data) (finds_word kind)) _

/-! ### The size of a record -/

theorem length_fixed (op : Operation) : op.fixed.length = op.opcode.layout.fixed := by
  cases op with
  | backPattern p | penPattern p | fillPattern p => exact p.length_bytes
  | text place label => cases place <;> rfl
  | _ => rfl

/-- The length in a fixed part is that of the body. -/
theorem bodyLength_fixed {op : Operation} (h : op.fits = true) :
    op.opcode.layout.bodyLength op.fixed = .ok op.body.length := by
  cases op with
  | clip bounds region =>
    have hlen : region.length ≤ 65525 := by simpa [fits] using h
    have hword : Bytes.wordAt (clip bounds region).fixed 0 = UInt16.ofNat (10 + region.length) :=
      Bytes.wordAt_append (p := []) _ rfl
    have htotal : (UInt16.ofNat (10 + region.length)).toNat = 10 + region.length := by
      rw [UInt16.toNat_ofNat']; omega
    simp only [Layout.bodyLength, opcode, Opcode.layout, hword, htotal]
    rw [if_neg (by omega), Nat.add_sub_cancel_left]
    rfl
  | text place label =>
    have hcount := toNat_length_shortText label
    cases place <;> exact congrArg Except.ok hcount
  | fontName font name =>
    have hlen := length_shortText name
    have hword : Bytes.wordAt (fontName font name).fixed 0 =
        UInt16.ofNat (3 + (shortText name).length) :=
      Bytes.wordAt_append (p := []) (q := []) _ rfl
    have hbody : (fontName font name).body.length = 3 + (shortText name).length := by
      simp only [body, List.length_append, List.length_singleton, Bytes.length_ofWord]
    simp only [Layout.bodyLength, opcode, Opcode.layout, hword, hbody]
    rw [UInt16.toNat_ofNat', Nat.mod_eq_of_lt (by omega)]
  | longComment kind data =>
    have hlen : data.length ≤ 65535 := by simpa [fits] using h
    have hword : Bytes.wordAt (longComment kind data).fixed 2 = UInt16.ofNat data.length :=
      Bytes.wordAt_append (p := Bytes.ofWord kind) (q := []) _ rfl
    simp only [Layout.bodyLength, opcode, Opcode.layout, hword]
    rw [UInt16.toNat_ofNat', Nat.mod_eq_of_lt (by omega)]
    rfl
  | _ => rfl

theorem read_record {op : Operation} (h : op.fits = true) (offset : Nat) (rest : List UInt8) :
    Record.read op.opcode ⟨offset, op.fixed ++ op.body ++ rest⟩ =
      .ok (op.record, ⟨offset + op.fixed.length + op.body.length, rest⟩) := by
  simp only [Record.read, List.append_assoc, split?_append _ op.length_fixed, bodyLength_fixed h,
    split?_append _ rfl]
  rw [op.length_fixed]
  rfl

end Operation
end Floorplan
