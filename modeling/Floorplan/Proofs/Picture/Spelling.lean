import Floorplan.Proofs.Picture.Joining

/-!
# Floorplan.Proofs.Picture.Spelling

A record, told from the operation that it means. What is read of the fixed part of a record is what
is written for the operation (`Operation.takes_read`), and the rest of it is the length of the body.
So an operation that was read comes back unchanged when it is written and read again
(`Record.Sized.faithful`), and its record is the one that it was read from unless that is a font's
name with bytes behind it (`Record.Sized.record_eq`).
-/

namespace Floorplan

open Read

/-! ### Shapes -/

theorem Point.takes_read : Takes Point.read fun p bytes => bytes = p.bytes := by
  refine takes_signedWord.bind ?_
  rintro v _ rfl
  refine takes_signedWord.map ?_
  rintro h _ rfl
  rfl

theorem Rect.takes_read : Takes Rect.read fun r bytes => bytes = r.bytes := by
  refine takes_signedWord.bind ?_
  rintro top _ rfl
  refine takes_signedWord.bind ?_
  rintro left _ rfl
  refine takes_signedWord.bind ?_
  rintro bottom _ rfl
  refine takes_signedWord.map ?_
  rintro right _ rfl
  simp only [Rect.bytes, List.append_assoc]

theorem Arc.takes_read : Takes Arc.read fun a bytes => bytes = a.bytes := by
  refine Rect.takes_read.bind ?_
  rintro bounds _ rfl
  refine takes_signedWord.bind ?_
  rintro start _ rfl
  refine takes_signedWord.map ?_
  rintro sweep _ rfl
  simp only [Arc.bytes, List.append_assoc]

theorem Pattern.takes_read : Takes Pattern.read fun p bytes => bytes = p.bytes := by
  refine (takes_take 8).bind ?_
  rintro taken _ ⟨rfl, hlength⟩
  rw [dif_pos hlength]
  apply Takes.pure
  simp only [Pattern.bytes, List.append_nil]
  rfl

theorem Rgb.takes_read : Takes Rgb.read fun c bytes => bytes = c.bytes := by
  refine takes_word.bind ?_
  rintro red _ rfl
  refine takes_word.bind ?_
  rintro green _ rfl
  refine takes_word.map ?_
  rintro blue _ rfl
  simp only [Rgb.bytes, List.append_assoc]

theorem TextPlace.takes_read (form : TextForm) :
    Takes (TextPlace.read form) fun p bytes => p.form = form ∧ bytes = p.bytes := by
  cases form with
  | long =>
    refine Point.takes_read.map ?_
    rintro location _ rfl
    exact ⟨rfl, rfl⟩
  | dh =>
    refine takes_byte.map ?_
    rintro x _ rfl
    exact ⟨rfl, rfl⟩
  | dv =>
    refine takes_byte.map ?_
    rintro y _ rfl
    exact ⟨rfl, rfl⟩
  | dhdv =>
    refine takes_byte.bind ?_
    rintro x _ rfl
    refine takes_byte.map ?_
    rintro y _ rfl
    exact ⟨rfl, rfl⟩

namespace Operation

/-! ### What is read of a record -/

/-- The operation that a body and the bytes read of the fixed part make. What is not read of a fixed
part is the length of the body, in front of a clip's bounds and behind everything else. -/
def Spelled (body taken : List UInt8) : Operation → Prop
  | clip bounds region =>
    region = body ∧ ∃ size : List UInt8, size.length = 2 ∧ taken = size ++ bounds.bytes
  | text place label => label = MacRoman.decode body ∧ taken = place.bytes
  | fontName font name =>
    taken = [] ∧ ∃ (count : UInt8) (tail : List UInt8),
      body = Bytes.ofWord font ++ [count] ++ tail ∧
        name = MacRoman.decode (tail.take count.toNat)
  | longComment kind data => data = body ∧ taken = Bytes.ofWord kind
  | op => taken = op.fixed

theorem of_readFontName {body : List UInt8} {op : Operation}
    (h : readFontName.find? body = some op) :
    ∃ font count tail, body = Bytes.ofWord font ++ [count] ++ tail ∧
      op = fontName font (MacRoman.decode (tail.take count.toNat)) := by
  rcases body with _ | ⟨x, _ | ⟨y, _ | ⟨count, tail⟩⟩⟩
  · cases h
  · cases h
  · cases h
  · cases h
    exact ⟨Bytes.word x y, count, tail, by rw [Bytes.ofWord_word]; rfl, rfl⟩

theorem takes_read (body : List UInt8) (opcode : Opcode) :
    Takes (read body opcode) fun op taken => op.opcode = opcode ∧ op.Spelled body taken := by
  unfold read
  cases opcode with
  | nop | defaultHilite | endOfPicture | sameRect => exact .pure ⟨rfl, rfl⟩
  | clip =>
    refine (takes_skip 2).bind ?_
    rintro _ size hsize
    refine Rect.takes_read.map ?_
    rintro bounds _ rfl
    exact ⟨rfl, rfl, size, hsize, rfl⟩
  | backPattern | penPattern | fillPattern =>
    refine Pattern.takes_read.map ?_
    rintro pattern _ rfl
    exact ⟨rfl, rfl⟩
  | textFont | textMode | penMode | textSize | version | shortComment =>
    refine takes_word.map ?_
    rintro value _ rfl
    exact ⟨rfl, rfl⟩
  | textFace =>
    refine takes_byte.map ?_
    rintro face _ rfl
    exact ⟨rfl, rfl⟩
  | spaceExtra =>
    refine takes_signedLong.map ?_
    rintro extra _ rfl
    exact ⟨rfl, rfl⟩
  | penSize | ovalSize | lineFrom =>
    refine Point.takes_read.map ?_
    rintro point _ rfl
    exact ⟨rfl, rfl⟩
  | origin | sameArc =>
    refine takes_signedWord.bind ?_
    rintro first _ rfl
    refine takes_signedWord.map ?_
    rintro second _ rfl
    exact ⟨rfl, rfl⟩
  | foreColor | backColor =>
    refine takes_long.map ?_
    rintro color _ rfl
    exact ⟨rfl, rfl⟩
  | textRatio | line =>
    refine Point.takes_read.bind ?_
    rintro first _ rfl
    refine Point.takes_read.map ?_
    rintro second _ rfl
    exact ⟨rfl, rfl⟩
  | rgbFore | rgbBack =>
    refine Rgb.takes_read.map ?_
    rintro color _ rfl
    exact ⟨rfl, rfl⟩
  | shortLine =>
    refine Point.takes_read.bind ?_
    rintro first _ rfl
    refine takes_signedByte.bind ?_
    rintro dh _ rfl
    refine takes_signedByte.map ?_
    rintro dv _ rfl
    exact ⟨rfl, rfl⟩
  | shortLineFrom =>
    refine takes_signedByte.bind ?_
    rintro dh _ rfl
    refine takes_signedByte.map ?_
    rintro dv _ rfl
    exact ⟨rfl, rfl⟩
  | text form =>
    refine (TextPlace.takes_read form).map ?_
    rintro place _ ⟨rfl, rfl⟩
    exact ⟨rfl, rfl, rfl⟩
  | fontName =>
    dsimp only
    split
    · next op hfound =>
      obtain ⟨font, count, tail, hbody, rfl⟩ := of_readFontName hfound
      exact .pure ⟨rfl, rfl, count, tail, hbody, rfl⟩
    · exact .failure
  | rect =>
    refine Rect.takes_read.map ?_
    rintro bounds _ rfl
    exact ⟨rfl, rfl⟩
  | arc =>
    refine Arc.takes_read.map ?_
    rintro shape _ rfl
    exact ⟨rfl, rfl⟩
  | longComment =>
    refine takes_word.map ?_
    rintro kind _ rfl
    exact ⟨rfl, rfl, rfl⟩

theorem spelled_of_ofRecord? {r : Record} {op : Operation} (h : ofRecord? r = some op) :
    op.opcode = r.opcode ∧ ∃ taken left, r.fixed = taken ++ left ∧ op.Spelled r.body taken := by
  obtain ⟨taken, left, hfixed, hopcode, hspelled⟩ := (takes_read r.body r.opcode).of_find? h
  exact ⟨hopcode, taken, left, hfixed, hspelled⟩

/-- The operation comes back as it is when it is written and read again. -/
structure Faithful (op : Operation) : Prop where
  fits : op.fits = true
  legible : op.legible = op

end Operation

namespace Record

/-- The parts are as long as the opcode and the fixed part say. -/
structure Sized (r : Record) : Prop where
  fixed : r.fixed.length = r.opcode.layout.fixed
  body : r.opcode.layout.bodyLength r.fixed = .ok r.body.length

/-- No bytes stand behind the name of a font: the length in front of the record is that of the
font's number, of the name's length and of the name. -/
def Tight (r : Record) : Prop :=
  r.opcode = .fontName → (Bytes.wordAt r.fixed 0).toNat = 3 + (r.body.getD 2 0).toNat

instance (r : Record) : Decidable r.Tight :=
  inferInstanceAs (Decidable (_ → _))

theorem sized_of_read {opcode : Opcode} {c c' : Cursor} {r : Record}
    (h : Record.read opcode c = .ok (r, c')) : r.Sized := by
  obtain ⟨fixed, body, length, c₁, rfl, hfixed, hlength, hbody⟩ := Record.of_read h
  obtain ⟨-, -, hfixedLength⟩ := Cursor.eq_of_split? hfixed
  obtain ⟨-, -, hbodyLength⟩ := Cursor.eq_of_split? hbody
  exact ⟨hfixedLength, hbodyLength ▸ hlength⟩

/-! ### Lengths -/

theorem of_totalSize {n length : Nat} {fixed : List UInt8}
    (h : (⟨n, .totalSize⟩ : Layout).bodyLength fixed = .ok length) :
    (Bytes.wordAt fixed 0).toNat = n + length := by
  unfold Layout.bodyLength at h
  dsimp only at h
  by_cases hless : (Bytes.wordAt fixed 0).toNat < n
  · rw [if_pos hless] at h
    cases h
  · rw [if_neg hless] at h
    cases h
    omega

theorem of_countByte {n i length : Nat} {fixed : List UInt8}
    (h : (⟨n, .countByte i⟩ : Layout).bodyLength fixed = .ok length) :
    (fixed.getD i 0).toNat = length := Except.ok.inj h

theorem of_lengthWord {n i length : Nat} {fixed : List UInt8}
    (h : (⟨n, .lengthWord i⟩ : Layout).bodyLength fixed = .ok length) :
    (Bytes.wordAt fixed i).toNat = length := Except.ok.inj h

namespace Sized

variable {r : Record} {op : Operation}

/-! ### Written and read again -/

theorem length_text (h : r.Sized) {form : TextForm} (hform : r.opcode = .text form) :
    r.body.length ≤ 255 := by
  have hbody := h.body
  rw [hform] at hbody
  cases form with
  | long =>
    have := (r.fixed.getD 4 0).toNat_lt
    have := of_countByte hbody
    omega
  | dh | dv =>
    have := (r.fixed.getD 1 0).toNat_lt
    have := of_countByte hbody
    omega
  | dhdv =>
    have := (r.fixed.getD 2 0).toNat_lt
    have := of_countByte hbody
    omega

theorem faithful (h : r.Sized) (hop : Operation.ofRecord? r = some op) : op.Faithful := by
  obtain ⟨hopcode, taken, left, hfixed, hspelled⟩ := Operation.spelled_of_ofRecord? hop
  have hbody := h.body
  rw [← hopcode] at hbody
  cases op with
  | clip bounds region =>
    obtain ⟨rfl, -⟩ := hspelled
    have hword := (Bytes.wordAt r.fixed 0).toNat_lt
    have htotal := of_totalSize hbody
    have hlength : r.body.length ≤ 65525 := by omega
    exact ⟨decide_eq_true hlength, rfl⟩
  | longComment kind data =>
    obtain ⟨rfl, -⟩ := hspelled
    have hword := (Bytes.wordAt r.fixed 2).toNat_lt
    have htotal := of_lengthWord hbody
    have hlength : r.body.length ≤ 65535 := by omega
    exact ⟨decide_eq_true hlength, rfl⟩
  | text place label =>
    obtain ⟨rfl, -⟩ := hspelled
    refine ⟨rfl, ?_⟩
    rw [Operation.legible, MacRoman.legible_decode (h.length_text hopcode.symm)]
  | fontName font name =>
    obtain ⟨-, count, tail, -, rfl⟩ := hspelled
    have hcount := count.toNat_lt
    have hlength := List.length_take_le count.toNat tail
    refine ⟨rfl, ?_⟩
    rw [Operation.legible, MacRoman.legible_decode (by omega)]
  | _ => exact ⟨rfl, rfl⟩

theorem shortText_decode {bytes : List UInt8} (h : bytes.length ≤ 255) :
    Operation.shortText (MacRoman.decode bytes) = bytes := by
  rw [Operation.shortText, MacRoman.encode_decode, List.take_of_length_le h]

theorem parts_eq (h : r.Sized) (htight : r.Tight) (hop : Operation.ofRecord? r = some op) :
    op.fixed = r.fixed ∧ op.body = r.body := by
  obtain ⟨hopcode, taken, left, hfixed, hspelled⟩ := Operation.spelled_of_ofRecord? hop
  obtain ⟨opcode, fixed, body⟩ := r
  dsimp only at hopcode hfixed hspelled
  subst hopcode hfixed
  have hlength : taken.length + left.length = op.opcode.layout.fixed := by
    rw [← List.length_append]
    exact h.fixed
  have hbody : op.opcode.layout.bodyLength (taken ++ left) = .ok body.length := h.body
  cases op with
  | clip bounds region =>
    obtain ⟨rfl, size, hsize, rfl⟩ := hspelled
    obtain ⟨x, y, rfl⟩ := List.length_eq_two.mp hsize
    have hleft : left = [] := List.eq_nil_of_length_eq_zero (Nat.add_left_cancel hlength)
    rw [List.append_assoc] at hbody
    have hsize := Bytes.ofWord_wordAt (p := []) rfl (of_totalSize hbody)
    rw [hleft, List.append_nil]
    exact ⟨congrArg (· ++ bounds.bytes) hsize, rfl⟩
  | longComment kind data =>
    obtain ⟨rfl, rfl⟩ := hspelled
    obtain ⟨x, y, rfl⟩ := List.length_eq_two.mp (Nat.add_left_cancel hlength)
    rw [← List.append_nil (_ ++ _)] at hbody
    have hsize := Bytes.ofWord_wordAt rfl (of_lengthWord hbody)
    exact ⟨congrArg (Bytes.ofWord kind ++ ·) hsize, rfl⟩
  | text place label =>
    obtain ⟨rfl, rfl⟩ := hspelled
    have hshort := shortText_decode (h.length_text rfl)
    obtain ⟨count, rfl, hcount⟩ : ∃ count, left = [count] ∧ count.toNat = body.length := by
      cases place with
      | point | dh | dv | dhdv =>
        obtain ⟨count, rfl⟩ := List.length_eq_one_iff.mp (Nat.add_left_cancel hlength)
        exact ⟨count, rfl, of_countByte hbody⟩
    refine ⟨?_, hshort⟩
    rw [Operation.fixed, hshort, ← hcount, UInt8.ofNat_toNat]
  | fontName font name =>
    obtain ⟨rfl, count, tail, rfl, rfl⟩ := hspelled
    have hname : (Bytes.wordAt left 0).toNat = 3 + count.toNat := htight rfl
    -- the two lengths agree, so the name goes up to the end of the body
    have hcount : count.toNat = tail.length := by
      have hword : (Bytes.wordAt left 0).toNat = _ := of_lengthWord hbody
      simp only [List.length_append, List.length_singleton, Bytes.length_ofWord] at hword
      omega
    have hshort : Operation.shortText (MacRoman.decode tail) = tail := by
      have := count.toNat_lt
      exact shortText_decode (by omega)
    obtain ⟨x, y, rfl⟩ := List.length_eq_two.mp (Nat.add_left_cancel hlength)
    have hsize := Bytes.ofWord_wordAt (p := []) (q := []) rfl hname
    rw [List.take_of_length_le (Nat.le_of_eq hcount.symm)]
    simp only [Operation.fixed, Operation.body, hshort, ← hcount, UInt8.ofNat_toNat, hsize,
      List.nil_append, and_self]
  | _ =>
    cases hspelled
    have hleft : left = [] := by
      rw [← Operation.length_fixed] at hlength
      exact List.eq_nil_of_length_eq_zero (Nat.add_left_cancel hlength)
    have hnone : body = [] := List.eq_nil_of_length_eq_zero (Except.ok.inj hbody).symm
    rw [hleft, hnone, List.append_nil]
    exact ⟨rfl, rfl⟩

theorem record_eq (h : r.Sized) (htight : r.Tight) (hop : Operation.ofRecord? r = some op) :
    op.record = r := by
  obtain ⟨hopcode, -⟩ := Operation.spelled_of_ofRecord? hop
  obtain ⟨hfixed, hbody⟩ := h.parts_eq htight hop
  rw [Operation.record, hopcode, hfixed, hbody]

end Sized
end Record
end Floorplan
