import Floorplan.Proofs.Picture.Progress

/-!
# Floorplan.Proofs.Picture.Faults

What is wrong with a record that cannot be read. A fixed part that is there holds all that is read
of it (`Operation.needs_read`), so a record whose parts are there has a meaning, unless it is a
font's name whose body has no room for the number of the font and the length of the name
(`Operation.ofRecord?_eq_none_iff`). So a record is called truncated if it runs past the end of the
bytes, and otherwise only for such a name; one that declares less than its own fixed part is said to
have a bad length (`Picture.decode_truncated_iff`).
-/

namespace Floorplan

open Read

/-! ### Fixed parts -/

theorem Point.needs_read : Needs Point.read 4 :=
  needs_signedWord.bind fun _ => needs_signedWord.map _

theorem Rect.needs_read : Needs Rect.read 8 :=
  needs_signedWord.bind fun _ => needs_signedWord.bind fun _ => needs_signedWord.bind fun _ =>
    needs_signedWord.map _

theorem Arc.needs_read : Needs Arc.read 12 :=
  Rect.needs_read.bind fun _ => needs_signedWord.bind fun _ => needs_signedWord.map _

theorem Pattern.needs_read : Needs Pattern.read 8 where
  gives {c} hc := by
    have hlength : (c.rest.take 8).length = 8 := List.length_take_of_le hc
    let p : Pattern := ⟨⟨(c.rest.take 8).toArray, hlength⟩⟩
    have hfound := p.finds_read c.offset (c.rest.drop 8)
    have hbytes : p.bytes = c.rest.take 8 := rfl
    rw [p.length_bytes, hbytes, List.take_append_drop] at hfound
    exact ⟨p, hfound⟩

theorem Rgb.needs_read : Needs Rgb.read 6 :=
  needs_word.bind fun _ => needs_word.bind fun _ => needs_word.map _

namespace Operation

theorem needs_read (body : List UInt8) {opcode : Opcode} (h : opcode ≠ .fontName) :
    ∃ n ≤ opcode.layout.fixed, Needs (read body opcode) n := by
  unfold read
  cases opcode with
  | nop | defaultHilite | endOfPicture | sameRect => exact ⟨0, Nat.le_refl _, .pure _⟩
  | clip =>
    exact ⟨10, Nat.le_refl _, (needs_skip 2).bind fun _ => Rect.needs_read.map _⟩
  | backPattern | penPattern | fillPattern => exact ⟨8, Nat.le_refl _, Pattern.needs_read.map _⟩
  | textFont | textMode | penMode | textSize | version | shortComment =>
    exact ⟨2, Nat.le_refl _, needs_word.map _⟩
  | textFace => exact ⟨1, Nat.le_refl _, needs_byte.map _⟩
  | spaceExtra => exact ⟨4, Nat.le_refl _, needs_signedLong.map _⟩
  | penSize | ovalSize | lineFrom => exact ⟨4, Nat.le_refl _, Point.needs_read.map _⟩
  | origin | sameArc =>
    exact ⟨4, Nat.le_refl _, needs_signedWord.bind fun _ => needs_signedWord.map _⟩
  | foreColor | backColor => exact ⟨4, Nat.le_refl _, needs_long.map _⟩
  | textRatio | line =>
    exact ⟨8, Nat.le_refl _, Point.needs_read.bind fun _ => Point.needs_read.map _⟩
  | rgbFore | rgbBack => exact ⟨6, Nat.le_refl _, Rgb.needs_read.map _⟩
  | shortLine =>
    exact ⟨6, Nat.le_refl _,
      Point.needs_read.bind fun _ => needs_signedByte.bind fun _ => needs_signedByte.map _⟩
  | shortLineFrom =>
    exact ⟨2, Nat.le_refl _, needs_signedByte.bind fun _ => needs_signedByte.map _⟩
  | text form =>
    -- the count behind the place is not read
    cases form with
    | long => exact ⟨4, by decide, (Point.needs_read.map _).map _⟩
    | dh | dv => exact ⟨1, by decide, (needs_byte.map _).map _⟩
    | dhdv => exact ⟨2, by decide, (needs_byte.bind fun _ => needs_byte.map _).map _⟩
  | fontName => exact absurd rfl h
  | rect => exact ⟨8, Nat.le_refl _, Rect.needs_read.map _⟩
  | arc => exact ⟨12, Nat.le_refl _, Arc.needs_read.map _⟩
  | longComment =>
    -- nor is the length behind the kind
    exact ⟨2, by decide, needs_word.map _⟩

theorem find?_readFontName_eq_none_iff {body : List UInt8} :
    readFontName.find? body = none ↔ body.length < 3 := by
  rcases body with _ | ⟨x, _ | ⟨y, _ | ⟨count, tail⟩⟩⟩
  · exact iff_of_true rfl (by simp)
  · exact iff_of_true rfl (by simp)
  · exact iff_of_true rfl (by simp)
  · have hsome : (readFontName.find? (x :: y :: count :: tail)).isSome := rfl
    exact iff_of_false (Option.isSome_iff_ne_none.mp hsome) (by simp)

/-- A record whose parts are there has a meaning, unless a font's name is cut off before it
starts. -/
theorem ofRecord?_eq_none_iff {r : Record} (h : r.Sized) :
    ofRecord? r = none ↔ r.opcode = .fontName ∧ r.body.length < 3 := by
  by_cases hname : r.opcode = .fontName
  · rw [← find?_readFontName_eq_none_iff, ofRecord?, hname]
    unfold read
    dsimp only
    cases hfound : readFontName.find? r.body with
    | none => exact iff_of_true rfl ⟨rfl, rfl⟩
    | some op =>
      refine iff_of_false ?_ ?_
      · intro hnone
        cases hnone
      · rintro ⟨-, hnone⟩
        cases hnone
  · obtain ⟨n, hn, hneeds⟩ := needs_read r.body hname
    obtain ⟨op, hop⟩ := hneeds.exists_find? (h.fixed ▸ hn)
    have hsome : ofRecord? r = some op := hop
    simp [hsome, hname]

end Operation

namespace Picture

variable {bytes : List UInt8} {opcode : Opcode} {offset length : Nat} {c : Cursor}

/-! ### What a record declares -/

/-- The fixed part of the record at an offset, as far as the bytes go. -/
def fixedAt (bytes : List UInt8) (opcode : Opcode) (offset : Nat) : List UInt8 :=
  (bytes.drop (offset + 2)).take opcode.layout.fixed

/-- The code and the fixed part are there, and declare a body of this length. -/
structure Declares (bytes : List UInt8) (opcode : Opcode) (offset length : Nat) : Prop where
  fixed_le : offset + 2 + opcode.layout.fixed ≤ bytes.length
  body : opcode.layout.bodyLength (fixedAt bytes opcode offset) = .ok length

/-- The fixed part is there, and declares a size for both parts that is less than its own. -/
structure Misstates (bytes : List UInt8) (opcode : Opcode) (offset length : Nat) : Prop where
  fixed_le : offset + 2 + opcode.layout.fixed ≤ bytes.length
  size : opcode.layout.bodyLength (fixedAt bytes opcode offset) = .error (.badLength length)

/-- The record goes on behind the end of the bytes, with its fixed part or with its body. -/
inductive Overruns (bytes : List UInt8) (opcode : Opcode) (offset : Nat) : Prop where
  | fixed : bytes.length < offset + 2 + opcode.layout.fixed → Overruns bytes opcode offset
  | body {length : Nat} : Declares bytes opcode offset length →
      bytes.length < offset + 2 + opcode.layout.fixed + length → Overruns bytes opcode offset

/-- A font's name that is there in all its length, but has no room for the number of the font and
the length of the name. -/
structure ShortName (bytes : List UInt8) (opcode : Opcode) (offset length : Nat) : Prop where
  isName : opcode = .fontName
  declares : Declares bytes opcode offset length
  body_le : offset + 2 + opcode.layout.fixed + length ≤ bytes.length
  short : length < 3

theorem Misstates.not_declares {size : Nat} (h : Misstates bytes opcode offset size) :
    ¬ Declares bytes opcode offset length := by
  intro hdeclares
  have hbody := hdeclares.body
  rw [h.size] at hbody
  cases hbody

theorem Misstates.not_overruns (h : Misstates bytes opcode offset length) :
    ¬ Overruns bytes opcode offset := by
  rintro (hfixed | ⟨hdeclares, -⟩)
  · exact Nat.not_lt.mpr h.fixed_le hfixed
  · exact h.not_declares hdeclares

theorem ShortName.not_overruns (h : ShortName bytes opcode offset length) :
    ¬ Overruns bytes opcode offset := by
  rintro (hfixed | ⟨hdeclares, hbody⟩)
  · exact Nat.not_lt.mpr h.declares.fixed_le hfixed
  · have hlength := hdeclares.body
    rw [h.declares.body] at hlength
    cases hlength
    exact Nat.not_lt.mpr h.body_le hbody

/-! ### What is complained of -/

/-- The parts of a record are not there: its fixed part, or the body that this declares. -/
theorem of_read_error {fault : RecordFault} (h : Record.read opcode c = .error fault) :
    c.rest.length < opcode.layout.fixed ∧ fault = .truncated ∨
      opcode.layout.fixed ≤ c.rest.length ∧
        (opcode.layout.bodyLength (c.rest.take opcode.layout.fixed) = .error fault ∨
          ∃ length, opcode.layout.bodyLength (c.rest.take opcode.layout.fixed) = .ok length ∧
            c.rest.length < opcode.layout.fixed + length ∧ fault = .truncated) := by
  by_cases hfixed : opcode.layout.fixed ≤ c.rest.length
  · refine .inr ⟨hfixed, ?_⟩
    simp only [Record.read, split?_of_le hfixed] at h
    split at h
    · next fault' hlength =>
      cases h
      exact .inl hlength
    · next length hlength =>
      split at h
      · next hbody =>
        cases h
        rw [split?_eq_none_iff, List.length_drop] at hbody
        exact .inr ⟨length, hlength, by omega, rfl⟩
      · cases h
  · simp only [Record.read, split?_eq_none_iff.mpr (Nat.not_le.mp hfixed)] at h
    cases h
    exact .inl ⟨Nat.not_le.mp hfixed, rfl⟩

theorem of_bodyLength_error {layout : Layout} {fixed : List UInt8} {fault : RecordFault}
    (h : layout.bodyLength fixed = .error fault) : ∃ length, fault = .badLength length := by
  unfold Layout.bodyLength at h
  split at h
  · cases h
  · dsimp only at h
    split at h
    · cases h
      exact ⟨_, rfl⟩
    · cases h
  · cases h
  · cases h

theorem place?_ofFault (fault : RecordFault) :
    (PictureError.ofFault opcode offset fault).place? = some (opcode.code, offset) := by
  cases fault <;> rfl

section Fails

variable (hon : c.On bytes) (hoffset : c.offset = offset + 2)

include hon hoffset

theorem fixedAt_eq : fixedAt bytes opcode offset = c.rest.take opcode.layout.fixed := by
  rw [fixedAt, hon.rest, hoffset]

/-- A record that is called truncated runs past the end, or is a name without room. -/
theorem overruns_of_fails (h : Fails opcode c .truncated) :
    Overruns bytes opcode offset ∨ ∃ length, ShortName bytes opcode offset length := by
  have hrest := hon.length_rest
  cases h with
  | parts hread =>
    left
    rcases of_read_error hread with ⟨hfixed, -⟩ | ⟨hfixed, hfault | ⟨length, hlength, hbody, -⟩⟩
    · exact .fixed (by omega)
    · obtain ⟨n, hn⟩ := of_bodyLength_error hfault
      cases hn
    · exact .body ⟨by omega, by rw [fixedAt_eq hon hoffset, hlength]⟩ (by omega)
  | meaning hread hnone =>
    right
    obtain ⟨hname, hshort⟩ :=
      (Operation.ofRecord?_eq_none_iff (Record.sized_of_read hread)).mp hnone
    obtain ⟨fixed, body, length, c₁, rfl, hfixed, hlength, hbody⟩ := Record.of_read hread
    obtain ⟨hc, -, hfixedLength⟩ := Cursor.eq_of_split? hfixed
    obtain ⟨hc₁, -, rfl⟩ := Cursor.eq_of_split? hbody
    have hrest' : c.rest = fixed ++ (body ++ _) :=
      (congrArg Cursor.rest hc).trans (congrArg (fixed ++ ·) (congrArg Cursor.rest hc₁))
    have htake : fixedAt bytes opcode offset = fixed := by
      rw [fixedAt_eq hon hoffset, hrest', List.take_left' hfixedLength]
    rw [hrest', List.length_append, List.length_append, hfixedLength] at hrest
    exact ⟨body.length, hname, ⟨by omega, htake ▸ hlength⟩, by omega, hshort⟩

theorem misstates_of_fails (h : Fails opcode c (.badLength length)) :
    Misstates bytes opcode offset length := by
  have hrest := hon.length_rest
  cases h with
  | parts hread =>
    rcases of_read_error hread with ⟨-, hfault⟩ | ⟨hfixed, hsize | ⟨_, -, -, hfault⟩⟩
    · cases hfault
    · exact ⟨by omega, by rw [fixedAt_eq hon hoffset, hsize]⟩
    · cases hfault

end Fails

/-- What is wrong with the record that decoding stops at: it is called truncated if it runs past the
end of the bytes, or if it is a font's name without room for the number and the length that stand in
front of the letters, and it has a bad length if it declares less than its own fixed part. -/
theorem decode_truncated_iff {e : PictureError} (h : decode bytes = .error e)
    (hplace : e.place? = some (opcode.code, offset)) :
    (e = .truncated opcode offset ↔
        Overruns bytes opcode offset ∨ ∃ length, ShortName bytes opcode offset length) ∧
      ∀ length, e = .badRecordLength opcode offset length ↔
        Misstates bytes opcode offset length := by
  obtain ⟨hon, hoperations⟩ := operationsFrom_of_place h hplace
  obtain ⟨starts, hreads⟩ := exists_reads (records bytes)
  rw [hoperations] at hreads
  obtain ⟨start, hstart, herror, -⟩ := hreads.failure hon
  obtain ⟨code, c, hword, ⟨hcode, rfl⟩ | ⟨known, fault, hknown, hfails, rfl⟩⟩ :=
    of_nextOperation_error herror
  · cases hplace
    rw [Opcode.ofCode?_code] at hcode
    cases hcode
  · rw [place?_ofFault] at hplace
    obtain ⟨hcode, rfl⟩ := Prod.mk.inj (Option.some.inj hplace)
    obtain rfl := Opcode.eq_of_code_eq hcode
    obtain ⟨x, y, hstartRest, hoffset, -⟩ := Read.eq_of_word hword
    have hrest : start.rest = [x, y] ++ c.rest := congrArg Cursor.rest hstartRest
    have hc : c.On bytes := hstart.pass hrest hoffset
    cases fault with
    | truncated =>
      have hfault := overruns_of_fails hc hoffset hfails
      refine ⟨iff_of_true rfl hfault, ?_⟩
      intro length
      refine iff_of_false (by rintro ⟨⟩) ?_
      intro hmisstates
      rcases hfault with hoverruns | ⟨_, hname⟩
      · exact hmisstates.not_overruns hoverruns
      · exact hmisstates.not_declares hname.declares
    | badLength length =>
      have hmisstates := misstates_of_fails hc hoffset hfails
      refine ⟨iff_of_false (by rintro ⟨⟩) ?_, ?_⟩
      · rintro (hoverruns | ⟨_, hname⟩)
        · exact hmisstates.not_overruns hoverruns
        · exact hmisstates.not_declares hname.declares
      · intro other
        constructor
        · rintro ⟨⟩
          exact hmisstates
        · intro hother
          have hsize := hother.size
          rw [hmisstates.size] at hsize
          cases hsize
          rfl

/-- A comment that is cut off in its data runs past the end. -/
theorem decode_truncated_iff_comment :
    let bytes : List UInt8 := Bytes.ofWord 0 ++ headerTail ⟨0, 0, 480, 640⟩ ++
      [0, 0xA1, 0, 100, 0, 9, 1, 2]
    decode bytes = .error (.truncated .longComment 40) ∧
      (Overruns bytes .longComment 40 ∨ ∃ length, ShortName bytes .longComment 40 length) := by
  intro bytes
  have hdecode : decode bytes = .error (.truncated .longComment 40) := by decide +kernel
  have hplace : (PictureError.truncated .longComment 40).place? =
      some (Opcode.longComment.code, 40) := rfl
  exact ⟨hdecode, (decode_truncated_iff hdecode hplace).1.mp rfl⟩

/-- A font's name that declares no bytes for number and letters fits, and is called truncated. -/
theorem not_overruns_fontName :
    let bytes : List UInt8 := Bytes.ofWord 0 ++ headerTail ⟨0, 0, 480, 640⟩ ++ [0, 0x2C, 0, 0]
    decode bytes = .error (.truncated .fontName 40) ∧ ¬ Overruns bytes .fontName 40 := by
  intro bytes
  have hdecode : decode bytes = .error (.truncated .fontName 40) := by decide +kernel
  have hname : ShortName bytes .fontName 40 0 :=
    ⟨rfl, ⟨by decide, by decide +kernel⟩, by decide, by decide⟩
  exact ⟨hdecode, hname.not_overruns⟩

end Picture
end Floorplan
