import Floorplan.Proofs.Resource.Meaning

/-!
# Floorplan.Proofs.Resource.Malformed

What is complained of in a fork. Each part has a place that the parts before it give it
(`Container.Declares`) and a number of bytes that should hold it (`Container.room`), and reading
complains of a part only if it goes on behind these (`Malformed.Real`). What is read without
complaint does not hang on bytes that stand behind it, so reading either complains of such a part
or gives a fork that more bytes do not change (`Container.decode_malformed`).
-/

namespace Floorplan
namespace Container

/-! ### Places -/

/-- The number of bytes that should hold a part: those of the whole fork, or those that the header
gives to the data section or to the map. -/
def room (bytes : List UInt8) : Part → Nat
  | .header | .dataSection | .resourceMap => bytes.length
  | .dataLength | .resourceData => (Bytes.longAt bytes 8).toNat
  | .typeListOffset | .nameListOffset | .typeCount | .typeEntry | .referenceEntry | .nameLength
  | .name => (Bytes.longAt bytes 12).toNat

/-- A part is looked for at this offset with this length, by what stands in the parts before it,
which are there. -/
inductive Declares (bytes : List UInt8) : Part → Nat → Nat → Prop where
  | header : Declares bytes .header 0 16
  | dataSection : 16 ≤ bytes.length →
      Declares bytes .dataSection (Bytes.longAt bytes 0).toNat (Bytes.longAt bytes 8).toNat
  | resourceMap : 16 ≤ bytes.length →
      Declares bytes .resourceMap (Bytes.longAt bytes 4).toNat (Bytes.longAt bytes 12).toNat
  | typeListOffset : 16 ≤ bytes.length → Declares bytes .typeListOffset 24 2
  | nameListOffset : 16 ≤ bytes.length → Declares bytes .nameListOffset 26 2
  | typeCount {f : Frame} : f.Outlines bytes → Declares bytes .typeCount f.typeList 2
  | typeEntry {f : Frame} {i : Nat} : f.Outlines bytes → f.typeList + 2 ≤ f.map.length →
      i < f.types → Declares bytes .typeEntry (f.typeEntry i) typeEntrySize
  | referenceEntry {f : Frame} {i j : Nat} : f.Outlines bytes → i < f.types →
      f.typeEntry i + typeEntrySize ≤ f.map.length → j < f.references i →
        Declares bytes .referenceEntry (f.reference i j) referenceSize
  | nameLength {f : Frame} {type : TypeCode} {id : Int16} {i j : Nat} : f.Outlines bytes →
      f.Answers type id i j → Bytes.wordAt f.map (f.reference i j + 2) ≠ unnamed →
        Declares bytes .nameLength (f.nameOffset (f.reference i j)) 1
  | name {f : Frame} {type : TypeCode} {id : Int16} {i j : Nat} : f.Outlines bytes →
      f.Answers type id i j → Bytes.wordAt f.map (f.reference i j + 2) ≠ unnamed →
        f.nameOffset (f.reference i j) + 1 ≤ f.map.length →
          Declares bytes .name (f.nameOffset (f.reference i j) + 1)
            (f.nameLength (f.reference i j))
  | dataLength {f : Frame} {type : TypeCode} {id : Int16} {i j : Nat} : f.Outlines bytes →
      f.Answers type id i j → Declares bytes .dataLength (f.dataOffset (f.reference i j)) 4
  | resourceData {f : Frame} {type : TypeCode} {id : Int16} {i j : Nat} : f.Outlines bytes →
      f.Answers type id i j → f.dataOffset (f.reference i j) + 4 ≤ f.data.length →
        Declares bytes .resourceData (f.dataOffset (f.reference i j) + 4)
          (f.dataLength (f.reference i j))

/-- What is complained of is so: the part is looked for there, in so many bytes, and goes on behind
them. -/
structure Malformed.Real (bytes : List UInt8) (e : Malformed) : Prop where
  declared : Declares bytes e.part e.offset e.length
  bound : e.bound = room bytes e.part
  exceeds : e.bound < e.offset + e.length

variable {bytes : List UInt8} {part : Part} {offset length : Nat} {e : Malformed}

/-- All complaints come from here: a region that does not lie in the bytes that should hold it. -/
theorem real_of_region {held : List UInt8} (hdeclared : Declares bytes part offset length)
    (hroom : held.length = room bytes part) (h : region part held offset length = .error e) :
    e.Real bytes := by
  unfold region at h
  split at h
  · cases h
  · next hexceeds =>
    cases h
    exact ⟨hdeclared, hroom, Nat.not_le.mp hexceeds⟩

theorem real_of_wordIn {held : List UInt8} (hdeclared : Declares bytes part offset 2)
    (hroom : held.length = room bytes part) (h : wordIn part held offset = .error e) :
    e.Real bytes := by
  rcases bind_eq_error h with h | ⟨found, -, h⟩
  · exact real_of_region hdeclared hroom h
  · cases h

theorem length_slice (h : offset + length ≤ bytes.length) :
    (slice bytes offset length).length = length := by
  rw [slice, List.length_take_of_le]
  rw [List.length_drop]
  omega

theorem exists_of_mapM_error {ε α β : Type} {f : α → Except ε β} {e : ε} {l : List α} :
    l.mapM f = .error e → ∃ a ∈ l, f a = .error e := by
  induction l with
  | nil =>
    intro h
    cases h
  | cons a rest ih =>
    intro h
    rw [List.mapM_cons] at h
    rcases bind_eq_error h with h | ⟨b, -, h⟩
    · exact ⟨a, List.mem_cons_self, h⟩
    · rcases bind_eq_error h with h | ⟨tail, -, h⟩
      · obtain ⟨a', ha', h⟩ := ih h
        exact ⟨a', List.mem_cons_of_mem a ha', h⟩
      · cases h

/-! ### Complaints -/

theorem real_of_frame (h : frame bytes = .error e) : e.Real bytes := by
  unfold frame at h
  rcases bind_eq_error h with h | ⟨header, hheader, h⟩
  · exact real_of_region .header rfl h
  obtain ⟨hlength, rfl⟩ := of_region hheader
  simp only [longAt_slice (show 0 + 4 ≤ 16 by decide), longAt_slice (show 4 + 4 ≤ 16 by decide),
    longAt_slice (show 8 + 4 ≤ 16 by decide), longAt_slice (show 12 + 4 ≤ 16 by decide),
    Nat.zero_add] at h
  rcases bind_eq_error h with h | ⟨data, -, h⟩
  · exact real_of_region (.dataSection hlength) rfl h
  rcases bind_eq_error h with h | ⟨map, hmap, h⟩
  · exact real_of_region (.resourceMap hlength) rfl h
  obtain ⟨hmapLe, rfl⟩ := of_region hmap
  rcases bind_eq_error h with h | ⟨typeList, -, h⟩
  · exact real_of_wordIn (.typeListOffset hlength) (length_slice hmapLe) h
  rcases bind_eq_error h with h | ⟨nameList, -, h⟩
  · exact real_of_wordIn (.nameListOffset hlength) (length_slice hmapLe) h
  · cases h

theorem of_nameAt_error {f : Frame} (h : nameAt f offset = .error e) :
    region .nameLength f.map offset 1 = .error e ∨ offset + 1 ≤ f.map.length ∧
      region .name f.map (offset + 1) (f.map.getD offset 0).toNat = .error e := by
  unfold nameAt at h
  rcases bind_eq_error h with h | ⟨length, hlength, h⟩
  · exact .inl h
  obtain ⟨hle, rfl⟩ := of_region hlength
  rw [getD_slice (by omega), Nat.add_zero] at h
  rcases bind_eq_error h with h | ⟨letters, -, h⟩
  · exact .inr ⟨hle, h⟩
  · cases h

theorem of_dataAt_error {f : Frame} (h : dataAt f offset = .error e) :
    region .dataLength f.data offset 4 = .error e ∨ offset + 4 ≤ f.data.length ∧
      region .resourceData f.data (offset + 4) (Bytes.longAt f.data offset).toNat = .error e := by
  unfold dataAt at h
  rcases bind_eq_error h with h | ⟨length, hlength, h⟩
  · exact .inl h
  obtain ⟨hle, rfl⟩ := of_region hlength
  rw [longAt_slice (by omega), Nat.add_zero] at h
  exact .inr ⟨hle, h⟩

section Framed

variable {f : Frame} (houtlines : f.Outlines bytes)

include houtlines

theorem Frame.Outlines.length_data : f.data.length = (Bytes.longAt bytes 8).toNat := by
  rw [houtlines.data, length_slice houtlines.data_le]

theorem Frame.Outlines.length_map : f.map.length = (Bytes.longAt bytes 12).toNat := by
  rw [houtlines.map, length_slice houtlines.map_le]

theorem real_of_typeCount (h : typeCount f = .error e) : e.Real bytes := by
  rcases bind_eq_error h with h | ⟨stored, -, h⟩
  · exact real_of_wordIn (.typeCount houtlines) houtlines.length_map h
  · cases h

section Reference

variable {type : TypeCode} {id : Int16} {i j : Nat} (hanswers : f.Answers type id i j)

include hanswers

theorem real_of_referenceName
    (h : referenceName f (Bytes.wordAt f.map (f.reference i j + 2)) = .error e) :
    e.Real bytes := by
  unfold referenceName at h
  split at h
  · cases h
  · next hnamed =>
    split at h
    · next e' hname =>
      cases h
      rcases of_nameAt_error hname with h | ⟨hle, h⟩
      · exact real_of_region (.nameLength houtlines hanswers hnamed) houtlines.length_map h
      · exact real_of_region (.name houtlines hanswers hnamed hle) houtlines.length_map h
    · cases h

theorem real_of_dataAt (h : dataAt f (f.dataOffset (f.reference i j)) = .error e) :
    e.Real bytes := by
  rcases of_dataAt_error h with h | ⟨hle, h⟩
  · exact real_of_region (.dataLength houtlines hanswers) houtlines.length_data h
  · exact real_of_region (.resourceData houtlines hanswers hle) houtlines.length_data h

theorem real_of_resourceOf
    (h : resourceOf f (slice f.map (f.reference i j) referenceSize) = .error e) :
    e.Real bytes := by
  unfold resourceOf at h
  rcases bind_eq_error h with h | ⟨name, -, h⟩
  · rw [wordAt_slice (by decide)] at h
    exact real_of_referenceName houtlines hanswers h
  rcases bind_eq_error h with h | ⟨data, -, h⟩
  · simp only [getD_slice (show 5 < referenceSize by decide),
      getD_slice (show 6 < referenceSize by decide),
      getD_slice (show 7 < referenceSize by decide)] at h
    exact real_of_dataAt houtlines hanswers h
  · cases h

end Reference

theorem real_of_entriesOf {i : Nat} (hi : i < f.types)
    (hle : f.typeEntry i + typeEntrySize ≤ f.map.length)
    (h : entriesOf f (slice f.map (f.typeEntry i) typeEntrySize) = .error e) : e.Real bytes := by
  obtain ⟨j, hj, h⟩ := exists_of_mapM_error h
  rw [wordAt_slice (by decide), List.mem_range] at hj
  rw [wordAt_slice (by decide), Nat.mul_comm j] at h
  rcases bind_eq_error h with h | ⟨reference, hreference, h⟩
  · exact real_of_region (.referenceEntry houtlines hi hle hj) houtlines.length_map h
  obtain ⟨hreferenceLe, rfl⟩ := of_region hreference
  rcases bind_eq_error h with h | ⟨resource, -, h⟩
  · exact real_of_resourceOf houtlines ⟨hi, hle, rfl, hj, hreferenceLe, rfl⟩ h
  · cases h

end Framed

theorem real_of_decode (h : decode bytes = .error e) : e.Real bytes := by
  unfold decode at h
  rcases bind_eq_error h with h | ⟨f, hframe, h⟩
  · exact real_of_frame h
  have houtlines := outlines_of_frame hframe
  rcases bind_eq_error h with h | ⟨count, hcount, h⟩
  · exact real_of_typeCount houtlines h
  obtain ⟨stored, hstored, hcount⟩ := bind_eq_ok hcount
  obtain ⟨hstoredLe, rfl⟩ := of_wordIn hstored
  cases hcount
  rcases bind_eq_error h with h | ⟨entries, -, h⟩
  · obtain ⟨i, hi, h⟩ := exists_of_mapM_error h
    rw [List.mem_range] at hi
    rw [Nat.mul_comm i] at h
    rcases bind_eq_error h with h | ⟨entry, hentry, h⟩
    · exact real_of_region (.typeEntry houtlines hstoredLe hi) houtlines.length_map h
    obtain ⟨hle, rfl⟩ := of_region hentry
    exact real_of_entriesOf houtlines hi hle h
  · cases h

/-! ### Bytes behind -/

theorem region_append {x : List UInt8} (h : region part bytes offset length = .ok x)
    (more : List UInt8) : region part (bytes ++ more) offset length = .ok x := by
  obtain ⟨hle, rfl⟩ := of_region h
  have htail : length ≤ (bytes.drop offset).length := by
    rw [List.length_drop]
    omega
  rw [region, if_pos (by rw [List.length_append]; omega),
    List.drop_append_of_le_length (by omega), List.take_append_of_le_length htail]
  rfl

/-- The sections of a fork are cut out of its bytes, and the rest is read from them. -/
theorem frame_append {f : Frame} (h : frame bytes = .ok f) (more : List UInt8) :
    frame (bytes ++ more) = .ok f := by
  unfold frame at h ⊢
  obtain ⟨header, hheader, h⟩ := bind_eq_ok h
  obtain ⟨data, hdata, h⟩ := bind_eq_ok h
  obtain ⟨map, hmap, h⟩ := bind_eq_ok h
  rw [region_append hheader, ok_bind]
  dsimp only
  rw [region_append hdata, ok_bind, region_append hmap, ok_bind]
  exact h

theorem decode_extended {fork : Fork} (h : decode bytes = .ok fork) (more : List UInt8) :
    decode (bytes ++ more) = .ok fork := by
  unfold decode at h ⊢
  obtain ⟨f, hframe, h⟩ := bind_eq_ok h
  rw [frame_append hframe, ok_bind]
  exact h

/-- Reading a fork gives one that bytes behind it do not change, or it complains of a part that
goes on behind the bytes that should hold it. -/
theorem decode_malformed (bytes : List UInt8) :
    (∃ fork, decode bytes = .ok fork ∧ ∀ more, decode (bytes ++ more) = .ok fork) ∨
      ∃ e, decode bytes = .error e ∧ e.Real bytes := by
  cases h : decode bytes with
  | ok fork => exact .inl ⟨fork, rfl, decode_extended h⟩
  | error e => exact .inr ⟨e, rfl, real_of_decode h⟩

/-- A map that ends before it says where its names are. -/
example : decode ([0, 0, 0, 16, 0, 0, 0, 16, 0, 0, 0, 0, 0, 0, 0, 26] ++ List.replicate 26 0) =
    .error ⟨.nameListOffset, 26, 2, 26⟩ := by
  decide +kernel

end Container
end Floorplan
