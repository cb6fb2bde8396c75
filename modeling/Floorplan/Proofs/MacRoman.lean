import Floorplan.Text.MacRoman

/-!
# Floorplan.Proofs.MacRoman

What is left of a text that is written in the Mac OS Roman set and read back. A character of the set
comes back as it was and any other as a question mark (`decodeByte_encodeChar`); a text that has its
length in one byte keeps its first 255 characters (`decode_take_encode`). The set is one to one, so
bytes that are read and written again are the same (`encode_decode`).
-/

namespace Floorplan
namespace MacRoman

/-- The characters of the set: those of ASCII and those of the table. -/
def Holds (c : Char) : Prop := c.toNat < 0x80 ∨ c ∈ upperHalf

instance (c : Char) : Decidable (Holds c) := inferInstanceAs (Decidable (_ ∨ _))

/-- A character of the set as it is, any other as a question mark. -/
def legibleChar (c : Char) : Char := if Holds c then c else '?'

/-- What a name or a label says where it is read back: its first 255 characters. -/
def legible (text : String) : String :=
  String.ofList ((text.toList.take 255).map legibleChar)

/-- The table row by row, since a literal is a list of characters and an appended text has to be
decoded. -/
theorem of_rows {P : List Char → Prop} {a b c d : List Char} (h : P (a ++ b ++ c ++ d)) :
    P (String.ofList a ++ String.ofList b ++ String.ofList c ++ String.ofList d).toList := by
  simpa only [String.toList_append, String.toList_ofList] using h

-- by `all`, since there are finitely many characters and a `∀` might be decided over all of them
theorem forall_mem_rows {P : Char → Prop} [DecidablePred P] {a b c d : List Char}
    (h : (a ++ b ++ c ++ d).all (fun x => decide (P x)) = true) :
    ∀ x ∈ (String.ofList a ++ String.ofList b ++ String.ofList c ++ String.ofList d).toList, P x :=
  of_rows (P := fun cs => ∀ x ∈ cs, P x) fun x hx =>
    of_decide_eq_true (List.all_eq_true.mp h x hx)

theorem length_upperHalf : upperHalf.length = 128 :=
  of_rows (P := fun cs => cs.length = 128) rfl

theorem decodeByte_ascii {c : Char} (h : c.toNat < 0x80) :
    decodeByte (UInt8.ofNat c.toNat) = c := by
  have hb : (UInt8.ofNat c.toNat).toNat = c.toNat := by
    rw [UInt8.toNat_ofNat']; omega
  rw [decodeByte, hb, if_pos h, Char.ofNat_toNat]

theorem decodeByte_table {i : Nat} (h : i < upperHalf.length) :
    decodeByte (UInt8.ofNat (0x80 + i)) = upperHalf[i] := by
  have hlen := length_upperHalf
  have hb : (UInt8.ofNat (0x80 + i)).toNat = 0x80 + i := by
    rw [UInt8.toNat_ofNat']; omega
  rw [decodeByte, hb, if_neg (by omega), Nat.add_sub_cancel_left,
    List.getD_eq_getElem?_getD, List.getElem?_eq_getElem h, Option.getD_some]

theorem decodeByte_encodeChar (c : Char) : decodeByte (encodeChar c) = legibleChar c := by
  unfold encodeChar legibleChar
  by_cases hlow : c.toNat < 0x80
  · have hc : Holds c := Or.inl hlow
    rw [if_pos hlow, if_pos hc, decodeByte_ascii hlow]
  · rw [if_neg hlow]
    cases hi : upperHalf.idxOf? c with
    | none =>
      rw [List.idxOf?_eq_none_iff] at hi
      have hc : ¬ Holds c := fun h => h.elim hlow hi
      rw [if_neg hc]
      rfl
    | some i =>
      obtain ⟨hlt, heq, -⟩ := List.findIdx?_eq_some_iff_getElem.mp hi
      have hat : upperHalf[i] = c := by simpa using heq
      have hc : Holds c := Or.inr (hat ▸ List.getElem_mem hlt)
      rw [if_pos hc]
      show decodeByte (UInt8.ofNat (0x80 + i)) = c
      rw [decodeByte_table hlt, hat]

theorem decode_take_encode (text : String) : decode ((encode text).take 255) = legible text := by
  unfold decode encode legible
  rw [← List.map_take, List.map_map]
  congr 1
  apply List.map_congr_left
  intro c _
  exact decodeByte_encodeChar c

/-! ### Bytes, read and written again -/

theorem nodup_upperHalf : upperHalf.Nodup :=
  of_rows (P := List.Nodup) (by decide +kernel)

theorem le_toNat_of_mem_upperHalf : ∀ c ∈ upperHalf, 0x80 ≤ c.toNat :=
  forall_mem_rows (by decide +kernel)

theorem encodeChar_table {i : Nat} (h : i < upperHalf.length) :
    encodeChar upperHalf[i] = UInt8.ofNat (0x80 + i) := by
  have hhigh := le_toNat_of_mem_upperHalf upperHalf[i] (List.getElem_mem h)
  have hindex : upperHalf.idxOf? upperHalf[i] = some i := by
    rw [List.idxOf?_eq_some_iff]
    refine ⟨h, rfl, ?_⟩
    intro j hj
    exact List.pairwise_iff_getElem.mp nodup_upperHalf j i (Nat.lt_trans hj h) h hj
  rw [encodeChar, if_neg (by omega), hindex]

theorem encodeChar_decodeByte (b : UInt8) : encodeChar (decodeByte b) = b := by
  have hascii : ∀ n < 0x80, (Char.ofNat n).toNat = n := by decide
  have hlt := b.toNat_lt
  by_cases hlow : b.toNat < 0x80
  · rw [decodeByte, if_pos hlow, encodeChar, hascii _ hlow, if_pos hlow, UInt8.ofNat_toNat]
  · have hindex : b.toNat - 0x80 < upperHalf.length := by
      rw [length_upperHalf]
      omega
    rw [decodeByte, if_neg hlow, List.getD_eq_getElem?_getD, List.getElem?_eq_getElem hindex,
      Option.getD_some, encodeChar_table hindex, Nat.add_sub_cancel' (by omega), UInt8.ofNat_toNat]

theorem encode_decode (bytes : List UInt8) : encode (decode bytes) = bytes := by
  simp only [encode, decode, String.toList_ofList, List.map_map]
  exact (List.map_congr_left fun b _ => encodeChar_decodeByte b).trans (List.map_id bytes)

/-- A text of at most 255 bytes is legible as it is. -/
theorem legible_decode {bytes : List UInt8} (h : bytes.length ≤ 255) :
    legible (decode bytes) = decode bytes := by
  rw [← decode_take_encode, encode_decode, List.take_of_length_le h]

end MacRoman
end Floorplan
