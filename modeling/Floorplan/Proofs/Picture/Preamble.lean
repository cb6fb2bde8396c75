import Floorplan.Proofs.Picture.Joining

/-!
# Floorplan.Proofs.Picture.Preamble

The preamble in front of a picture in a file of its own. What is decoded begins with a header, so none
of it is taken for a preamble (`Picture.dropPreamble_of_decode`), and what does not begin with one is
dropped in front of it (`Picture.dropPreamble_append`). A header at the start decides: bytes further
on are looked at only where there is none.
-/

namespace Floorplan
namespace Picture

variable {bytes preamble : List UInt8} {p : Picture}

theorem hasHeader_iff :
    hasHeader bytes = true ↔ headerSize ≤ bytes.length ∧ versionFound? bytes = some versionMark := by
  simp [hasHeader]

/-- The version is looked for in the header. -/
theorem versionFound?_append_of_le (h : headerSize ≤ preamble.length) (bytes : List UInt8) :
    versionFound? (preamble ++ bytes) = versionFound? preamble := by
  have hlength : (preamble.take headerSize).length = headerSize := List.length_take_of_le h
  rw [← List.take_append_drop headerSize preamble, List.append_assoc, versionFound?_append hlength,
    versionFound?_append hlength]

/-- The version is found wherever the bytes go that far, so the decoder and the look for a header agree
on it. -/
theorem hasHeader_of_decode (h : decode bytes = .ok p) : hasHeader bytes = true := by
  unfold decode at h
  split at h
  · cases h
  · next hversion =>
    split at h
    · cases h
    · next hsplit =>
      have hlength : headerSize ≤ bytes.length := by
        by_contra hlt
        have hshort : (Cursor.ofBytes bytes).rest.length < headerSize := Nat.not_le.mp hlt
        rw [Read.split?_eq_none_iff.mpr hshort] at hsplit
        cases hsplit
      have hfour : 4 ≤ (bytes.drop 10).length := by
        rw [List.length_drop]
        exact Nat.le_sub_of_add_le (Nat.le_trans (by decide) hlength)
      obtain ⟨found, hfound⟩ := Read.needs_long.exists_find? hfour
      have hfound' : versionFound? bytes = some found := hfound
      rw [hfound', Option.filter_eq_none_iff] at hversion
      rw [hasHeader_iff, hfound']
      refine ⟨hlength, congrArg some ?_⟩
      simpa using hversion found rfl

theorem dropPreamble_of_hasHeader (h : hasHeader bytes = true) : dropPreamble bytes = bytes := by
  simp [dropPreamble, h]

/-- A picture in a resource, or in a file without a preamble, is left as it is. -/
theorem dropPreamble_of_decode (h : decode bytes = .ok p) : dropPreamble bytes = bytes :=
  dropPreamble_of_hasHeader (hasHeader_of_decode h)

/-- A preamble that does not look like a header is taken off. -/
theorem dropPreamble_append (hlength : preamble.length = preambleSize)
    (hversion : versionFound? preamble ≠ some versionMark) (h : decode bytes = .ok p) :
    dropPreamble (preamble ++ bytes) = bytes := by
  have hle : headerSize ≤ preamble.length := by
    rw [hlength]
    decide
  have hnone : hasHeader (preamble ++ bytes) = false := by
    rw [← Bool.not_eq_true, hasHeader_iff, versionFound?_append_of_le hle]
    exact fun hheader => hversion hheader.2
  have hdrop : (preamble ++ bytes).drop preambleSize = bytes := List.drop_left' hlength
  simp [dropPreamble, hnone, hdrop, hasHeader_of_decode h]

theorem dropPreamble_cases (bytes : List UInt8) :
    dropPreamble bytes = bytes ∨
      dropPreamble bytes = bytes.drop preambleSize ∧ hasHeader (dropPreamble bytes) = true := by
  unfold dropPreamble
  split
  · next h => exact .inr ⟨rfl, (Bool.and_eq_true_iff.mp h).2⟩
  · exact .inl rfl

/-- What is left behind a preamble begins with a header, and no second one is dropped from it. -/
theorem dropPreamble_dropPreamble (bytes : List UInt8) :
    dropPreamble (dropPreamble bytes) = dropPreamble bytes := by
  rcases dropPreamble_cases bytes with hkept | ⟨-, hheader⟩
  · rw [hkept, hkept]
  · exact dropPreamble_of_hasHeader hheader

end Picture
end Floorplan
