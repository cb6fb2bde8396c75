import Floorplan.Proofs.Picture.Rows

/-!
# Floorplan.Proofs.Picture.Rewriting

A picture that was read, written again. Whatever the bytes, the picture that they were read as comes
back (`Picture.decode_encode_decoded`). If the pads are zero and no bytes stand behind the names of
fonts, the records that are written are those that were read, byte for byte
(`Picture.encode_canonical`).
-/

namespace Floorplan
namespace Picture

variable {bytes : List UInt8} {c : Cursor} {ops : List Operation} {p : Picture}

/-! ### Pictures, written and read again -/

theorem faithful_of_operationsFrom (h : operationsFrom c = .ok ops) : ∀ op ∈ ops, op.Faithful := by
  intro op hop
  obtain ⟨row, hmeans⟩ := means_of_mem h hop
  exact hmeans.sized.faithful hmeans.meaning

/-- Nothing is read behind an end mark. -/
theorem notMem_dropLast_of_operationsFrom (h : operationsFrom c = .ok ops) :
    .endOfPicture ∉ ops.dropLast := by
  refine operationsFrom_induction (motive := fun _ ops => .endOfPicture ∉ ops.dropLast) ?_ ?_ ?_ h
  · intro c _
    exact List.not_mem_nil
  · intro c c' _
    exact List.not_mem_nil
  · intro c op c' ops _ hop _ ih
    cases ops with
    | nil => exact List.not_mem_nil
    | cons next others =>
      rw [List.dropLast_cons_cons, List.mem_cons]
      rintro (heq | hmem)
      · exact hop heq.symm
      · exact ih hmem

theorem upToEnd_of_notMem (h : .endOfPicture ∉ ops.dropLast) : upToEnd ops = ops := by
  induction ops with
  | nil => rfl
  | cons op rest ih =>
    cases rest with
    | nil => simp [upToEnd]
    | cons next others =>
      rw [List.dropLast_cons_cons, List.mem_cons, not_or] at h
      rw [upToEnd, if_neg (Ne.symm h.1), ih h.2]

theorem upToEnd_concat (ops : List Operation) :
    upToEnd (ops ++ [.endOfPicture]) =
      if .endOfPicture ∈ ops then upToEnd ops else ops ++ [.endOfPicture] := by
  induction ops with
  | nil => simp [upToEnd]
  | cons op rest ih =>
    by_cases hop : op = .endOfPicture
    · simp [upToEnd, hop]
    · rw [List.cons_append, upToEnd, upToEnd, if_neg hop, if_neg hop, ih]
      by_cases hmem : .endOfPicture ∈ rest
      · simp [hmem]
      · simp [hmem, Ne.symm hop]

theorem getLast?_eq_endOfPicture_iff (h : .endOfPicture ∉ ops.dropLast) :
    ops.getLast? = some .endOfPicture ↔ .endOfPicture ∈ ops := by
  constructor
  · exact List.mem_of_getLast?
  · intro hmem
    have hne := List.ne_nil_of_mem hmem
    rw [← List.dropLast_append_getLast hne, List.mem_append, List.mem_singleton] at hmem
    rcases hmem with hmem | heq
    · exact absurd hmem h
    · rw [List.getLast?_eq_some_getLast hne, heq]

/-- A picture that was read is written so that it is read again, with or without an end mark put
behind it. -/
theorem decode_encode_decoded (h : decode bytes = .ok p) :
    decode p.encode = .ok p ∧
      decode p.closed.encode =
        .ok (if p.operations.getLast? = some .endOfPicture then p else p.closed) ∧
      .endOfPicture ∉ p.operations.dropLast := by
  have hoperations := operationsFrom_of_decode h
  have hfaithful := faithful_of_operationsFrom hoperations
  have hend := notMem_dropLast_of_operationsFrom hoperations
  have hlegible : p.operations.map Operation.legible = p.operations :=
    (List.map_congr_left fun op hop => (hfaithful op hop).legible).trans (List.map_id' _)
  refine ⟨?_, ?_, hend⟩
  · rw [decode_encode_of_fits fun op hop => (hfaithful op hop).fits, hlegible,
      upToEnd_of_notMem hend]
  · have hfits : ∀ op ∈ p.closed.operations, op.fits := by
      intro op hop
      rcases List.mem_append.mp hop with hop | hop
      · exact (hfaithful op hop).fits
      · rw [List.mem_singleton.mp hop]
        rfl
    have hclosed : p.closed.operations.map Operation.legible = p.operations ++ [.endOfPicture] := by
      rw [closed, List.map_append, hlegible]
      rfl
    rw [decode_encode_of_fits hfits, hclosed, upToEnd_concat]
    by_cases hmem : .endOfPicture ∈ p.operations
    · rw [if_pos hmem, if_pos ((getLast?_eq_endOfPicture_iff hend).mpr hmem),
        upToEnd_of_notMem hend]
      rfl
    · rw [if_neg hmem, if_neg (mt (getLast?_eq_endOfPicture_iff hend).mp hmem)]
      rfl

/-- A name that is cut short, a byte in a pad that is not zero, and an odd one at the end. -/
theorem decode_encode_decoded_font :
    let bytes : List UInt8 := Bytes.ofWord 0 ++ headerTail ⟨0, 0, 480, 640⟩ ++
      [0, 0x2C, 0, 6, 0, 4, 9, 65, 66, 67] ++ [0, 0x29, 5, 1, 33, 7] ++ [0, 0, 9]
    let p : Picture := ⟨⟨0, 0, 480, 640⟩, [.fontName 4 "ABC", .text (.dh 5) "!", .nop]⟩
    decode bytes = .ok p ∧ decode p.encode = .ok p ∧ decode p.closed.encode = .ok p.closed := by
  intro bytes p
  have hbytes : decode bytes = .ok p := by decide +kernel
  obtain ⟨hwritten, hclosed, -⟩ := decode_encode_decoded hbytes
  exact ⟨hbytes, hwritten, hclosed⟩

/-! ### Records, read and written again -/

theorem flatMap_rows (h : operationsFrom c = .ok ops) (hne : ops ≠ [])
    (hcanonical : ∀ row ∈ rows c, row.Canonical) :
    (rows c).flatMap Row.bytes = List.replicate (c.offset % 2) 0 ++ recordBytes ops := by
  revert hne hcanonical
  refine operationsFrom_induction
    (motive := fun c ops => ops ≠ [] → (∀ row ∈ rows c, row.Canonical) →
      (rows c).flatMap Row.bytes = List.replicate (c.offset % 2) 0 ++ recordBytes ops) ?_ ?_ ?_ h
  · intro c _ hne
    exact absurd rfl hne
  · intro c c' hlast _ hcanonical
    obtain ⟨row, hrows, hspans, hmeans⟩ := rows_of_last hlast
    rw [hrows] at hcanonical ⊢
    rw [List.flatMap_singleton, hspans.bytes_eq hmeans (hcanonical row List.mem_cons_self)]
    rfl
  · intro c op c' ops hnext hop hops ih _ hcanonical
    obtain ⟨row, hrows, hspans, hmeans⟩ := rows_of_next hnext hop
    rw [hrows, List.forall_mem_cons] at hcanonical
    have hbytes := hspans.bytes_eq hmeans hcanonical.1
    rw [hrows, List.flatMap_cons, hbytes, List.append_assoc]
    congr 1
    cases ops with
    | nil =>
      have hnone : rows c' = [] := List.forall₂_nil_right_iff.mp (means_rows hops)
      rw [hnone, List.flatMap_nil, List.append_nil]
      rfl
    | cons next others =>
      -- the pad in front of the next record is the one that is written behind this one
      have hparity : c'.offset % 2 = op.record.bytes.length % 2 := by
        rw [hspans.offset, hbytes, List.length_append, List.length_replicate]
        omega
      rw [ih (List.cons_ne_nil _ _) hcanonical.2, recordBytes_cons_cons, hparity]

/-! ### Canonical bytes -/

/-- The rows behind the header. -/
def rowsOf (bytes : List UInt8) : List Row := rows ⟨headerSize, bytes.drop headerSize⟩

/-- The bytes behind the header, up to the end of the last record that is read. -/
def stream (bytes : List UInt8) : List UInt8 :=
  match (rowsOf bytes).getLast? with
  | none => []
  | some row => (bytes.take row.stop).drop headerSize

/-- The bytes are read as the picture, up to an end mark, and have nothing in them that is not
written for it. -/
structure Canonical (bytes : List UInt8) (p : Picture) : Prop where
  decoded : decode bytes = .ok p
  ends : p.operations.getLast? = some .endOfPicture
  rows : ∀ row ∈ rowsOf bytes, row.Canonical

theorem drop_encode (p : Picture) : p.encode.drop headerSize = recordBytes p.operations :=
  List.drop_left' rfl

theorem Canonical.last_row (h : Canonical bytes p) :
    ∃ row, (rowsOf bytes).getLast? = some row ∧ row.record = ⟨.endOfPicture, [], []⟩ ∧
      recordBytes p.operations = (bytes.take row.stop).drop headerSize := by
  have hoperations := operationsFrom_of_decode h.decoded
  have hlast := forall₂_getLast? (means_rows hoperations)
  rw [h.ends] at hlast
  obtain ⟨row, hrow, hmeans⟩ : ∃ row, (rowsOf bytes).getLast? = some row ∧
      row.Means .endOfPicture := by
    unfold rowsOf
    cases hfound : (Picture.rows ⟨headerSize, bytes.drop headerSize⟩).getLast? with
    | none =>
      rw [hfound] at hlast
      cases hlast
    | some row =>
      rw [hfound] at hlast
      cases hlast with
      | some hmeans => exact ⟨row, rfl, hmeans⟩
  have hne : p.operations ≠ [] := by
    intro hnil
    have hends := h.ends
    rw [hnil] at hends
    cases hends
  have hrecords : (rowsOf bytes).flatMap Row.bytes = recordBytes p.operations := by
    have heven : headerSize % 2 = 0 := rfl
    rw [rowsOf, flatMap_rows hoperations hne h.rows]
    simp only [heven, List.replicate_zero, List.nil_append]
  obtain ⟨left, hleft, hstop⟩ := rest_rows hoperations
  have hdrop : bytes.drop headerSize = recordBytes p.operations ++ left := hrecords ▸ hleft
  have hend : row.stop = headerSize + (recordBytes p.operations).length := hrecords ▸ hstop row hrow
  refine ⟨row, hrow, hmeans.record_endOfPicture, ?_⟩
  rw [hend, List.drop_take, Nat.add_sub_cancel_left, hdrop, List.take_left' rfl]

/-- What is written of a canonical picture behind the header is what was read there, to the end of
the end mark. So canonical records are read as the same operations only if they are the same. -/
theorem encode_canonical (h : Canonical bytes p) :
    (∃ row, (rowsOf bytes).getLast? = some row ∧ row.record = ⟨.endOfPicture, [], []⟩ ∧
        p.encode.drop headerSize = (bytes.take row.stop).drop headerSize) ∧
      ∀ {other : List UInt8} {q : Picture}, Canonical other q → q.operations = p.operations →
        stream other = stream bytes := by
  have hstream : ∀ {other : List UInt8} {q : Picture}, Canonical other q →
      stream other = recordBytes q.operations := by
    intro other q hother
    obtain ⟨row, hrow, -, hbytes⟩ := hother.last_row
    rw [stream, hrow, hbytes]
  obtain ⟨row, hrow, hrecord, hbytes⟩ := h.last_row
  refine ⟨⟨row, hrow, hrecord, ?_⟩, ?_⟩
  · rw [drop_encode, hbytes]
  · intro other q hother hoperations
    rw [hstream hother, hstream h, hoperations]

/-- A font's name, a text of odd length with its pad, an end mark, and bytes behind it. -/
theorem encode_canonical_font :
    let bytes : List UInt8 := Bytes.ofWord 7 ++ headerTail ⟨0, 0, 480, 640⟩ ++
      [0, 0x2C, 0, 6, 0, 4, 3, 65, 66, 67] ++ [0, 0x29, 5, 1, 33, 0] ++ [0, 0xFF] ++ [1, 2]
    let p : Picture := ⟨⟨0, 0, 480, 640⟩, [.fontName 4 "ABC", .text (.dh 5) "!", .endOfPicture]⟩
    Canonical bytes p ∧ p.encode.drop headerSize = (bytes.take 58).drop headerSize := by
  intro bytes p
  have hrows : rowsOf bytes =
      [⟨[], ⟨.fontName, [0, 6], [0, 4, 3, 65, 66, 67]⟩, 50⟩, ⟨[], ⟨.text .dh, [5, 1], [33]⟩, 55⟩,
        ⟨[0], ⟨.endOfPicture, [], []⟩, 58⟩] := by decide +kernel
  have hcanonical : Canonical bytes p := by
    refine ⟨by decide +kernel, rfl, ?_⟩
    rw [hrows]
    decide
  obtain ⟨⟨row, hrow, -, hbytes⟩, -⟩ := encode_canonical hcanonical
  rw [hrows, List.getLast?_cons_cons, List.getLast?_cons_cons, List.getLast?_singleton,
    Option.some.injEq] at hrow
  subst hrow
  exact ⟨hcanonical, hbytes⟩

end Picture
end Floorplan
