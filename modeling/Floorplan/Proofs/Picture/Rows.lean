import Floorplan.Proofs.Picture.Spelling

/-!
# Floorplan.Proofs.Picture.Rows

The records of a picture as they stand in its bytes. `Picture.rows` cuts the bytes from a cursor on
into records, each with the byte that is passed over in front of it, up to the end mark or to where
no record fits. What is read is the meaning of the rows, one operation each
(`Picture.means_rows`), and the rows make up the bytes that were passed (`Picture.rest_rows`).
-/

namespace Floorplan

/-- The code of the record that a complaint is about, and the offset where it stands. -/
def PictureError.place? : PictureError → Option (UInt16 × Nat)
  | unknownOpcode code offset => some (code, offset)
  | truncated opcode offset => some (opcode.code, offset)
  | badRecordLength opcode offset _ => some (opcode.code, offset)
  | truncatedHeader _ | unsupportedVersion _ => none

theorem Operation.opcode_eq_endOfPicture_iff {op : Operation} :
    op.opcode = .endOfPicture ↔ op = .endOfPicture := by
  cases op <;> simp [opcode]

/-- The byte that is passed over to get to an even offset, if there is one. -/
def Cursor.pad (c : Cursor) : List UInt8 := c.rest.take (c.offset % 2)

theorem Cursor.rest_align (c : Cursor) : c.rest = c.pad ++ c.align.rest := by
  obtain ⟨offset, rest⟩ := c
  rcases Nat.mod_two_eq_zero_or_one offset with heven | hodd
  · simp [pad, align, heven]
  · cases rest <;> simp [pad, align, hodd]

theorem Cursor.offset_align (c : Cursor) : c.align.offset = c.offset + c.pad.length := by
  obtain ⟨offset, rest⟩ := c
  rcases Nat.mod_two_eq_zero_or_one offset with heven | hodd
  · simp [pad, align, heven]
  · cases rest <;> simp [pad, align, hodd]

/-- A record and what is passed over in front of it. -/
structure Row where
  pad : List UInt8
  record : Record
  /-- The offset behind the record. -/
  stop : Nat
  deriving DecidableEq

namespace Row

def bytes (row : Row) : List UInt8 := row.pad ++ row.record.bytes

/-- The row is as it is written: nothing but zero stands in front of the record, and nothing behind
the name of a font. -/
structure Canonical (row : Row) : Prop where
  pad : ∀ x ∈ row.pad, x = 0
  tight : row.record.Tight

instance (row : Row) : Decidable row.Canonical :=
  decidable_of_iff (row.pad.all (fun x => decide (x = 0)) = true ∧ row.record.Tight)
    ⟨fun ⟨hpad, htight⟩ => ⟨by simpa using hpad, htight⟩,
      fun ⟨hpad, htight⟩ => ⟨by simpa using hpad, htight⟩⟩

/-- The record is one that can be read, and the operation is its meaning. -/
structure Means (row : Row) (op : Operation) : Prop where
  sized : row.record.Sized
  meaning : Operation.ofRecord? row.record = some op

theorem Means.opcode {row : Row} {op : Operation} (h : row.Means op) :
    op.opcode = row.record.opcode :=
  (Operation.spelled_of_ofRecord? h.meaning).1

/-- The row is what stands between two cursors. -/
structure Spans (row : Row) (c c' : Cursor) : Prop where
  pad : row.pad = c.pad
  stop : row.stop = c'.offset
  rest : c.rest = row.bytes ++ c'.rest
  offset : c'.offset = c.offset + row.bytes.length

theorem Spans.length_pad {row : Row} {c c' : Cursor} (h : row.Spans c c') :
    row.pad.length = c.offset % 2 := by
  have hpos : 0 < c.rest.length := by
    rw [h.rest, bytes, Record.bytes]
    simp only [List.length_append, Bytes.length_ofWord]
    omega
  rw [h.pad, Cursor.pad, List.length_take]
  omega

theorem Spans.bytes_eq {row : Row} {c c' : Cursor} {op : Operation} (h : row.Spans c c')
    (hmeans : row.Means op) (hcanonical : row.Canonical) :
    row.bytes = List.replicate (c.offset % 2) 0 ++ op.record.bytes := by
  have hpad : row.pad = List.replicate (c.offset % 2) 0 :=
    List.eq_replicate_iff.mpr ⟨h.length_pad, hcanonical.pad⟩
  rw [bytes, hpad, hmeans.sized.record_eq hcanonical.tight hmeans.meaning]

theorem Means.record_endOfPicture {row : Row} (h : row.Means .endOfPicture) :
    row.record = ⟨.endOfPicture, [], []⟩ := by
  have htight : row.record.Tight := by
    intro hname
    rw [← h.opcode] at hname
    cases hname
  exact (h.sized.record_eq htight h.meaning).symm

end Row

namespace Picture

variable {c c' : Cursor} {row : Row} {op : Operation} {ops : List Operation} {bytes : List UInt8}
  {p : Picture}

/-! ### One row -/

def nextRow? (c : Cursor) : Option (Row × Cursor) :=
  match Read.word c.align with
  | (none, _) => none
  | (some code, c₁) =>
    match Opcode.ofCode? code with
    | none => none
    | some opcode =>
      match Record.read opcode c₁ with
      | .error _ => none
      | .ok (record, c₂) => some (⟨c.pad, record, c₂.offset⟩, c₂)

theorem spans_of_nextRow? (h : nextRow? c = some (row, c')) :
    row.Spans c c' ∧ row.record.Sized := by
  unfold nextRow? at h
  split at h
  · cases h
  · next code c₁ hword =>
    split at h
    · cases h
    · next opcode hopcode =>
      split at h
      · cases h
      · next record c₂ hread =>
        cases h
        obtain ⟨x, y, hc, hoffset, rfl⟩ := Read.eq_of_word hword
        obtain ⟨fixed, body, length, c₂, rfl, hfixed, -, hbody⟩ := Record.of_read hread
        obtain ⟨hc₁, hoffset₁, -⟩ := Cursor.eq_of_split? hfixed
        obtain ⟨hc₂, hoffset₂, -⟩ := Cursor.eq_of_split? hbody
        have hcode : Bytes.ofWord opcode.code = [x, y] := by
          rw [Opcode.ofCode?_eq_some_iff.mp hopcode, Bytes.ofWord_word]
        have hrest : c.rest = c.pad ++ ([x, y] ++ fixed ++ body) ++ c'.rest := by
          rw [c.rest_align, congrArg Cursor.rest hc, congrArg Cursor.rest hc₁,
            congrArg Cursor.rest hc₂]
          simp only [List.append_assoc, List.cons_append, List.nil_append]
        refine ⟨⟨rfl, rfl, ?_, ?_⟩, Record.sized_of_read hread⟩
        · rw [hrest, Row.bytes, Record.bytes, hcode]
        · rw [hoffset₂, hoffset₁, hoffset, c.offset_align, Row.bytes, Record.bytes, hcode]
          simp only [List.length_append, List.length_cons, List.length_nil]
          omega

theorem length_rest_of_nextRow? (h : nextRow? c = some (row, c')) :
    c'.rest.length < c.rest.length := by
  obtain ⟨hspans, -⟩ := spans_of_nextRow? h
  rw [hspans.rest, Row.bytes, Record.bytes]
  simp only [List.length_append, Bytes.length_ofWord]
  omega

theorem nextRow?_of_nextOperation (h : nextOperation c.align = .ok (some (op, c'))) :
    ∃ row, nextRow? c = some (row, c') ∧ row.Means op := by
  obtain ⟨code, opcode, record, c₁, hword, hopcode, hread, hop⟩ := of_nextOperation h
  refine ⟨⟨c.pad, record, c'.offset⟩, ?_, Record.sized_of_read hread, hop⟩
  simp only [nextRow?, hword, hopcode, hread]

theorem nextRow?_of_nextOperation_none (h : nextOperation c.align = .ok none) :
    nextRow? c = none := by
  have hlength := length_rest_of_nextOperation_none h
  unfold nextRow?
  generalize c.align = d at hlength
  obtain ⟨offset, rest⟩ := d
  rcases rest with _ | ⟨x, _ | ⟨y, rest⟩⟩
  · rfl
  · rfl
  · simp only [List.length_cons] at hlength
    omega

/-! ### All rows -/

def rows (c : Cursor) : List Row :=
  match _h : nextRow? c with
  | none => []
  | some (row, rest) =>
    if row.record.opcode = .endOfPicture then [row] else row :: rows rest
termination_by c.rest.length
decreasing_by exact length_rest_of_nextRow? _h

theorem rows_of_none (h : nextRow? c = none) : rows c = [] := by
  rw [rows]
  split
  · rfl
  · next hsome =>
    rw [h] at hsome
    cases hsome

theorem rows_of_some (h : nextRow? c = some (row, c')) :
    rows c = if row.record.opcode = .endOfPicture then [row] else row :: rows c' := by
  rw [rows]
  split
  · next hnone =>
    rw [h] at hnone
    cases hnone
  · next hsome =>
    rw [h] at hsome
    cases hsome
    rfl

theorem rows_of_short (h : nextOperation c.align = .ok none) : rows c = [] :=
  rows_of_none (nextRow?_of_nextOperation_none h)

theorem rows_of_last (h : nextOperation c.align = .ok (some (.endOfPicture, c'))) :
    ∃ row, rows c = [row] ∧ row.Spans c c' ∧ row.Means .endOfPicture := by
  obtain ⟨row, hrow, hmeans⟩ := nextRow?_of_nextOperation h
  have hend : row.record.opcode = .endOfPicture := hmeans.opcode.symm
  refine ⟨row, ?_, (spans_of_nextRow? hrow).1, hmeans⟩
  rw [rows_of_some hrow, if_pos hend]

theorem rows_of_next (h : nextOperation c.align = .ok (some (op, c'))) (hop : op ≠ .endOfPicture) :
    ∃ row, rows c = row :: rows c' ∧ row.Spans c c' ∧ row.Means op := by
  obtain ⟨row, hrow, hmeans⟩ := nextRow?_of_nextOperation h
  refine ⟨row, ?_, (spans_of_nextRow? hrow).1, hmeans⟩
  rw [rows_of_some hrow, ← hmeans.opcode, if_neg (mt Operation.opcode_eq_endOfPicture_iff.mp hop)]

/-- Operations are read until less than a code is left, or up to the end mark, or one by one. -/
theorem operationsFrom_induction {motive : Cursor → List Operation → Prop}
    (short : ∀ c, nextOperation c.align = .ok none → motive c [])
    (last : ∀ c c', nextOperation c.align = .ok (some (.endOfPicture, c')) →
      motive c [.endOfPicture])
    (next : ∀ c op c' ops, nextOperation c.align = .ok (some (op, c')) → op ≠ .endOfPicture →
      operationsFrom c' = .ok ops → motive c' ops → motive c (op :: ops))
    (h : operationsFrom c = .ok ops) : motive c ops := by
  induction hlength : c.rest.length using Nat.strongRecOn generalizing c ops with
  | _ length ih =>
  rw [operationsFrom_eq] at h
  split at h
  · cases h
  · next hnone =>
    cases h
    exact short c hnone
  · next op c' hnext =>
    split at h
    · next hend =>
      cases h
      exact hend ▸ last c c' (hend ▸ hnext)
    · next hend =>
      cases hrest : operationsFrom c' with
      | error e =>
        rw [hrest] at h
        cases h
      | ok others =>
        rw [hrest] at h
        cases h
        have hlt := Nat.lt_of_lt_of_le (length_rest_of_nextOperation hnext) (length_rest_align c)
        exact next c op c' others hnext hend hrest (ih _ (hlength ▸ hlt) hrest rfl)

theorem means_rows (h : operationsFrom c = .ok ops) :
    List.Forall₂ Row.Means (rows c) ops := by
  refine operationsFrom_induction (motive := fun c ops => List.Forall₂ Row.Means (rows c) ops)
    ?_ ?_ ?_ h
  · intro c hshort
    rw [rows_of_short hshort]
    exact .nil
  · intro c c' hlast
    obtain ⟨row, hrows, -, hmeans⟩ := rows_of_last hlast
    rw [hrows]
    exact .cons hmeans .nil
  · intro c op c' ops hnext hop _ ih
    obtain ⟨row, hrows, -, hmeans⟩ := rows_of_next hnext hop
    rw [hrows]
    exact .cons hmeans ih

theorem means_of_mem (h : operationsFrom c = .ok ops) (hop : op ∈ ops) :
    ∃ row : Row, row.Means op := by
  have hrows := means_rows h
  clear h
  generalize rows c = found at hrows
  induction hrows with
  | nil => cases hop
  | cons hmeans _ ih =>
    rcases List.mem_cons.mp hop with rfl | hop
    · exact ⟨_, hmeans⟩
    · exact ih hop

/-- The rows make up the bytes that were passed, and the last of them ends there. -/
theorem rest_rows (h : operationsFrom c = .ok ops) :
    ∃ left, c.rest = (rows c).flatMap Row.bytes ++ left ∧
      ∀ row, (rows c).getLast? = some row →
        row.stop = c.offset + ((rows c).flatMap Row.bytes).length := by
  refine operationsFrom_induction
    (motive := fun c _ => ∃ left, c.rest = (rows c).flatMap Row.bytes ++ left ∧
      ∀ row, (rows c).getLast? = some row →
        row.stop = c.offset + ((rows c).flatMap Row.bytes).length) ?_ ?_ ?_ h
  · intro c hshort
    rw [rows_of_short hshort]
    exact ⟨c.rest, rfl, by simp⟩
  · intro c c' hlast
    obtain ⟨row, hrows, hspans, -⟩ := rows_of_last hlast
    rw [hrows, List.flatMap_singleton]
    refine ⟨c'.rest, hspans.rest, ?_⟩
    intro last hfound
    rw [List.getLast?_singleton, Option.some.injEq] at hfound
    rw [← hfound, hspans.stop, hspans.offset]
  · intro c op c' ops hnext hop _ ih
    obtain ⟨row, hrows, hspans, -⟩ := rows_of_next hnext hop
    obtain ⟨left, hleft, hlast⟩ := ih
    rw [hrows, List.flatMap_cons]
    refine ⟨left, ?_, ?_⟩
    · rw [List.append_assoc, ← hleft, hspans.rest]
    · intro last hfound
      rw [List.length_append, ← Nat.add_assoc, ← hspans.offset]
      cases hothers : rows c' with
      | nil =>
        rw [hothers, List.getLast?_singleton, Option.some.injEq] at hfound
        rw [← hfound, hspans.stop]
        rfl
      | cons first others =>
        rw [hothers, List.getLast?_cons_cons] at hfound
        rw [hothers] at hlast
        exact hlast last hfound

/-! ### Whole pictures -/

/-- Where the records of a picture start, behind its header. -/
def records (bytes : List UInt8) : Cursor := ⟨headerSize, bytes.drop headerSize⟩

/-- Either the header is complained of, or all comes from the records behind it. -/
theorem decode_cases (bytes : List UInt8) :
    (∃ e, decode bytes = .error e ∧ e.place? = none) ∨
      headerSize ≤ bytes.length ∧ ∃ frame,
        decode bytes = (operationsFrom (records bytes)).map fun ops => ⟨frame, ops⟩ := by
  unfold decode
  split
  · exact .inl ⟨_, rfl, rfl⟩
  · split
    · exact .inl ⟨_, rfl, rfl⟩
    · next header c hsplit =>
      split
      · exact .inl ⟨_, rfl, rfl⟩
      · next frame hframe =>
        obtain ⟨hbytes, hoffset, hlength⟩ := Cursor.eq_of_split? hsplit
        have hheader : bytes = header ++ c.rest := congrArg Cursor.rest hbytes
        have hc : c = records bytes := by
          rw [records, hheader, List.drop_left' hlength]
          rw [hlength] at hoffset
          exact congrArg (Cursor.mk · c.rest) (hoffset.trans (Nat.zero_add _))
        refine .inr ⟨?_, frame, ?_⟩
        · rw [hheader, List.length_append, hlength]
          exact Nat.le_add_right _ _
        · rw [hc]
          cases operationsFrom (records bytes) <;> rfl

theorem operationsFrom_of_decode (h : decode bytes = .ok p) :
    operationsFrom ⟨headerSize, bytes.drop headerSize⟩ = .ok p.operations := by
  rcases decode_cases bytes with ⟨e, he, -⟩ | ⟨-, frame, hdecode⟩
  · rw [h] at he
    cases he
  · rw [h] at hdecode
    show operationsFrom (records bytes) = _
    cases hoperations : operationsFrom (records bytes) with
    | error e =>
      rw [hoperations] at hdecode
      cases hdecode
    | ok ops =>
      rw [hoperations] at hdecode
      cases hdecode
      rfl

end Picture
end Floorplan
