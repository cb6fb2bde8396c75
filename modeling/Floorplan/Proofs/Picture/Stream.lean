import Floorplan.Picture.Stream
import Floorplan.Proofs.Picture.Record

/-!
# Floorplan.Proofs.Picture.Stream

A picture, written and read back. `Picture.operationsFrom_recordBytes` follows the records: each is
cut out whole, and the pad behind one of odd length is what `Cursor.align` passes in front of the
next. So the frame and the operations come back, up to the first end mark
(`Picture.decode_encode_of_fits`).
-/

namespace Floorplan
namespace Picture

/-- The operations up to the first end mark, which is the last of them. -/
def upToEnd : List Operation → List Operation
  | [] => []
  | op :: rest => if op = .endOfPicture then [op] else op :: upToEnd rest

/-! ### Records -/

theorem nextOperation_record {op : Operation} (h : op.fits = true) (offset : Nat) (rest : List UInt8) :
    nextOperation ⟨offset, op.record.bytes ++ rest⟩ =
      .ok (some (op.legible, ⟨offset + op.record.bytes.length, rest⟩)) := by
  have hword := Read.finds_word op.opcode.code offset (op.fixed ++ op.body ++ rest)
  have hread := op.read_record h (offset + 2) rest
  have hlen : offset + op.record.bytes.length = offset + 2 + op.fixed.length + op.body.length := by
    simp only [Record.bytes, Operation.record, List.length_append, Bytes.length_ofWord]
    omega
  have hbytes : op.record.bytes ++ rest =
      Bytes.ofWord op.opcode.code ++ (op.fixed ++ op.body ++ rest) := by
    simp only [Record.bytes, Operation.record, List.append_assoc]
  rw [hbytes, nextOperation, hword]
  simp only [Bytes.length_ofWord, Opcode.ofCode?_code, hread, Operation.ofRecord?_record, hlen]

theorem align_of_even {offset : Nat} (rest : List UInt8) (h : offset % 2 = 0) :
    (⟨offset, rest⟩ : Cursor).align = ⟨offset, rest⟩ := by
  simp [Cursor.align, h]

theorem align_nil (offset : Nat) : (⟨offset, []⟩ : Cursor).align = ⟨offset, []⟩ := by
  simp only [Cursor.align]
  split <;> rfl

theorem operationsFrom_eq (c : Cursor) :
    operationsFrom c =
      match nextOperation c.align with
      | .error e => .error e
      | .ok none => .ok []
      | .ok (some (op, rest)) =>
        if op = .endOfPicture then .ok [op] else (operationsFrom rest).map (op :: ·) := by
  rw [operationsFrom]
  split
  · rename_i h
    rw [h]
  · rename_i h
    rw [h]
  · rename_i h
    rw [h]
    simp only []
    congr 1
    cases operationsFrom _ <;> rfl

theorem operationsFrom_nil (offset : Nat) : operationsFrom ⟨offset, []⟩ = .ok [] := by
  rw [operationsFrom_eq, align_nil]
  rfl

/-- The pad that makes up a whole number of words is passed over. -/
theorem operationsFrom_pad {offset length : Nat} (rest : List UInt8) (h : offset % 2 = 0) :
    operationsFrom ⟨offset + length, List.replicate (length % 2) 0 ++ rest⟩ =
      operationsFrom ⟨offset + length + length % 2, rest⟩ := by
  have halign : (⟨offset + length, List.replicate (length % 2) 0 ++ rest⟩ : Cursor).align =
      ⟨offset + length + length % 2, rest⟩ := by
    rcases Nat.mod_two_eq_zero_or_one length with heven | hodd
    · rw [heven]
      exact align_of_even rest (by omega)
    · simp [Cursor.align, hodd, show (offset + length) % 2 = 1 by omega]
  rw [operationsFrom_eq, operationsFrom_eq, halign, align_of_even rest (by omega)]

/-- The record in front gives its operation, and the operations behind it follow unless it is the
end mark. -/
theorem operationsFrom_record {op : Operation} (hfits : op.fits = true) {offset : Nat}
    (heven : offset % 2 = 0) (rest : List UInt8) :
    operationsFrom ⟨offset, op.record.bytes ++ rest⟩ =
      if op.legible = .endOfPicture then .ok [op.legible]
      else (operationsFrom ⟨offset + op.record.bytes.length, rest⟩).map (op.legible :: ·) := by
  rw [operationsFrom_eq, align_of_even _ heven, nextOperation_record hfits]

theorem recordBytes_cons_cons (op next : Operation) (rest : List Operation) :
    recordBytes (op :: next :: rest) =
      op.record.bytes ++
        (List.replicate (op.record.bytes.length % 2) 0 ++ recordBytes (next :: rest)) := by
  rw [recordBytes, List.append_assoc]
  intro h
  cases h

/-- By induction on the operations, at every even offset. -/
theorem operationsFrom_recordBytes {ops : List Operation} (h : ∀ op ∈ ops, op.fits) :
    ∀ offset : Nat, offset % 2 = 0 →
      operationsFrom ⟨offset, recordBytes ops⟩ = .ok (upToEnd (ops.map Operation.legible)) := by
  induction ops with
  | nil => intro offset _; exact operationsFrom_nil offset
  | cons op rest ih =>
    intro offset heven
    have hfits : op.fits = true := h op (List.mem_cons_self ..)
    cases rest with
    | nil =>
      rw [recordBytes, ← List.append_nil op.record.bytes, operationsFrom_record hfits heven,
        operationsFrom_nil]
      by_cases hend : op.legible = .endOfPicture <;> simp [upToEnd, hend, Except.map]
    | cons next rest =>
      have htail := ih (fun op' hmem => h op' (List.mem_cons_of_mem _ hmem))
        (offset + op.record.bytes.length + op.record.bytes.length % 2) (by omega)
      rw [recordBytes_cons_cons, operationsFrom_record hfits heven, operationsFrom_pad _ heven,
        htail]
      by_cases hend : op.legible = .endOfPicture <;> simp [upToEnd, hend, Except.map]

/-! ### The header -/

theorem versionFound?_encode (picture : Picture) :
    versionFound? picture.encode = some versionMark := by
  have hmark := (Read.finds_long versionMark).find?_append
    (Bytes.ofWord 0x0C00 ++ Bytes.ofSigned (-2) ++ Bytes.ofWord 0 ++ Bytes.ofLong 0x00480000 ++
      Bytes.ofLong 0x00480000 ++ picture.frame.bytes ++ Bytes.ofLong 0 ++
      recordBytes picture.operations)
  simp only [List.append_assoc] at hmark
  simp only [versionFound?, encode, headerTail, List.append_assoc]
  exact hmark

theorem find?_frame (size : UInt16) (frame : Rect) :
    (do Read.skip 2; Rect.read : Read Rect).find? (Bytes.ofWord size ++ headerTail frame) =
      some frame := by
  have hframe := Read.Finds.bind (f := fun _ => Rect.read) (Read.finds_skip (Bytes.length_ofWord size))
    (Rect.finds_read frame)
  have h := hframe.find?_append (Bytes.ofLong versionMark ++
    Bytes.ofWord 0x0C00 ++ Bytes.ofSigned (-2) ++ Bytes.ofWord 0 ++
    Bytes.ofLong 0x00480000 ++ Bytes.ofLong 0x00480000 ++ frame.bytes ++ Bytes.ofLong 0)
  simp only [headerTail, List.append_assoc] at h ⊢
  exact h

theorem decode_encode_of_fits {picture : Picture} (h : ∀ op ∈ picture.operations, op.fits) :
    decode picture.encode =
      .ok ⟨picture.frame, upToEnd (picture.operations.map Operation.legible)⟩ := by
  let size := UInt16.ofNat (headerSize + (recordBytes picture.operations).length)
  have hsplit : (Cursor.ofBytes picture.encode).split? headerSize =
      some (Bytes.ofWord size ++ headerTail picture.frame,
        ⟨headerSize, recordBytes picture.operations⟩) :=
    Read.split?_append _ rfl
  have hoperations := operationsFrom_recordBytes h headerSize rfl
  rw [decode, versionFound?_encode]
  simp only [Option.filter_some, bne_self_eq_false, Bool.false_eq_true, if_false]
  simp only [hsplit, find?_frame, hoperations]

/-- The round trip. What is written with an end mark comes back up to the first one, and so does
what is written without. -/
theorem decode_encode (frame : Rect) (operations : List Operation)
    (h : ∀ op ∈ operations, op.fits) :
    decode (closed ⟨frame, operations⟩).encode =
        .ok ⟨frame, upToEnd (operations.map Operation.legible ++ [.endOfPicture])⟩ ∧
      decode (encode ⟨frame, operations⟩) =
        .ok ⟨frame, upToEnd (operations.map Operation.legible)⟩ := by
  constructor
  · have hclosed : ∀ op ∈ (closed ⟨frame, operations⟩).operations, op.fits := by
      intro op hmem
      rcases List.mem_append.mp hmem with hmem | hmem
      · exact h op hmem
      · rw [List.mem_singleton.mp hmem]
        rfl
    rw [decode_encode_of_fits hclosed]
    simp only [closed, List.map_append, List.map_cons, List.map_nil, Operation.legible]
  · exact decode_encode_of_fits h

/-- A record of odd length in front of another, and an end mark before the end. -/
theorem decode_encode_odd :
    (∀ op ∈ [.text (.dh 4) "end", .longComment 100 [1, 2], .endOfPicture, .nop],
        Operation.fits op) ∧
      decode (closed ⟨⟨0, 0, 480, 640⟩,
          [.text (.dh 4) "end", .longComment 100 [1, 2], .endOfPicture, .nop]⟩).encode =
        .ok ⟨⟨0, 0, 480, 640⟩,
          [.text (.dh 4) "end", .longComment 100 [1, 2], .endOfPicture]⟩ :=
  ⟨by decide, (decode_encode ⟨0, 0, 480, 640⟩ _ (by decide)).1⟩

end Picture
end Floorplan
