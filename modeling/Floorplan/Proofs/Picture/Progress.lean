import Floorplan.Proofs.Picture.Rows

/-!
# Floorplan.Proofs.Picture.Progress

How far decoding gets. `Picture.Reads` is a whole run of it, with the offsets at which records are
begun and what the run ends in. Every record is begun at an even offset, with two bytes at least
left for its code (`Picture.Reads.begins`), and takes these two off what is left, so that the number
of records is bounded by the number of bytes (`Picture.Reads.length_le`). A complaint is about the
record that was begun last, and gives its offset and the code that stands there
(`Picture.decode_progress`).
-/

namespace Floorplan

/-- The cursor is one in the bytes: it has left what stands behind its offset. -/
structure Cursor.On (bytes : List UInt8) (c : Cursor) : Prop where
  le : c.offset ≤ bytes.length
  rest : c.rest = bytes.drop c.offset

namespace Cursor

variable {bytes : List UInt8} {c c' : Cursor}

theorem On.length_rest (h : c.On bytes) : c.offset + c.rest.length = bytes.length := by
  have hle := h.le
  rw [h.rest, List.length_drop]
  omega

/-- What is passed leads to a cursor in the same bytes. -/
theorem On.pass (h : c.On bytes) {passed : List UInt8} (hrest : c.rest = passed ++ c'.rest)
    (hoffset : c'.offset = c.offset + passed.length) : c'.On bytes where
  le := by
    have hlength := h.length_rest
    rw [hrest, List.length_append] at hlength
    omega
  rest := by
    rw [hoffset, ← List.drop_drop, ← h.rest, hrest, List.drop_left]

theorem On.align (h : c.On bytes) : c.align.On bytes := h.pass c.rest_align c.offset_align

/-- The word that comes next stands at the offset. -/
theorem On.wordAt (h : c.On bytes) {w : UInt16} (hword : Read.word c = (some w, c')) :
    Bytes.wordAt bytes c.offset = w := by
  obtain ⟨x, y, hc, -, rfl⟩ := Read.eq_of_word hword
  have hdrop : bytes.drop c.offset = Bytes.ofWord (Bytes.word x y) ++ c'.rest := by
    rw [Bytes.ofWord_word, ← h.rest]
    exact congrArg Cursor.rest hc
  have hbytes : bytes = bytes.take c.offset ++ Bytes.ofWord (Bytes.word x y) ++ c'.rest := by
    rw [List.append_assoc, ← hdrop, List.take_append_drop]
  have hlength : (bytes.take c.offset).length = c.offset :=
    List.length_take_of_le h.le
  rw [hbytes]
  exact Bytes.wordAt_append _ hlength

theorem even_align (h : c.align.rest ≠ []) : c.align.offset % 2 = 0 := by
  obtain ⟨offset, rest⟩ := c
  rcases Nat.mod_two_eq_zero_or_one offset with heven | hodd
  · simp [align, heven]
  · cases rest with
    | nil => simp [align] at h
    | cons x rest =>
      simp only [align, hodd, if_true]
      omega

end Cursor

namespace Picture

variable {bytes : List UInt8} {c c' : Cursor} {op : Operation} {e : PictureError}
  {starts : List Nat} {result : Except PictureError (List Operation)}

/-! ### One record -/

/-- Behind its code a record cannot be read: a part of it is not there, or it has no meaning. -/
inductive Fails (opcode : Opcode) (c : Cursor) : RecordFault → Prop where
  | parts {fault : RecordFault} : Record.read opcode c = .error fault → Fails opcode c fault
  | meaning {r : Record} {c' : Cursor} :
      Record.read opcode c = .ok (r, c') → Operation.ofRecord? r = none →
        Fails opcode c .truncated

/-- What is complained of is the code, or the record behind it. -/
theorem of_nextOperation_error (h : nextOperation c = .error e) :
    ∃ code c₁, Read.word c = (some code, c₁) ∧
      (Opcode.ofCode? code = none ∧ e = .unknownOpcode code c.offset ∨
        ∃ opcode fault, Opcode.ofCode? code = some opcode ∧ Fails opcode c₁ fault ∧
          e = .ofFault opcode c.offset fault) := by
  unfold nextOperation at h
  split at h
  · cases h
  · next code c₁ hword =>
    refine ⟨code, c₁, hword, ?_⟩
    split at h
    · next hcode =>
      cases h
      exact .inl ⟨hcode, rfl⟩
    · next opcode hopcode =>
      right
      split at h
      · next fault hread =>
        cases h
        exact ⟨opcode, fault, hopcode, .parts hread, rfl⟩
      · next r c₂ hread =>
        split at h
        · next hmeaning =>
          cases h
          exact ⟨opcode, .truncated, hopcode, .meaning hread hmeaning, rfl⟩
        · cases h

theorem place?_of_nextOperation (hon : c.On bytes) (h : nextOperation c = .error e) :
    e.place? = some (Bytes.wordAt bytes c.offset, c.offset) ∧
      (e = .unknownOpcode (Bytes.wordAt bytes c.offset) c.offset ↔
        Opcode.ofCode? (Bytes.wordAt bytes c.offset) = none) := by
  obtain ⟨code, c₁, hword, ⟨hcode, rfl⟩ | ⟨opcode, fault, hopcode, -, rfl⟩⟩ :=
    of_nextOperation_error h
  · rw [hon.wordAt hword]
    exact ⟨rfl, fun _ => hcode, fun _ => rfl⟩
  · obtain rfl := Opcode.ofCode?_eq_some_iff.mp hopcode
    rw [hon.wordAt hword, hopcode]
    cases fault <;> simp [PictureError.ofFault, PictureError.place?]

theorem length_rest_eq_of_word {w : UInt16} (h : Read.word c = (some w, c')) :
    c.rest.length = c'.rest.length + 2 := by
  obtain ⟨x, y, hc, -, -⟩ := Read.eq_of_word h
  exact congrArg List.length (congrArg Cursor.rest hc)

theorem length_rest_of_operation (h : nextOperation c = .ok (some (op, c'))) :
    c'.rest.length + 2 ≤ c.rest.length := by
  obtain ⟨code, opcode, r, c₁, hword, -, hread, -⟩ := of_nextOperation h
  have hlength := length_rest_eq_of_word hword
  have hle := length_rest_of_read hread
  omega

theorem length_rest_of_error (h : nextOperation c = .error e) : 2 ≤ c.rest.length := by
  obtain ⟨code, c₁, hword, -⟩ := of_nextOperation_error h
  have hlength := length_rest_eq_of_word hword
  omega

theorem on_of_nextOperation (hon : c.On bytes) (h : nextOperation c = .ok (some (op, c'))) :
    c'.On bytes := by
  obtain ⟨passed, hc, hoffset, -, -⟩ := exists_holds h
  exact hon.pass (congrArg Cursor.rest hc) hoffset

/-! ### A whole run -/

/-- From a cursor on, records are begun at these offsets, and this comes out in the end. -/
inductive Reads : Cursor → List Nat → Except PictureError (List Operation) → Prop where
  | short {c : Cursor} : nextOperation c.align = .ok none → Reads c [] (.ok [])
  | fails {c : Cursor} {e : PictureError} : nextOperation c.align = .error e →
      Reads c [c.align.offset] (.error e)
  | last {c c' : Cursor} : nextOperation c.align = .ok (some (.endOfPicture, c')) →
      Reads c [c.align.offset] (.ok [.endOfPicture])
  | next {c c' : Cursor} {op : Operation} {starts : List Nat}
      {result : Except PictureError (List Operation)} :
      nextOperation c.align = .ok (some (op, c')) → op ≠ .endOfPicture → Reads c' starts result →
        Reads c (c.align.offset :: starts) (result.map (op :: ·))

theorem exists_reads (c : Cursor) : ∃ starts, Reads c starts (operationsFrom c) := by
  induction hlength : c.rest.length using Nat.strongRecOn generalizing c with
  | _ length ih =>
  rw [operationsFrom_eq]
  cases hnext : nextOperation c.align with
  | error e => exact ⟨_, .fails hnext⟩
  | ok found =>
    rcases found with _ | ⟨op, c'⟩
    · exact ⟨_, .short hnext⟩
    · dsimp only
      split
      · next hend =>
        subst hend
        exact ⟨_, .last hnext⟩
      · next hend =>
        have hlt := Nat.lt_of_lt_of_le (length_rest_of_nextOperation hnext) (length_rest_align c)
        obtain ⟨starts, hreads⟩ := ih _ (hlength ▸ hlt) c' rfl
        exact ⟨_, .next hnext hend hreads⟩

/-- A record is begun at an even offset, with room for its code behind it. -/
structure Begins (bytes : List UInt8) (first offset : Nat) : Prop where
  even : offset % 2 = 0
  first_le : first ≤ offset
  code_le : offset + 2 ≤ bytes.length

theorem begins_align (hon : c.On bytes) (h : 2 ≤ c.align.rest.length) :
    Begins bytes c.offset c.align.offset where
  even := Cursor.even_align (List.ne_nil_of_length_pos (by omega))
  first_le := by
    rw [c.offset_align]
    exact Nat.le_add_right _ _
  code_le := by
    have hlength := hon.align.length_rest
    omega

namespace Reads

/-- Each record that is begun has a code of two bytes. -/
theorem length_le (h : Reads c starts result) : 2 * starts.length ≤ c.rest.length := by
  induction h with
  | short hnext => exact Nat.zero_le _
  | @fails c e hnext => exact Nat.le_trans (length_rest_of_error hnext) (length_rest_align c)
  | @last c c' hnext =>
    have hle := length_rest_of_operation hnext
    have halign := length_rest_align c
    rw [List.length_singleton]
    omega
  | @next c c' op starts result hnext _ _ ih =>
    have hle := length_rest_of_operation hnext
    have halign := length_rest_align c
    rw [List.length_cons]
    omega

theorem length_eq {ops : List Operation} (h : Reads c starts (.ok ops)) :
    ops.length = starts.length := by
  generalize hresult : Except.ok ops = result at h
  induction h generalizing ops with
  | short _ =>
    cases hresult
    rfl
  | fails _ => cases hresult
  | last _ =>
    cases hresult
    rfl
  | @next c c' op starts result _ _ _ ih =>
    cases result with
    | error e => cases hresult
    | ok others =>
      cases hresult
      exact congrArg (· + 1) (ih rfl)

theorem begins (h : Reads c starts result) (hon : c.On bytes) :
    ∀ offset ∈ starts, Begins bytes c.offset offset := by
  induction h with
  | short _ => exact List.forall_mem_nil _
  | fails hnext =>
    rw [List.forall_mem_singleton]
    exact begins_align hon (length_rest_of_error hnext)
  | last hnext =>
    have hle := length_rest_of_operation hnext
    rw [List.forall_mem_singleton]
    exact begins_align hon (by omega)
  | @next c c' op starts result hnext _ _ ih =>
    have hle := length_rest_of_operation hnext
    have hon' := on_of_nextOperation hon.align hnext
    have hlength := hon.length_rest
    have hlength' := hon'.length_rest
    have halign := length_rest_align c
    rw [List.forall_mem_cons]
    refine ⟨begins_align hon (by omega), ?_⟩
    intro offset hoffset
    have hbegins := ih hon' offset hoffset
    exact ⟨hbegins.even, Nat.le_trans (by omega) hbegins.first_le, hbegins.code_le⟩

/-- A run that ends in a complaint ends with the record that it is about. -/
theorem failure (h : Reads c starts (.error e)) (hon : c.On bytes) :
    ∃ start, start.On bytes ∧ nextOperation start = .error e ∧
      starts.getLast? = some start.offset := by
  generalize hresult : Except.error e = result at h
  induction h with
  | short _ => cases hresult
  | @fails c e' hnext =>
    cases hresult
    exact ⟨c.align, hon.align, hnext, rfl⟩
  | last _ => cases hresult
  | @next c c' op starts result hnext _ _ ih =>
    cases result with
    | ok others => cases hresult
    | error e' =>
      cases hresult
      obtain ⟨start, hstart, herror, hlast⟩ := ih (on_of_nextOperation hon.align hnext) rfl
      refine ⟨start, hstart, herror, ?_⟩
      rw [List.getLast?_cons, hlast]
      rfl

end Reads

/-! ### Whole pictures -/

/-- A complaint with a place comes from the records. -/
theorem operationsFrom_of_place {place : UInt16 × Nat} (h : decode bytes = .error e)
    (hplace : e.place? = some place) :
    (records bytes).On bytes ∧ operationsFrom (records bytes) = .error e := by
  rcases decode_cases bytes with ⟨e', he', hnone⟩ | ⟨hle, frame, hdecode⟩
  · rw [h] at he'
    cases he'
    rw [hplace] at hnone
    cases hnone
  · refine ⟨⟨hle, rfl⟩, ?_⟩
    rw [h] at hdecode
    cases hoperations : operationsFrom (records bytes) with
    | ok ops =>
      rw [hoperations] at hdecode
      cases hdecode
    | error e' =>
      rw [hoperations] at hdecode
      cases hdecode
      rfl

/-- Decoding ends after no more records than there are words behind the header. What it reads
without complaint is one operation a record, and what it complains of is the record begun last: at
the offset that is given stands the code that is given, which is one that does not exist exactly if
this is the complaint. -/
theorem decode_progress (bytes : List UInt8) :
    ∃ starts : List Nat, starts.length ≤ (bytes.length - headerSize) / 2 ∧
      (∀ p, decode bytes = .ok p →
        Reads (records bytes) starts (.ok p.operations) ∧ p.operations.length = starts.length) ∧
      ∀ e code offset, decode bytes = .error e → e.place? = some (code, offset) →
        Reads (records bytes) starts (.error e) ∧ starts.getLast? = some offset ∧
          offset % 2 = 0 ∧ headerSize ≤ offset ∧ offset + 2 ≤ bytes.length ∧
          Bytes.wordAt bytes offset = code ∧
          (e = .unknownOpcode code offset ↔ Opcode.ofCode? code = none) := by
  have hbound : ∀ {starts result}, Reads (records bytes) starts result →
      starts.length ≤ (bytes.length - headerSize) / 2 := by
    intro starts result hreads
    have hle := hreads.length_le
    rw [records, List.length_drop] at hle
    omega
  cases hdecode : decode bytes with
  | ok p =>
    obtain ⟨starts, hreads⟩ := exists_reads (records bytes)
    rw [records, operationsFrom_of_decode hdecode] at hreads
    refine ⟨starts, hbound hreads, ?_, ?_⟩
    · rintro _ ⟨⟩
      exact ⟨hreads, hreads.length_eq⟩
    · rintro _ _ _ ⟨⟩
  | error e =>
    cases hplace : e.place? with
    | none =>
      refine ⟨[], Nat.zero_le _, ?_, ?_⟩
      · rintro _ ⟨⟩
      · rintro _ _ _ ⟨⟩ hsome
        rw [hplace] at hsome
        cases hsome
    | some place =>
      obtain ⟨hon, hoperations⟩ := operationsFrom_of_place hdecode hplace
      obtain ⟨starts, hreads⟩ := exists_reads (records bytes)
      rw [hoperations] at hreads
      obtain ⟨start, hstart, herror, hlast⟩ := hreads.failure hon
      obtain ⟨hcode, hunknown⟩ := place?_of_nextOperation hstart herror
      have hbegins := hreads.begins hon _ (List.mem_of_getLast? hlast)
      refine ⟨starts, hbound hreads, ?_, ?_⟩
      · rintro _ ⟨⟩
      · rintro _ _ _ ⟨⟩ hsome
        rw [hcode] at hsome
        cases hsome
        exact ⟨hreads, hlast, hbegins.even, hbegins.first_le, hbegins.code_le, rfl, hunknown⟩

/-- A code that does not exist, behind a record with its pad. -/
theorem decode_progress_unknown :
    let bytes : List UInt8 := Bytes.ofWord 0 ++ headerTail ⟨0, 0, 480, 640⟩ ++
      [0, 4, 7, 0] ++ [0x12, 0x34, 0]
    decode bytes = .error (.unknownOpcode 0x1234 44) ∧
      ∃ starts : List Nat, starts.length ≤ 3 ∧
        Reads (records bytes) starts (.error (.unknownOpcode 0x1234 44)) ∧
        starts.getLast? = some 44 ∧ Bytes.wordAt bytes 44 = 0x1234 ∧
        Opcode.ofCode? 0x1234 = none := by
  intro bytes
  have hdecode : decode bytes = .error (.unknownOpcode 0x1234 44) := by decide +kernel
  have hwords : (bytes.length - headerSize) / 2 = 3 := by decide
  obtain ⟨starts, hlength, -, hcomplaint⟩ := decode_progress bytes
  obtain ⟨hreads, hlast, -, -, -, hcode, hunknown⟩ := hcomplaint _ _ _ hdecode rfl
  rw [hwords] at hlength
  exact ⟨hdecode, starts, hlength, hreads, hlast, hcode, hunknown.mp rfl⟩

end Picture
end Floorplan
