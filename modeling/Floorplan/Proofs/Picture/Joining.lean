import Mathlib.Data.List.Basic
import Floorplan.Proofs.Picture.Stream

/-!
# Floorplan.Proofs.Picture.Joining

Records in a row. What a record means hangs on its own bytes alone: they give the same operation at
every offset and whatever stands behind them (`Picture.Holds`, `Picture.exists_holds`). So a run of
records is read like its first part and then its second one, with the pad between them passed over
and the offsets in complaints counted on (`Picture.decode_append`).
-/

namespace Floorplan

/-- The same bytes, `n` further on. -/
def Cursor.shift (n : Nat) (c : Cursor) : Cursor := ⟨c.offset + n, c.rest⟩

/-- The same complaint about a record that starts `n` further on. -/
def PictureError.shift (n : Nat) : PictureError → PictureError
  | .unknownOpcode code offset => .unknownOpcode code (offset + n)
  | .truncated opcode offset => .truncated opcode (offset + n)
  | .badRecordLength opcode offset length => .badRecordLength opcode (offset + n) length
  | e => e

/-! ### Moving on -/

section Shift

variable (n : Nat) (c : Cursor)

theorem Cursor.split?_shift (count : Nat) :
    (c.shift n).split? count = (c.split? count).map fun p => (p.1, p.2.shift n) := by
  have hoffset : c.offset + n + count = c.offset + count + n := by omega
  simp only [split?, shift, hoffset]
  split <;> rfl

theorem Cursor.align_shift (hn : n % 2 = 0) : (c.shift n).align = c.align.shift n := by
  obtain ⟨offset, rest⟩ := c
  have hoffset : offset + n + 1 = offset + 1 + n := by omega
  by_cases hodd : offset % 2 = 1
  · have hshift : (offset + n) % 2 = 1 := by omega
    cases rest <;> simp [align, shift, hodd, hshift, hoffset]
  · have hshift : ¬ (offset + n) % 2 = 1 := by omega
    simp [align, shift, hodd, hshift]

theorem Read.word_shift : word (c.shift n) = ((word c).1, (word c).2.shift n) := by
  obtain ⟨offset, rest⟩ := c
  have hoffset : offset + n + 2 = offset + 2 + n := by omega
  rcases rest with _ | ⟨x, _ | ⟨y, rest⟩⟩
  · rfl
  · rfl
  · simp only [word, Cursor.shift, hoffset]

theorem Record.read_shift (opcode : Opcode) :
    Record.read opcode (c.shift n) =
      (Record.read opcode c).map fun p => (p.1, p.2.shift n) := by
  unfold Record.read
  rw [Cursor.split?_shift]
  cases c.split? opcode.layout.fixed with
  | none => rfl
  | some p =>
    simp only [Option.map_some]
    cases opcode.layout.bodyLength p.1 with
    | error fault => rfl
    | ok length =>
      simp only [Cursor.split?_shift]
      cases p.2.split? length <;> rfl

theorem PictureError.ofFault_shift (opcode : Opcode) (offset : Nat) (fault : RecordFault) :
    ofFault opcode (offset + n) fault = (ofFault opcode offset fault).shift n := by
  cases fault <;> rfl

namespace Picture

theorem nextOperation_shift :
    nextOperation (c.shift n) =
      match nextOperation c with
      | .error e => .error (e.shift n)
      | .ok none => .ok none
      | .ok (some (op, c')) => .ok (some (op, c'.shift n)) := by
  have hoffset : (c.shift n).offset = c.offset + n := rfl
  unfold nextOperation
  rw [Read.word_shift, hoffset]
  obtain ⟨code, c'⟩ := Read.word c
  cases code with
  | none => rfl
  | some code =>
    dsimp only
    cases Opcode.ofCode? code with
    | none => rfl
    | some opcode =>
      dsimp only
      rw [Record.read_shift]
      cases Record.read opcode c' with
      | error fault => simp only [Except.map, PictureError.ofFault_shift]
      | ok p =>
        simp only [Except.map]
        cases Operation.ofRecord? p.1 <;> rfl

theorem operationsFrom_shift (hn : n % 2 = 0) :
    operationsFrom (c.shift n) = (operationsFrom c).mapError (PictureError.shift n) := by
  induction hlength : c.rest.length using Nat.strongRecOn generalizing c with
  | _ length ih =>
    rw [operationsFrom_eq, operationsFrom_eq c, Cursor.align_shift n c hn, nextOperation_shift]
    cases hnext : nextOperation c.align with
    | error e => rfl
    | ok next =>
      rcases next with _ | ⟨op, c'⟩
      · rfl
      · dsimp only
        split
        · rfl
        · have hlt := Nat.lt_of_lt_of_le (length_rest_of_nextOperation hnext) (length_rest_align c)
          rw [ih c'.rest.length (hlength ▸ hlt) c' rfl]
          cases operationsFrom c' <;> rfl

end Picture

end Shift

/-! ### One record -/

theorem Cursor.eq_of_split? {count : Nat} {c c' : Cursor} {taken : List UInt8}
    (h : c.split? count = some (taken, c')) :
    c = ⟨c.offset, taken ++ c'.rest⟩ ∧ c'.offset = c.offset + taken.length ∧
      taken.length = count := by
  simp only [split?] at h
  split at h
  · next hlength =>
    cases h
    exact ⟨by rw [List.take_append_drop], by rw [hlength], hlength⟩
  · cases h

theorem Read.eq_of_word {c c' : Cursor} {w : UInt16} (h : word c = (some w, c')) :
    ∃ x y, c = ⟨c.offset, x :: y :: c'.rest⟩ ∧ c'.offset = c.offset + 2 ∧ w = Bytes.word x y := by
  obtain ⟨offset, rest⟩ := c
  rcases rest with _ | ⟨x, _ | ⟨y, rest⟩⟩
  · cases h
  · cases h
  · cases h
    exact ⟨x, y, rfl, rfl, rfl⟩

theorem Record.of_read {opcode : Opcode} {c c' : Cursor} {r : Record}
    (h : Record.read opcode c = .ok (r, c')) :
    ∃ fixed body length c₁, r = ⟨opcode, fixed, body⟩ ∧
      c.split? opcode.layout.fixed = some (fixed, c₁) ∧
      opcode.layout.bodyLength fixed = .ok length ∧ c₁.split? length = some (body, c') := by
  unfold Record.read at h
  split at h
  · cases h
  · next fixed c₁ hfixed =>
    split at h
    · cases h
    · next length hlength =>
      split at h
      · cases h
      · next body c₂ hbody =>
        cases h
        exact ⟨fixed, body, length, c₁, rfl, hfixed, hlength, hbody⟩

theorem Record.exists_parts {opcode : Opcode} {c c' : Cursor} {r : Record}
    (h : Record.read opcode c = .ok (r, c')) :
    ∃ bytes, c = ⟨c.offset, bytes ++ c'.rest⟩ ∧ c'.offset = c.offset + bytes.length ∧
      ∀ (offset : Nat) (rest : List UInt8),
        Record.read opcode ⟨offset, bytes ++ rest⟩ = .ok (r, ⟨offset + bytes.length, rest⟩) := by
  obtain ⟨fixed, body, length, c₁, rfl, hfixed, hlength, hbody⟩ := Record.of_read h
  obtain ⟨hc, hoffset, hfixedLength⟩ := Cursor.eq_of_split? hfixed
  obtain ⟨hc₁, hoffset₁, hbodyLength⟩ := Cursor.eq_of_split? hbody
  refine ⟨fixed ++ body, ?_, ?_, ?_⟩
  · rw [hc, hc₁, List.append_assoc]
  · rw [hoffset₁, hoffset, List.length_append, Nat.add_assoc]
  · intro offset rest
    unfold Record.read
    rw [List.append_assoc, Read.split?_append (body ++ rest) hfixedLength]
    simp only [hlength, Read.split?_append rest hbodyLength]
    rw [List.length_append, hfixedLength, hbodyLength, Nat.add_assoc]

namespace Picture

theorem of_nextOperation {c c' : Cursor} {op : Operation}
    (h : nextOperation c = .ok (some (op, c'))) :
    ∃ code opcode r c₁, Read.word c = (some code, c₁) ∧ Opcode.ofCode? code = some opcode ∧
      Record.read opcode c₁ = .ok (r, c') ∧ Operation.ofRecord? r = some op := by
  unfold nextOperation at h
  split at h
  · cases h
  · next code c₁ hword =>
    split at h
    · cases h
    · next opcode hopcode =>
      split at h
      · cases h
      · next r c₂ hread =>
        split at h
        · cases h
        · next operation hop =>
          cases h
          exact ⟨code, opcode, r, c₁, hword, hopcode, hread, hop⟩

/-- The bytes are those of one record, which gives the operation wherever it stands. -/
def Holds (bytes : List UInt8) (op : Operation) : Prop :=
  ∀ (offset : Nat) (rest : List UInt8),
    nextOperation ⟨offset, bytes ++ rest⟩ = .ok (some (op, ⟨offset + bytes.length, rest⟩))

theorem exists_holds {c c' : Cursor} {op : Operation}
    (h : nextOperation c = .ok (some (op, c'))) :
    ∃ bytes, c = ⟨c.offset, bytes ++ c'.rest⟩ ∧ c'.offset = c.offset + bytes.length ∧
      bytes ≠ [] ∧ Holds bytes op := by
  obtain ⟨code, opcode, r, c₁, hword, hopcode, hread, hop⟩ := of_nextOperation h
  obtain ⟨x, y, hc, hoffset, hcode⟩ := Read.eq_of_word hword
  obtain ⟨bytes, hc₁, hoffset₁, hparts⟩ := Record.exists_parts hread
  have hlength : (x :: y :: bytes).length = 2 + bytes.length := by
    rw [List.length_cons, List.length_cons]
    omega
  refine ⟨x :: y :: bytes, ?_, ?_, by simp, ?_⟩
  · rw [hc, hc₁]
    rfl
  · rw [hoffset₁, hoffset, hlength, Nat.add_assoc]
  · intro offset rest
    have hfirst : Read.word ⟨offset, x :: y :: bytes ++ rest⟩ =
        (some code, ⟨offset + 2, bytes ++ rest⟩) := by
      rw [hcode]
      rfl
    simp only [nextOperation, hfirst, hopcode, hparts, hop, hlength, Nat.add_assoc]

theorem length_rest_of_nextOperation_none {c : Cursor} (h : nextOperation c = .ok none) :
    c.rest.length < 2 := by
  obtain ⟨offset, rest⟩ := c
  rcases rest with _ | ⟨x, _ | ⟨y, rest⟩⟩
  · simp
  · simp
  · unfold nextOperation Read.word at h
    dsimp only at h
    split at h
    · cases h
    · split at h
      · cases h
      · split at h
        · cases h
        · cases h

/-! ### Records in a row -/

theorem align_pad {offset : Nat} {pad : List UInt8} (rest : List UInt8)
    (h : pad.length = offset % 2) :
    (⟨offset, pad ++ rest⟩ : Cursor).align = ⟨offset + pad.length, rest⟩ := by
  rcases Nat.mod_two_eq_zero_or_one offset with heven | hodd
  · rw [heven, List.length_eq_zero_iff] at h
    subst h
    exact align_of_even rest heven
  · rw [hodd, List.length_eq_one_iff] at h
    obtain ⟨x, rfl⟩ := h
    simp [Cursor.align, hodd]

theorem operationsFrom_skip {offset : Nat} {pad : List UInt8} (rest : List UInt8)
    (h : pad.length = offset % 2) :
    operationsFrom ⟨offset, pad ++ rest⟩ = operationsFrom ⟨offset + pad.length, rest⟩ := by
  have heven : (offset + pad.length) % 2 = 0 := by omega
  rw [operationsFrom_eq, align_pad rest h, operationsFrom_eq, align_of_even rest heven]

theorem operationsFrom_holds {offset : Nat} {pad bytes : List UInt8} {op : Operation}
    (hpad : pad.length = offset % 2) (hbytes : Holds bytes op) (rest : List UInt8) :
    operationsFrom ⟨offset, pad ++ (bytes ++ rest)⟩ =
      if op = .endOfPicture then .ok [op]
      else (operationsFrom ⟨offset + pad.length + bytes.length, rest⟩).map (op :: ·) := by
  rw [operationsFrom_eq, align_pad _ hpad, hbytes]

/-- What is read without complaint is too short for a record, or a record with what is read
behind it. -/
theorem of_operationsFrom {offset : Nat} {bytes : List UInt8} {ops : List Operation}
    (h : operationsFrom ⟨offset, bytes⟩ = .ok ops) :
    (ops = [] ∧ bytes.length < 2 + offset % 2) ∨
      ∃ pad record rest op, bytes = pad ++ (record ++ rest) ∧ pad.length = offset % 2 ∧
        record ≠ [] ∧ Holds record op ∧
        ((op = .endOfPicture ∧ ops = [op]) ∨
          (op ≠ .endOfPicture ∧ ∃ ops', ops = op :: ops' ∧
            operationsFrom ⟨offset + pad.length + record.length, rest⟩ = .ok ops')) := by
  by_cases hshort : bytes.length < offset % 2
  · have hnil : bytes = [] := List.length_eq_zero_iff.mp (by omega)
    rw [hnil, operationsFrom_nil] at h
    cases h
    exact .inl ⟨rfl, by omega⟩
  · obtain ⟨pad, next, rfl, hpad⟩ : ∃ pad next, bytes = pad ++ next ∧ pad.length = offset % 2 :=
      ⟨bytes.take (offset % 2), bytes.drop (offset % 2), (List.take_append_drop ..).symm,
        by rw [List.length_take]; omega⟩
    rw [operationsFrom_eq, align_pad next hpad] at h
    cases hnext : nextOperation ⟨offset + pad.length, next⟩ with
    | error e => rw [hnext] at h; cases h
    | ok found =>
      rw [hnext] at h
      rcases found with _ | ⟨op, c⟩
      · cases h
        have hlt := length_rest_of_nextOperation_none hnext
        refine .inl ⟨rfl, ?_⟩
        rw [List.length_append, hpad]
        dsimp only at hlt
        omega
      · obtain ⟨record, hrest, hoffset, hne, hholds⟩ := exists_holds hnext
        have hsplit : next = record ++ c.rest := congrArg Cursor.rest hrest
        have hc : c = ⟨offset + pad.length + record.length, c.rest⟩ := by rw [← hoffset]
        refine .inr ⟨pad, record, c.rest, op, by rw [hsplit], hpad, hne, hholds, ?_⟩
        dsimp only at h
        split at h
        · next hend =>
          cases h
          exact .inl ⟨hend, rfl⟩
        · next hend =>
          rw [← hc]
          cases hops : operationsFrom c with
          | error e => rw [hops] at h; cases h
          | ok ops' =>
            rw [hops] at h
            cases h
            exact .inr ⟨hend, ops', rfl, rfl⟩

theorem operationsFrom_append_of_mem {offset : Nat} {bytes : List UInt8} {ops : List Operation}
    (h : operationsFrom ⟨offset, bytes⟩ = .ok ops) (hend : .endOfPicture ∈ ops)
    (more : List UInt8) : operationsFrom ⟨offset, bytes ++ more⟩ = .ok ops := by
  induction hlength : bytes.length using Nat.strongRecOn generalizing offset bytes ops with
  | _ length ih =>
    rcases of_operationsFrom h with
      ⟨rfl, -⟩ | ⟨pad, record, rest, op, rfl, hpad, hne, hholds, hop⟩
    · cases hend
    · rw [List.append_assoc, List.append_assoc, operationsFrom_holds hpad hholds]
      rcases hop with ⟨hop, rfl⟩ | ⟨hop, ops', rfl, hrest⟩
      · rw [if_pos hop]
      · have hmem : .endOfPicture ∈ ops' := by
          rcases List.mem_cons.mp hend with heq | hmem
          · exact absurd heq.symm hop
          · exact hmem
        have hpos := List.length_pos_iff.mpr hne
        have hlt : rest.length < length := by
          rw [← hlength, List.length_append, List.length_append]
          omega
        rw [if_neg hop, ih rest.length hlt hrest hmem rfl]
        rfl

/-- Records that come to a whole number of words without an end mark are read first, and then what
stands behind them. -/
theorem operationsFrom_append {offset : Nat} {bytes : List UInt8} {ops : List Operation}
    (heven : (offset + bytes.length) % 2 = 0) (h : operationsFrom ⟨offset, bytes⟩ = .ok ops)
    (hend : .endOfPicture ∉ ops) (more : List UInt8) :
    operationsFrom ⟨offset, bytes ++ more⟩ =
      (operationsFrom ⟨offset + bytes.length, more⟩).map (ops ++ ·) := by
  induction hlength : bytes.length using Nat.strongRecOn generalizing offset bytes ops with
  | _ length ih =>
    rcases of_operationsFrom h with
      ⟨rfl, hlt⟩ | ⟨pad, record, rest, op, rfl, hpad, hne, hholds, hop⟩
    · -- less than a record and a whole number of words: it is the pad in front of the next one
      rw [operationsFrom_skip more (by omega), hlength]
      cases operationsFrom ⟨offset + length, more⟩ <;> rfl
    · rcases hop with ⟨rfl, rfl⟩ | ⟨hop, ops', rfl, hrest⟩
      · exact absurd (List.mem_singleton_self _) hend
      · have hpos := List.length_pos_iff.mpr hne
        rw [List.length_append, List.length_append] at hlength heven
        have hmem : .endOfPicture ∉ ops' := fun hmem => hend (List.mem_cons_of_mem _ hmem)
        have hoffset : offset + pad.length + record.length + rest.length = offset + length := by
          omega
        have htail := ih rest.length (by omega) (by omega) hrest hmem rfl
        rw [List.append_assoc, List.append_assoc, operationsFrom_holds hpad hholds, if_neg hop,
          htail, hoffset]
        cases operationsFrom ⟨offset + length, more⟩ <;> rfl

/-! ### Whole pictures -/

theorem versionFound?_append {header : List UInt8} (h : header.length = headerSize)
    (bytes : List UInt8) : versionFound? (header ++ bytes) = versionFound? header := by
  have hlength : (header.drop 10).length = 30 := by rw [List.length_drop, h]; rfl
  unfold versionFound?
  rw [List.drop_append_of_le_length (by rw [h]; decide)]
  generalize header.drop 10 = tail at hlength ⊢
  rcases tail with _ | ⟨x, _ | ⟨y, _ | ⟨z, _ | ⟨w, rest⟩⟩⟩⟩
  · cases hlength
  · cases hlength
  · cases hlength
  · cases hlength
  · rfl

/-- A header that one picture starts with serves for any records. -/
theorem decode_header {header bytes : List UInt8} {p : Picture}
    (h : header.length = headerSize) (hp : decode (header ++ bytes) = .ok p) :
    operationsFrom ⟨headerSize, bytes⟩ = .ok p.operations ∧
      ∀ more, decode (header ++ more) =
        (operationsFrom ⟨headerSize, more⟩).map fun operations => ⟨p.frame, operations⟩ := by
  have hsplit (more : List UInt8) :
      (Cursor.ofBytes (header ++ more)).split? headerSize = some (header, ⟨headerSize, more⟩) :=
    Read.split?_append more h
  unfold decode at hp
  rw [versionFound?_append h, hsplit] at hp
  split at hp
  · cases hp
  · next hversion =>
    dsimp only at hp
    split at hp
    · cases hp
    · next frame hframe =>
      split at hp
      · cases hp
      · next operations hoperations =>
        cases hp
        refine ⟨hoperations, ?_⟩
        intro more
        unfold decode
        rw [versionFound?_append h, hversion, hsplit]
        dsimp only
        rw [hframe]
        cases operationsFrom ⟨headerSize, more⟩ <;> rfl

/-- A picture is read part by part. What stands behind an end mark does not matter, and records
behind a whole number of words without one are read as if they stood first, only further on. -/
theorem decode_append {header : List UInt8} (h : header.length = headerSize)
    (a b : List UInt8) (p : Picture) (hp : decode (header ++ a) = .ok p) :
    (p.operations.getLast? = some .endOfPicture → decode (header ++ a ++ b) = .ok p) ∧
      (a.length % 2 = 0 → .endOfPicture ∉ p.operations →
        decode (header ++ a ++ b) =
          match decode (header ++ b) with
          | .ok q => .ok { q with operations := p.operations ++ q.operations }
          | .error e => .error (e.shift a.length)) := by
  obtain ⟨hoperations, hdecode⟩ := decode_header h hp
  rw [List.append_assoc, hdecode, hdecode]
  constructor
  · intro hlast
    rw [operationsFrom_append_of_mem hoperations (List.mem_of_getLast? hlast)]
    rfl
  · intro heven hend
    have hshift := operationsFrom_shift a.length ⟨headerSize, b⟩ heven
    have hjoin := operationsFrom_append (by unfold headerSize; omega) hoperations hend b
    rw [hjoin]
    unfold Cursor.shift at hshift
    rw [hshift]
    cases operationsFrom ⟨headerSize, b⟩ <;> rfl

/-- An end mark, and in front of a code that does not exist a record with its pad. -/
theorem decode_append_pad :
    let header : List UInt8 := Bytes.ofWord 0 ++ headerTail ⟨0, 0, 480, 640⟩
    (header.length = headerSize ∧
      decode (header ++ [0, 0xFF]) = .ok ⟨⟨0, 0, 480, 640⟩, [.endOfPicture]⟩ ∧
      decode (header ++ [0, 4, 7, 0]) = .ok ⟨⟨0, 0, 480, 640⟩, [.textFace 7]⟩) ∧
      decode (header ++ [0, 0xFF] ++ [0, 2, 3]) = .ok ⟨⟨0, 0, 480, 640⟩, [.endOfPicture]⟩ ∧
      decode (header ++ [0x12, 0x34]) = .error (.unknownOpcode 0x1234 40) ∧
      decode (header ++ [0, 4, 7, 0] ++ [0x12, 0x34]) = .error (.unknownOpcode 0x1234 44) := by
  intro header
  have hlength : header.length = headerSize := by decide
  have hend : decode (header ++ [0, 0xFF]) = .ok ⟨⟨0, 0, 480, 640⟩, [.endOfPicture]⟩ := by
    decide +kernel
  have hface : decode (header ++ [0, 4, 7, 0]) = .ok ⟨⟨0, 0, 480, 640⟩, [.textFace 7]⟩ := by
    decide +kernel
  have hcode : decode (header ++ [0x12, 0x34]) = .error (.unknownOpcode 0x1234 40) := by
    decide +kernel
  have hstop := (decode_append hlength _ [0, 2, 3] _ hend).1 rfl
  have hjoin := (decode_append hlength _ [0x12, 0x34] _ hface).2 rfl (by decide)
  rw [hcode] at hjoin
  exact ⟨⟨hlength, hend, hface⟩, hstop, hcode, hjoin⟩

end Picture
end Floorplan
