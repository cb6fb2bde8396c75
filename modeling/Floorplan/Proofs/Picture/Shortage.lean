import Floorplan.Proofs.Picture.Faults

/-!
# Floorplan.Proofs.Picture.Shortage

Where a read that gives nothing leaves the cursor. A read that `Consists` of parts gives something
where all of them come next, and otherwise passes those that do. One of a single part thus stays
where it is, while a point or a rectangle is read word by word and passes the whole words that are
left (`Read.Item.offset_of_read_eq_none`). The cursor is any that reads and alignments lead to from
the start of the bytes, those that failed among them.
-/

namespace Floorplan
namespace Cursor

/-- The cursor behind the next `n` bytes. -/
def past (c : Cursor) (n : Nat) : Cursor := ⟨c.offset + n, c.rest.drop n⟩

@[simp] theorem past_zero (c : Cursor) : c.past 0 = c := rfl

theorem past_past (c : Cursor) (m n : Nat) : (c.past m).past n = c.past (m + n) := by
  simp only [past, List.drop_drop, Nat.add_assoc]

@[simp] theorem length_rest_past (c : Cursor) (n : Nat) :
    (c.past n).rest.length = c.rest.length - n := List.length_drop

theorem On.past {bytes : List UInt8} {c : Cursor} (h : c.On bytes) {n : Nat}
    (hn : n ≤ c.rest.length) : (c.past n).On bytes := by
  have hlength : (c.rest.take n).length = n := List.length_take_of_le hn
  refine h.pass (List.take_append_drop n c.rest).symm ?_
  rw [hlength]
  rfl

theorem on_ofBytes (bytes : List UInt8) : (ofBytes bytes).On bytes := ⟨Nat.zero_le _, rfl⟩

end Cursor

namespace Read

/-! ### Parts -/

/-- The read has so many parts of one length. It gives something where all of them come next, and
otherwise passes those that do. -/
structure Consists {α : Type} (read : Read α) (parts length : Nat) : Prop where
  needs : Needs read (parts * length)
  stops : ∀ {c : Cursor}, c.rest.length < parts * length →
    read c = (none, c.past (c.rest.length / length * length))

namespace Consists

variable {α β : Type} {read : Read α} {parts others length : Nat} {c : Cursor}

/-- A read that is made at once or not at all. -/
theorem single (hneeds : Needs read length)
    (hstays : ∀ {c : Cursor}, c.rest.length < length → read c = (none, c)) :
    Consists read 1 length where
  needs := by rwa [Nat.one_mul]
  stops hc := by
    rw [Nat.one_mul] at hc
    rw [hstays hc, Nat.div_eq_of_lt hc, Nat.zero_mul, Cursor.past_zero]

/-- A read whose value is only wrapped up. -/
theorem map (f : α → β) (h : Consists read parts length) :
    Consists (do return f (← read)) parts length where
  needs := h.needs.map f
  stops hc := by rw [bind_apply, h.stops hc]

theorem bind {f : α → Read β} (h : Consists read parts length)
    (hf : ∀ a, Consists (f a) others length) : Consists (read >>= f) (parts + others) length where
  needs := by
    rw [Nat.add_mul]
    exact h.needs.bind fun a => (hf a).needs
  stops {c} hc := by
    rw [bind_apply]
    by_cases hfirst : parts * length ≤ c.rest.length
    · -- the first read is made, and the second stops among its own parts
      obtain ⟨a, ha⟩ := h.needs.gives hfirst
      obtain ⟨left, hleft⟩ := Nat.exists_eq_add_of_le hfirst
      have hrest : (c.past (parts * length)).rest.length = left := by
        rw [Cursor.length_rest_past, hleft, Nat.add_sub_cancel_left]
      have hshort : left < others * length := by
        rw [hleft, Nat.add_mul] at hc
        exact Nat.lt_of_add_lt_add_left hc
      have hpos : 0 < length := Nat.pos_of_mul_pos_left (Nat.zero_lt_of_lt hshort)
      have hwhole : (parts * length + left) / length = parts + left / length := by
        rw [Nat.mul_comm, Nat.mul_add_div hpos]
      have hstop := (hf a).stops (hrest ▸ hshort)
      rw [ha]
      refine hstop.trans ?_
      rw [Cursor.past_past, hrest, hleft, hwhole, Nat.add_mul]
    · rw [h.stops (Nat.not_le.mp hfirst)]

theorem read_eq_none_iff (h : Consists read parts length) :
    (read c).1 = none ↔ c.rest.length < parts * length := by
  constructor
  · intro hnone
    by_contra hle
    obtain ⟨a, ha⟩ := h.needs.gives (Nat.not_lt.mp hle)
    rw [ha] at hnone
    cases hnone
  · intro hlt
    rw [h.stops hlt]

theorem cursor_of_none (h : Consists read parts length) (hnone : (read c).1 = none) :
    (read c).2 = c.past (c.rest.length / length * length) := by
  rw [h.stops (h.read_eq_none_iff.mp hnone)]

/-- Whatever it gives, the read leaves a cursor in the same bytes. -/
theorem on {bytes : List UInt8} (h : Consists read parts length) (hon : c.On bytes) :
    (read c).2.On bytes := by
  by_cases hle : parts * length ≤ c.rest.length
  · obtain ⟨a, ha⟩ := h.needs.gives hle
    rw [ha]
    exact hon.past hle
  · rw [h.stops (Nat.not_le.mp hle)]
    exact hon.past (Nat.div_mul_le_self _ _)

end Consists

theorem take_of_short {n : Nat} {c : Cursor} (h : c.rest.length < n) : take n c = (none, c) := by
  simp only [take, split?_eq_none_iff.mpr h]

theorem consists_take (n : Nat) : Consists (take n) 1 n := .single (needs_take n) take_of_short

theorem consists_byte : Consists byte 1 1 := by
  refine .single needs_byte ?_
  rintro ⟨offset, _ | ⟨x, rest⟩⟩ hc
  · rfl
  · simp at hc

theorem consists_word : Consists word 1 2 := by
  refine .single needs_word ?_
  rintro ⟨offset, _ | ⟨x, _ | ⟨y, rest⟩⟩⟩ hc
  · rfl
  · rfl
  · simp only [List.length_cons] at hc
    omega

theorem consists_signedWord : Consists signedWord 1 2 := consists_word.map UInt16.toInt16

theorem consists_long : Consists long 1 4 := by
  refine .single needs_long ?_
  rintro ⟨offset, _ | ⟨x, _ | ⟨y, _ | ⟨z, _ | ⟨w, rest⟩⟩⟩⟩⟩ hc
  · rfl
  · rfl
  · rfl
  · rfl
  · simp only [List.length_cons] at hc
    omega

/-- The bytes of a pattern are taken at once, and enough of them always make one. -/
theorem consists_pattern : Consists Pattern.read 1 8 := by
  refine .single Pattern.needs_read ?_
  intro c hc
  rw [Pattern.read, bind_apply, take_of_short hc]

theorem consists_point : Consists Point.read 2 2 :=
  consists_signedWord.bind fun _ => consists_signedWord.map _

theorem consists_rect : Consists Rect.read 4 2 :=
  consists_signedWord.bind fun _ => consists_signedWord.bind fun _ =>
    consists_signedWord.bind fun _ => consists_signedWord.map _

/-! ### What can be read -/

inductive Item where
  | byte
  | signedByte
  | word
  | signedWord
  | long
  | signedLong
  /-- So many bytes, as a slice or as an array. -/
  | bytes (n : Nat)
  | skip (n : Nat)
  | pattern
  | point
  | rect
  deriving DecidableEq

namespace Item

def Value : Item → Type
  | byte => UInt8
  | signedByte => Int8
  | word => UInt16
  | signedWord => Int16
  | long => UInt32
  | signedLong => Int32
  | bytes _ => List UInt8
  | skip _ => Unit
  | pattern => Pattern
  | point => Point
  | rect => Rect

def read : (item : Item) → Read item.Value
  | byte => Read.byte
  | signedByte => Read.signedByte
  | word => Read.word
  | signedWord => Read.signedWord
  | long => Read.long
  | signedLong => Read.signedLong
  | bytes n => Read.take n
  | skip n => Read.skip n
  | pattern => Pattern.read
  | point => Point.read
  | rect => Rect.read

/-- How many reads an item takes. -/
def parts : Item → Nat
  | point => 2
  | rect => 4
  | _ => 1

/-- How many bytes each of them is for. -/
def partLength : Item → Nat
  | byte | signedByte => 1
  | word | signedWord | point | rect => 2
  | long | signedLong => 4
  | bytes n | skip n => n
  | pattern => 8

theorem consists (item : Item) : Consists item.read item.parts item.partLength := by
  cases item with
  | byte => exact consists_byte
  | signedByte => exact consists_byte.map _
  | word => exact consists_word
  | signedWord => exact consists_signedWord
  | long => exact consists_long
  | signedLong => exact consists_long.map _
  | bytes n => exact consists_take n
  | skip n => exact (consists_take n).map _
  | pattern => exact consists_pattern
  | point => exact consists_point
  | rect => exact consists_rect

theorem parts_eq_one {item : Item} (hpoint : item ≠ point) (hrect : item ≠ rect) :
    item.parts = 1 := by
  cases item with
  | point => exact absurd rfl hpoint
  | rect => exact absurd rfl hrect
  | _ => rfl

end Item

/-! ### One step after another -/

inductive Step where
  | read (item : Item)
  | align

/-- Where a step leaves the cursor. -/
def Step.cursor (c : Cursor) : Step → Cursor
  | .read item => (item.read c).2
  | .align => c.align

theorem Step.on {bytes : List UInt8} {c : Cursor} (h : c.On bytes) (step : Step) :
    (step.cursor c).On bytes := by
  cases step with
  | read item => exact item.consists.on h
  | align => exact h.align

end Read

def Cursor.after (c : Cursor) (steps : List Read.Step) : Cursor := steps.foldl Read.Step.cursor c

theorem Cursor.On.after {bytes : List UInt8} {c : Cursor} (h : c.On bytes)
    (steps : List Read.Step) : (c.after steps).On bytes := by
  induction steps generalizing c with
  | nil => exact h
  | cons step steps ih => exact ih (step.on h)

namespace Read
namespace Item

/-- Wherever steps lead to, the cursor knows how many bytes are left, and a read gives nothing
exactly if these are fewer than the item has. The cursor then stays where it is, except that a point
or a rectangle passes the whole words that are left. -/
theorem offset_of_read_eq_none (bytes : List UInt8) (steps : List Step) (item : Item) :
    let c := (Cursor.ofBytes bytes).after steps
    c.offset + c.remaining = bytes.length ∧
      ((item.read c).1 = none ↔ c.remaining < item.parts * item.partLength) ∧
      ((item.read c).1 = none →
        (item ≠ point → item ≠ rect → (item.read c).2 = c) ∧
          (item = point ∨ item = rect →
            (item.read c).2.offset = c.offset + c.remaining / 2 * 2)) := by
  intro c
  have hon : c.On bytes := (Cursor.on_ofBytes bytes).after steps
  have hnone : (item.read c).1 = none ↔ c.remaining < item.parts * item.partLength :=
    item.consists.read_eq_none_iff
  refine ⟨hon.length_rest, hnone, ?_⟩
  intro hread
  have hcursor : (item.read c).2 = c.past (c.remaining / item.partLength * item.partLength) :=
    item.consists.cursor_of_none hread
  refine ⟨?_, ?_⟩
  · intro hpoint hrect
    have hshort := hnone.mp hread
    rw [parts_eq_one hpoint hrect, Nat.one_mul] at hshort
    rw [hcursor, Nat.div_eq_of_lt hshort, Nat.zero_mul, Cursor.past_zero]
  · rintro (rfl | rfl)
    · exact congrArg Cursor.offset hcursor
    · exact congrArg Cursor.offset hcursor

/-- A rectangle that lacks its last byte, behind a byte and the alignment after it, and its eight
bytes as a slice. -/
theorem offset_of_read_eq_none_rect :
    let c := (Cursor.ofBytes [1, 0, 0, 0, 0, 0, 1, 224, 2]).after [.read byte, .align]
    ((rect.read c).1 = none ∧ (rect.read c).2.offset = c.offset + 6) ∧
      ((bytes 8).read c).1 = none ∧ ((bytes 8).read c).2 = c := by
  intro c
  have hrect : (rect.read c).1 = none := rfl
  have hslice : ((bytes 8).read c).1 = none := rfl
  have hpassed := ((offset_of_read_eq_none _ _ rect).2.2 hrect).2 (.inr rfl)
  have hstays := ((offset_of_read_eq_none _ _ (bytes 8)).2.2 hslice).1 (by decide) (by decide)
  exact ⟨⟨hrect, hpassed⟩, hslice, hstays⟩

/-- A point of which only the first coordinate is there. -/
theorem offset_ne_of_read_point :
    let c := (Cursor.ofBytes [0x12, 0x34]).after []
    (point.read c).1 = none ∧ (point.read c).2.offset ≠ c.offset :=
  ⟨rfl, by decide⟩

end Item
end Read
end Floorplan
