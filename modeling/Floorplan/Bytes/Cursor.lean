import Floorplan.Bytes

/-!
# Floorplan.Bytes.Cursor

A position in a run of bytes, and reads that move it. A read that finds too few bytes answers
`none`: a single one then leaves the cursor where it was, and one composed of several leaves it
where the first failing part found it.
-/

namespace Floorplan

/-- The bytes that are left, and how many were passed. -/
structure Cursor where
  offset : Nat
  rest : List UInt8
  deriving DecidableEq

/-- A step that moves a cursor and may find too few bytes. -/
abbrev Read (α : Type) := OptionT (StateM Cursor) α

namespace Cursor

def ofBytes (bytes : List UInt8) : Cursor := ⟨0, bytes⟩

def remaining (c : Cursor) : Nat := c.rest.length

def atEnd (c : Cursor) : Bool := c.rest.isEmpty

/-- The next `n` bytes and the cursor after them. -/
def split? (n : Nat) (c : Cursor) : Option (List UInt8 × Cursor) :=
  let taken := c.rest.take n
  if taken.length = n then some (taken, ⟨c.offset + n, c.rest.drop n⟩) else none

/-- Moves to the next even offset, unless the bytes end here. -/
def align (c : Cursor) : Cursor :=
  if c.offset % 2 = 1 then
    match c.rest with
    | [] => c
    | _ :: rest => ⟨c.offset + 1, rest⟩
  else c

end Cursor

namespace Read

def take (n : Nat) : Read (List UInt8) := fun c =>
  match c.split? n with
  | some (taken, c) => (some taken, c)
  | none => (none, c)

/-- The next `n` bytes, or as many as there are. -/
def takeUpTo (n : Nat) : Read (List UInt8) := fun c =>
  let taken := c.rest.take n
  (some taken, ⟨c.offset + taken.length, c.rest.drop n⟩)

def skip (n : Nat) : Read Unit := do
  let _ ← take n

def byte : Read UInt8 := fun c =>
  match c.rest with
  | a :: rest => (some a, ⟨c.offset + 1, rest⟩)
  | _ => (none, c)

def word : Read UInt16 := fun c =>
  match c.rest with
  | x :: y :: rest => (some (Bytes.word x y), ⟨c.offset + 2, rest⟩)
  | _ => (none, c)

theorem length_rest_of_word {c c' : Cursor} {w : UInt16} (h : word c = (some w, c')) :
    c'.rest.length < c.rest.length := by
  simp only [word] at h
  split at h
  · rename_i heq
    cases h
    simp only [heq, List.length_cons]
    omega
  · cases h

def long : Read UInt32 := fun c =>
  match c.rest with
  | x :: y :: z :: w :: rest => (some (Bytes.long x y z w), ⟨c.offset + 4, rest⟩)
  | _ => (none, c)

def signedByte : Read Int8 := do return (← byte).toInt8

def signedWord : Read Int16 := do return (← word).toInt16

def signedLong : Read Int32 := do return (← long).toInt32

/-- What a read finds in a run of bytes. -/
def find? {α : Type} (read : Read α) (bytes : List UInt8) : Option α :=
  (read (Cursor.ofBytes bytes)).1

end Read
end Floorplan
