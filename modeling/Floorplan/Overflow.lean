/-!
# Floorplan.Overflow

Integers of 64 bits, one of them for the sign. The plane of the drawing and the decimals are held in
them, and arithmetic that leaves them does not go on: `held` answers with the `Overflow` that names
the operation. Everything else of this library computes with exact integers, which is the same as
long as nothing leaves the 64 bits, and in a conversion nothing does
(`Conversion.ofOperations_within`).
-/

namespace Floorplan

/-- The operations that can leave the 64 bits. -/
inductive Overflow where
  | add
  | subtract
  | multiply
  | divide
  | negate
  deriving DecidableEq

def Overflow.message : Overflow → String
  | .add => "attempt to add with overflow"
  | .subtract => "attempt to subtract with overflow"
  | .multiply => "attempt to multiply with overflow"
  | .divide => "attempt to divide with overflow"
  | .negate => "attempt to negate with overflow"

/-- Fits 64 bits, one of them for the sign. -/
def Held (n : Int) : Prop := -0x8000000000000000 ≤ n ∧ n < 0x8000000000000000

instance (n : Int) : Decidable (Held n) := inferInstanceAs (Decidable (_ ∧ _))

/-- The exact result of an operation, if it fits. -/
def held (operation : Overflow) (n : Int) : Except Overflow Int :=
  if Held n then .ok n else .error operation

theorem held_eq_ok_iff {operation : Overflow} {n m : Int} :
    held operation n = .ok m ↔ Held n ∧ n = m := by
  unfold held
  split <;> simp_all

theorem held_of_held {n : Int} (h : Held n) (operation : Overflow) :
    held operation n = .ok n :=
  if_pos h

/-- The magnitude of an integer, which is its negation below zero. -/
def heldAbs (n : Int) : Except Overflow Int := held .negate n.natAbs

end Floorplan
