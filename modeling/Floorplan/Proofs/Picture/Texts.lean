import Floorplan.Proofs.Picture.Rows

/-!
# Floorplan.Proofs.Picture.Texts

The texts that a picture draws. Each was decoded from bytes in the Mac OS Roman set
(`Picture.decoded_of_decode`), since no read makes a text from anything else.
-/

namespace Floorplan

/-- The text that an operation draws. -/
def Operation.text? : Operation → Option String
  | .text _ shown => some shown
  | _ => none

def Picture.texts (picture : Picture) : List String :=
  picture.operations.filterMap Operation.text?

namespace Operation

/-- The text that an operation draws, if any, was written in the Mac OS Roman set. -/
structure Decoded (op : Operation) : Prop where
  text : ∀ text ∈ op.text?, ∃ bytes, text = MacRoman.decode bytes

theorem decoded_of_ofRecord? {r : Record} {op : Operation} (h : ofRecord? r = some op) :
    op.Decoded where
  text shown hshown := by
    obtain ⟨-, taken, left, -, hspelled⟩ := spelled_of_ofRecord? h
    cases op with
    | text place label =>
      cases hshown
      exact ⟨r.body, hspelled.1⟩
    | _ => cases hshown

end Operation

theorem Picture.decoded_of_decode {bytes : List UInt8} {picture : Picture}
    (h : decode bytes = .ok picture) : ∀ op ∈ picture.operations, op.Decoded := by
  intro op hop
  obtain ⟨row, hmeans⟩ := means_of_mem (operationsFrom_of_decode h) hop
  exact Operation.decoded_of_ofRecord? hmeans.meaning

end Floorplan
