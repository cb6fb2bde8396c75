import Floorplan.Proofs.Ratio

/-!
# Floorplan.Proofs.Placement

A block in 64 bits. What `Placement.blockBounds` answers is the block that `blockSize` and
`blockCenter` give in exact integers (`Placement.eq_of_blockBounds`), and it answers as long as the
origin and the pen are within so many pixels that a hundredfold fits (`Placement.blockBounds_eq_ok`).
-/

namespace Floorplan
namespace Placement

/-! ### Steps -/

section Steps

variable {a b pen n : Int}

theorem span_add_right (shift : Int) : span (a + shift) (b + shift) pen = span a b pen := by
  unfold span
  rw [Int.add_sub_add_right]

theorem heldSpan_eq_ok_iff :
    heldSpan a b pen = .ok n ↔ Held (b - a) ∧ (b - a).natAbs < 2 ^ 63 ∧
      Held ((b - a).natAbs - pen) ∧ span a b pen = n := by
  simp only [heldSpan, bind_eq_ok_iff, held_eq_ok_iff, heldAbs_eq_ok_iff]
  constructor
  · rintro ⟨_, ⟨hdifference, rfl⟩, _, ⟨hextent, rfl⟩, _, ⟨hrest, rfl⟩, h⟩
    cases h
    exact ⟨hdifference, hextent, hrest, rfl⟩
  · rintro ⟨hdifference, hextent, hrest, rfl⟩
    exact ⟨_, ⟨hdifference, rfl⟩, _, ⟨hextent, rfl⟩, _, ⟨hrest, rfl⟩, rfl⟩

theorem add_shift_add (a b shift : Int) : a + shift + (b + shift) = a + b + 2 * shift := by omega

theorem heldMiddle_eq_ok_iff {x : Decimal} :
    heldMiddle a b = .ok x ↔
      Held (a + b) ∧ Decimal.RatioHeld (a + b) 36 ∧ scaleDoubled (a + b) = x := by
  simp only [heldMiddle, bind_eq_ok_iff, held_eq_ok_iff]
  constructor
  · rintro ⟨_, ⟨h, rfl⟩, hx⟩
    exact ⟨h, Decimal.heldRatio_eq_ok_iff.mp hx⟩
  · rintro ⟨h, hx⟩
    exact ⟨_, ⟨h, rfl⟩, Decimal.heldRatio_eq_ok_iff.mpr hx⟩

end Steps

/-! ### In reach -/

/-- The origin and the pen are within so many pixels that a hundredfold of what they are part of fits
64 bits, and the heights are within so many hundredths that their sum does. -/
structure InReach (origin pen : Offset) (heights : Heights) : Prop where
  originX : origin.x.natAbs ≤ 2 ^ 55
  originY : origin.y.natAbs ≤ 2 ^ 55
  penX : pen.x.natAbs ≤ 2 ^ 56
  penY : pen.y.natAbs ≤ 2 ^ 56
  wall : heights.wall.hundredths.natAbs ≤ 2 ^ 61
  base : heights.base.hundredths.natAbs ≤ 2 ^ 61
  lift : heights.lift.hundredths.natAbs ≤ 2 ^ 61

theorem natAbs_toInt_le (w : Int16) : w.toInt.natAbs ≤ 32768 := by
  have hlow := Int16.le_toInt w
  have hhigh := Int16.toInt_lt w
  omega

section Axis

variable {shift pen : Int} (a b : Int16)

theorem held_add_shift (h : shift.natAbs ≤ 2 ^ 55) :
    held .add (a.toInt + shift) = .ok (a.toInt + shift) := by
  have ha := natAbs_toInt_le a
  apply held_of_held
  unfold Held
  omega

theorem heldSpan_eq_ok (h : pen.natAbs ≤ 2 ^ 56) (shift : Int) :
    heldSpan (a.toInt + shift) (b.toInt + shift) pen = .ok (span a.toInt b.toInt pen) := by
  have ha := natAbs_toInt_le a
  have hb := natAbs_toInt_le b
  rw [heldSpan_eq_ok_iff, Int.add_sub_add_right, span_add_right]
  unfold Held
  omega

theorem heldScale_eq_ok (h : pen.natAbs ≤ 2 ^ 56) :
    heldScale (span a.toInt b.toInt pen) = .ok (scale (span a.toInt b.toInt pen)) := by
  have ha := natAbs_toInt_le a
  have hb := natAbs_toInt_le b
  have hspan : (span a.toInt b.toInt pen).natAbs ≤ 92233720368547758 := by
    unfold span
    omega
  exact Decimal.heldRatio_of_le hspan (by decide) (by decide)

theorem heldMiddle_eq_ok (h : shift.natAbs ≤ 2 ^ 55) :
    heldMiddle (a.toInt + shift) (b.toInt + shift) =
      .ok (scaleDoubled (a.toInt + b.toInt + 2 * shift)) := by
  have ha := natAbs_toInt_le a
  have hb := natAbs_toInt_le b
  rw [heldMiddle_eq_ok_iff, add_shift_add]
  refine ⟨?_, .of_le (by omega) (by decide) (by decide), rfl⟩
  unfold Held
  omega

end Axis

/-! ### Blocks -/

variable {r : Rect} {origin pen : Offset} {heights : Heights}

/-- What is computed in 64 bits is the block. -/
theorem eq_of_blockBounds {size center : Vec3}
    (h : blockBounds r origin pen heights = .ok (size, center)) :
    size = blockSize r pen heights ∧ center = blockCenter r origin heights := by
  simp only [blockBounds, bind_eq_ok_iff, held_eq_ok_iff, heldSpan_eq_ok_iff, heldScale,
    Decimal.heldRatio_eq_ok_iff, heldMiddle_eq_ok_iff, Decimal.heldAdd_eq_ok_iff] at h
  obtain ⟨_, ⟨-, rfl⟩, _, ⟨-, rfl⟩, _, ⟨-, rfl⟩, _, ⟨-, rfl⟩, h⟩ := h
  obtain ⟨_, ⟨-, -, -, rfl⟩, _, ⟨-, -, -, rfl⟩, _, ⟨-, rfl⟩, _, ⟨-, rfl⟩, h⟩ := h
  obtain ⟨_, ⟨-, -, rfl⟩, _, ⟨-, rfl⟩, _, hhalf, _, ⟨-, rfl⟩, _, ⟨-, -, rfl⟩, h⟩ := h
  obtain rfl := Decimal.half_eq_of_heldHalf hhalf
  rw [span_add_right, span_add_right, add_shift_add, add_shift_add] at h
  cases h
  exact ⟨rfl, rfl⟩

theorem InReach.center_y (h : InReach origin pen heights) :
    heights.base.heldAdd heights.lift = .ok (heights.base + heights.lift) ∧
      heights.wall.heldHalf = .ok heights.wall.half ∧
      (heights.base + heights.lift).heldAdd heights.wall.half =
        .ok (heights.base + heights.lift + heights.wall.half) := by
  have hwall := h.wall
  have hbase := h.base
  have hlift := h.lift
  have hfloor : Held (heights.base + heights.lift).hundredths := by
    rw [Decimal.hundredths_add]
    unfold Held
    omega
  have hmiddle : Held (heights.base + heights.lift + heights.wall.half).hundredths := by
    have hnear : 2 * (heights.wall.half.hundredths * 2 - heights.wall.hundredths) ≤ 2 ∧
        2 * (heights.wall.hundredths - heights.wall.half.hundredths * 2) ≤ 2 :=
      Rounding.away_near _ (by decide)
    rw [Decimal.hundredths_add, Decimal.hundredths_add]
    unfold Held
    omega
  have hheld : Held heights.wall.hundredths := by
    unfold Held
    omega
  exact ⟨Decimal.heldAdd_eq_ok_iff.mpr ⟨hfloor, rfl⟩, Decimal.heldHalf_of_held hheld,
    Decimal.heldAdd_eq_ok_iff.mpr ⟨hmiddle, rfl⟩⟩

/-- In reach there is a block. -/
theorem blockBounds_eq_ok (h : InReach origin pen heights) (r : Rect) :
    blockBounds r origin pen heights =
      .ok (blockSize r pen heights, blockCenter r origin heights) := by
  obtain ⟨hfloor, hhalf, hy⟩ := h.center_y
  simp only [blockBounds, bind_eq_ok_iff]
  exact ⟨_, held_add_shift _ h.originX, _, held_add_shift _ h.originX,
    _, held_add_shift _ h.originY, _, held_add_shift _ h.originY,
    _, heldSpan_eq_ok _ _ h.penX _, _, heldSpan_eq_ok _ _ h.penY _,
    _, heldScale_eq_ok _ _ h.penX, _, heldScale_eq_ok _ _ h.penY,
    _, heldMiddle_eq_ok _ _ h.originX, _, hfloor, _, hhalf, _, hy,
    _, heldMiddle_eq_ok _ _ h.originY, rfl⟩

end Placement
end Floorplan
