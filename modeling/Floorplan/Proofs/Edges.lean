import Mathlib.Algebra.Order.Field.Rat
import Mathlib.Tactic.Linarith
import Mathlib.Tactic.Ring
import Floorplan.Proofs.Placement
import Floorplan.Proofs.Rounding

/-!
# Floorplan.Proofs.Edges

The edges of a block are where its rectangle was drawn, to a hundredth and a quarter, wherever 64
bits are enough for a block (`Placement.edges_drawn`). Three quotients are rounded on the way, the
middle, the size and half the size, and each is half a hundredth off at most; that of the size counts
half. So the walls of rectangles that share an edge meet but for two hundredths.
-/

namespace Floorplan

/-- A quotient is off by a half at most. -/
theorem Rounding.abs_away_sub_le (n : Int) {d : Int} (hd : 0 < d) :
    |(away n d : ℚ) - n / d| ≤ 1 / 2 := by
  obtain ⟨hlow, hhigh⟩ := away_near n hd
  have hpos : (0 : ℚ) < d := by exact_mod_cast hd
  have hlow' : 2 * ((away n d : ℚ) * d - n) ≤ d := by exact_mod_cast hlow
  have hhigh' : 2 * ((n : ℚ) - away n d * d) ≤ d := by exact_mod_cast hhigh
  have hcancel : (n : ℚ) / d * d = n := div_mul_cancel₀ _ hpos.ne'
  rw [abs_le]
  constructor
  · apply le_of_mul_le_mul_right _ hpos
    linarith
  · apply le_of_mul_le_mul_right _ hpos
    linarith

theorem Decimal.abs_half_sub_le (x : Decimal) :
    |(x.half.hundredths : ℚ) - x.hundredths / 2| ≤ 1 / 2 := by
  have h := Rounding.abs_away_sub_le x.hundredths (d := 2) (by decide)
  exact_mod_cast h

theorem Decimal.max_le {x y bound : Decimal} (hx : x ≤ bound) (hy : y ≤ bound) :
    max x y ≤ bound := by
  change (if x ≤ y then y else x) ≤ bound
  split
  · exact hy
  · exact hx

/-! ### Rectangles that touch -/

/-- The stretches from `a` to `b` and from `c` to `d` have a point in common. -/
def Meet (a b c d : Int) : Prop := min a b ≤ max c d ∧ min c d ≤ max a b

/-- An end of the one stretch is an end of the other. -/
def ShareEnd (a b c d : Int) : Prop := a = c ∨ a = d ∨ b = c ∨ b = d

instance (a b c d : Int) : Decidable (Meet a b c d) := inferInstanceAs (Decidable (_ ∧ _))

instance (a b c d : Int) : Decidable (ShareEnd a b c d) :=
  inferInstanceAs (Decidable (_ ∨ _ ∨ _ ∨ _))

theorem ShareEnd.meet {a b c d : Int} (h : ShareEnd a b c d) : Meet a b c d := by
  unfold ShareEnd at h
  unfold Meet
  omega

/-- An edge of the one rectangle lies along an edge of the other, and they have a point in common. -/
def Rect.SharesEdge (r s : Rect) : Prop :=
  ShareEnd r.left.toInt r.right.toInt s.left.toInt s.right.toInt ∧
      Meet r.top.toInt r.bottom.toInt s.top.toInt s.bottom.toInt ∨
    ShareEnd r.top.toInt r.bottom.toInt s.top.toInt s.bottom.toInt ∧
      Meet r.left.toInt r.right.toInt s.left.toInt s.right.toInt

instance (r s : Rect) : Decidable (r.SharesEdge s) :=
  inferInstanceAs (Decidable (_ ∧ _ ∨ _ ∧ _))

theorem Rect.SharesEdge.meet {r s : Rect} (h : r.SharesEdge s) :
    Meet r.left.toInt r.right.toInt s.left.toInt s.right.toInt ∧
      Meet r.top.toInt r.bottom.toInt s.top.toInt s.bottom.toInt := by
  rcases h with ⟨hend, hmeet⟩ | ⟨hend, hmeet⟩
  · exact ⟨hend.meet, hmeet⟩
  · exact ⟨hmeet, hend.meet⟩

namespace Placement

/-! ### One axis -/

/-- Where an edge is drawn along an axis, in units of the world: half of what the pen leaves of the
extent away from the middle. -/
def drawnEdge (a b origin pen : Int) (side : ℚ) : ℚ :=
  (((a : ℚ) + b) / 2 + origin + side * ((|(b : ℚ) - a| - pen) / 2)) / 18

/-- The edges of something of this middle and size are within a hundredth and a quarter of where they
are drawn. -/
structure EdgesDrawn (center size : Decimal) (a b origin pen : Int) : Prop where
  low : |((center - size.half).hundredths : ℚ) - 100 * drawnEdge a b origin pen (-1)| ≤ 5 / 4
  high : |((center + size.half).hundredths : ℚ) - 100 * drawnEdge a b origin pen 1| ≤ 5 / 4

/-- How far the second of two walls begins behind the first, or the first behind the second. Walls
that overlap have a negative gap. -/
def gap (center size center' size' : Decimal) : Decimal :=
  max ((center' - size'.half) - (center + size.half)) ((center - size.half) - (center' + size'.half))

variable {a b c d pen : Int}

theorem span_of_le (h : pen ≤ |b - a|) : span a b pen = |b - a| - pen := by
  rw [Int.abs_eq_natAbs] at h ⊢
  unfold span
  omega

theorem span_nonneg (a b pen : Int) : 0 ≤ span a b pen := Int.le_max_right _ _

theorem scale_span_nonneg (a b pen : Int) : 0 ≤ scale (span a b pen) := by
  have hdividend : 0 ≤ span a b pen * 100 := Int.mul_nonneg (span_nonneg a b pen) (by decide)
  exact Rounding.away_nonneg hdividend (by decide)

theorem edgesDrawn (origin : Int) (h : pen ≤ |b - a|) :
    EdgesDrawn (scaleDoubled (a + b + 2 * origin)) (scale (span a b pen)) a b origin pen := by
  have hcenter : |((scaleDoubled (a + b + 2 * origin)).hundredths : ℚ) -
      ((a + b + 2 * origin) * 100 : Int) / (36 : Int)| ≤ 1 / 2 :=
    Rounding.abs_away_sub_le _ (by decide)
  have hsize : |((scale (span a b pen)).hundredths : ℚ) -
      (span a b pen * 100 : Int) / (18 : Int)| ≤ 1 / 2 :=
    Rounding.abs_away_sub_le _ (by decide)
  have hhalf := (scale (span a b pen)).abs_half_sub_le
  rw [span_of_le h] at *
  generalize scaleDoubled (a + b + 2 * origin) = center at *
  generalize scale (|b - a| - pen) = size at *
  push_cast at hcenter hsize
  rw [abs_le] at hcenter hsize hhalf
  constructor
  · rw [Decimal.hundredths_sub, Int.cast_sub, drawnEdge, abs_le]
    constructor <;> linarith
  · rw [Decimal.hundredths_add, Int.cast_add, drawnEdge, abs_le]
    constructor <;> linarith

/-- With a pen of no width the edges are drawn at the ends of the stretch. -/
theorem drawnEdge_zero (a b origin : Int) :
    drawnEdge a b origin 0 (-1) = ((min a b : Int) + origin) / 18 ∧
      drawnEdge a b origin 0 1 = ((max a b : Int) + origin) / 18 := by
  unfold drawnEdge
  rcases le_total a b with hle | hle
  · have hle' : (0 : ℚ) ≤ b - a := by
      rw [sub_nonneg]
      exact_mod_cast hle
    rw [abs_of_nonneg hle', min_eq_left hle, max_eq_right hle]
    push_cast
    constructor <;> ring
  · have hle' : (b : ℚ) - a ≤ 0 := by
      rw [sub_nonpos]
      exact_mod_cast hle
    rw [abs_of_nonpos hle', min_eq_right hle, max_eq_left hle]
    push_cast
    constructor <;> ring

/-- A wall that is drawn up to where another one begins reaches it but for two hundredths. -/
theorem sub_le_of_edgesDrawn {center size center' size' : Decimal} {origin : Int}
    (h : EdgesDrawn center size a b origin 0) (h' : EdgesDrawn center' size' c d origin 0)
    (hle : min c d ≤ max a b) :
    ((center' - size'.half) - (center + size.half)).hundredths ≤ 2 := by
  have hhigh := h.high
  have hlow := h'.low
  have hle' : ((min c d : Int) : ℚ) ≤ (max a b : Int) := by exact_mod_cast hle
  rw [(drawnEdge_zero a b origin).2, abs_le] at hhigh
  rw [(drawnEdge_zero c d origin).1, abs_le] at hlow
  have hrational : (((center' - size'.half) - (center + size.half)).hundredths : ℚ) ≤ 5 / 2 := by
    rw [Decimal.hundredths_sub, Int.cast_sub]
    linarith
  have hinteger : (((center' - size'.half) - (center + size.half)).hundredths : ℚ) < (3 : Int) := by
    push_cast
    linarith
  have hlt := Int.cast_lt.mp hinteger
  omega

theorem gap_le (origin : Int) (h : Meet a b c d) :
    gap (scaleDoubled (a + b + 2 * origin)) (scale (span a b 0))
      (scaleDoubled (c + d + 2 * origin)) (scale (span c d 0)) ≤ ⟨2⟩ := by
  have hfirst := edgesDrawn origin (abs_nonneg (b - a))
  have hsecond := edgesDrawn origin (abs_nonneg (d - c))
  have hbehind := sub_le_of_edgesDrawn hfirst hsecond h.2
  have hbefore := sub_le_of_edgesDrawn hsecond hfirst h.1
  exact Decimal.max_le hbehind hbefore

/-! ### Blocks -/

/-- In reach there is a block, and wherever there is one, its edges are where the rectangle is drawn,
on each axis on which the pen is no wider than the rectangle. No size is negative, whatever the pen.
So walls of rectangles that share an edge, drawn at one origin with a pen of no width, overlap on both
axes but for a gap of two hundredths at most. -/
theorem edges_drawn (r : Rect) (origin pen : Offset) (heights : Heights) :
    (InReach origin pen heights →
      ∃ size center, blockBounds r origin pen heights = .ok (size, center)) ∧
    ∀ size center, blockBounds r origin pen heights = .ok (size, center) →
      (pen.x ≤ |r.right.toInt - r.left.toInt| →
        EdgesDrawn center.x size.x r.left.toInt r.right.toInt origin.x pen.x) ∧
      (pen.y ≤ |r.bottom.toInt - r.top.toInt| →
        EdgesDrawn center.z size.z r.top.toInt r.bottom.toInt origin.y pen.y) ∧
      0 ≤ size.x ∧ 0 ≤ size.z ∧
      (pen = 0 → ∀ (s : Rect) (heights' : Heights) (size' center' : Vec3), r.SharesEdge s →
        blockBounds s origin 0 heights' = .ok (size', center') →
        gap center.x size.x center'.x size'.x ≤ ⟨2⟩ ∧
          gap center.z size.z center'.z size'.z ≤ ⟨2⟩) := by
  refine ⟨fun h => ⟨_, _, blockBounds_eq_ok h r⟩, ?_⟩
  intro size center hbounds
  obtain ⟨rfl, rfl⟩ := eq_of_blockBounds hbounds
  refine ⟨edgesDrawn origin.x, edgesDrawn origin.y, scale_span_nonneg _ _ _,
    scale_span_nonneg _ _ _, ?_⟩
  rintro rfl s heights' size' center' h hbounds'
  obtain ⟨rfl, rfl⟩ := eq_of_blockBounds hbounds'
  exact ⟨gap_le origin.x h.meet.1, gap_le origin.y h.meet.2⟩

/-- The low edge of a narrow wall that is off by more than a hundredth, and two walls that share an
edge and leave a gap of one. -/
theorem edges_drawn_gap :
    let r : Rect := ⟨0, -39, 36, -35⟩
    let s : Rect := ⟨18, -35, 36, -31⟩
    let heights : Heights := ⟨.ofInt 3, 0, 0⟩
    let center : Vec3 := ⟨⟨-206⟩, ⟨150⟩, ⟨100⟩⟩
    let center' : Vec3 := ⟨⟨-183⟩, ⟨150⟩, ⟨150⟩⟩
    let size : Vec3 := ⟨⟨17⟩, ⟨300⟩, ⟨194⟩⟩
    let full : Vec3 := ⟨⟨22⟩, ⟨300⟩, ⟨200⟩⟩
    let full' : Vec3 := ⟨⟨22⟩, ⟨300⟩, ⟨100⟩⟩
    (InReach 0 ⟨1, 1⟩ heights ∧ blockBounds r 0 ⟨1, 1⟩ heights = .ok (size, center) ∧
      center.x - size.x.half = ⟨-215⟩ ∧ EdgesDrawn center.x size.x (-39) (-35) 0 1 ∧
      0 ≤ size.x) ∧
    (blockBounds r 0 0 heights = .ok (full, center) ∧
      blockBounds s 0 0 heights = .ok (full', center') ∧ r.SharesEdge s ∧
      gap center.x full.x center'.x full'.x = ⟨1⟩ ∧
      gap center.x full.x center'.x full'.x ≤ ⟨2⟩) := by
  intro r s heights center center' size full full'
  have hreach : InReach 0 ⟨1, 1⟩ heights := by constructor <;> decide
  have hnarrow : blockBounds r 0 ⟨1, 1⟩ heights = .ok (size, center) := by decide
  have hfull : blockBounds r 0 0 heights = .ok (full, center) := by decide
  have hfull' : blockBounds s 0 0 heights = .ok (full', center') := by decide
  have hshares : r.SharesEdge s := by decide
  obtain ⟨hx, -, hsize, -⟩ := (edges_drawn r 0 ⟨1, 1⟩ heights).2 _ _ hnarrow
  obtain ⟨-, -, -, -, hgap⟩ := (edges_drawn r 0 0 heights).2 _ _ hfull
  exact ⟨⟨hreach, hnarrow, by decide, hx (by decide), hsize⟩, hfull, hfull', hshares, by decide,
    (hgap rfl s heights _ _ hshares hfull').1⟩

/-- A unit square so far out that the middle does not fit in hundredths. -/
theorem not_edges_drawn_far :
    let r : Rect := ⟨0, 0, 18, 18⟩
    let origin : Offset := ⟨50000000000000000, 0⟩
    let heights : Heights := ⟨.ofInt 3, 0, 0⟩
    Held origin.x ∧ 0 ≤ |r.right.toInt - r.left.toInt| ∧
      blockBounds r origin 0 heights = .error .multiply ∧
      ¬ ∃ size center, blockBounds r origin 0 heights = .ok (size, center) ∧
        EdgesDrawn center.x size.x r.left.toInt r.right.toInt origin.x 0 := by
  intro r origin heights
  have herror : blockBounds r origin 0 heights = .error .multiply := by decide
  refine ⟨by decide, by decide, herror, ?_⟩
  rintro ⟨size, center, hbounds, -⟩
  rw [herror] at hbounds
  cases hbounds

end Placement
end Floorplan
