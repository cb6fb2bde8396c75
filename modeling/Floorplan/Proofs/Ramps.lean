import Floorplan.Placement
import Floorplan.Proofs.Decimal
import Floorplan.Proofs.Heading
import Floorplan.Proofs.Rounding

/-!
# Floorplan.Proofs.Ramps

A ramp rises the way its arc points (`Placement.rampBounds_rises`). Which way that is depends on the
half degrees of the heading that are left below one turn (`Heading.quarter_eq`). A double holds them
as they are, because rounding does not see powers of two on both sides of a ratio, and what is left
is short. Half a turn more leads into the opposite quarter, and so to the other end of the footprint.
-/

namespace Floorplan

theorem Rounding.even_mul_mul (n d : Nat) {k : Nat} (hk : 0 < k) :
    even (n * k) (d * k) = even n d := by
  have htwice : 2 * (n % d * k) = 2 * (n % d) * k := (Nat.mul_assoc ..).symm
  unfold even
  rw [Nat.mul_div_mul_right n d hk, Nat.mul_mod_mul_right, htwice]
  simp only [Nat.mul_lt_mul_right hk]

namespace Binary

theorem log2_mul_twoTo {n : Nat} (hn : n ≠ 0) (k : Nat) : (n * twoTo k).log2 = n.log2 + k := by
  induction k with
  | zero => rw [show twoTo 0 = 1 from rfl, Nat.mul_one, Nat.add_zero]
  | succ k ih =>
    have hne : n * twoTo k ≠ 0 := Nat.mul_ne_zero hn (Nat.ne_of_gt (twoTo_pos k))
    have hdouble : n * twoTo (k + 1) = 2 * (n * twoTo k) := by
      rw [twoTo_add, show twoTo 1 = 2 from rfl, ← Nat.mul_assoc, Nat.mul_comm]
    rw [hdouble, Nat.log2_two_mul hne, ih, Nat.add_assoc]

namespace Format

variable (f : Format) {n d : Nat}

theorem exponentOf_mul_twoTo (hn : n ≠ 0) (hd : d ≠ 0) (k : Nat) :
    f.exponentOf (n * twoTo k) (d * twoTo k) = f.exponentOf n d := by
  have hlength : (((n * twoTo k).log2 : Nat) : Int) - ((d * twoTo k).log2 : Nat) =
      n.log2 - d.log2 := by
    rw [log2_mul_twoTo hn, log2_mul_twoTo hd]
    omega
  have hshort : ∀ x y z : Nat, n * twoTo k * x < d * twoTo k * y * z ↔ n * x < d * y * z := by
    intro x y z
    rw [Nat.mul_right_comm n, Nat.mul_right_comm d, Nat.mul_right_comm (d * y),
      Nat.mul_lt_mul_right (twoTo_pos k)]
  unfold exponentOf
  rw [hlength]
  simp only [hshort]

/-- Rounding does not see a power of two on both sides of a ratio. -/
theorem round_mul_twoTo (hn : n ≠ 0) (hd : d ≠ 0) (k : Nat) (negative : Bool) :
    f.round negative (n * twoTo k) (d * twoTo k) = f.round negative n d := by
  have hne : n * twoTo k ≠ 0 := Nat.mul_ne_zero hn (Nat.ne_of_gt (twoTo_pos k))
  have heven : ∀ x y : Nat, Rounding.even (n * twoTo k * x) (d * twoTo k * y) =
      Rounding.even (n * x) (d * y) := by
    intro x y
    rw [Nat.mul_right_comm n, Nat.mul_right_comm d]
    exact Rounding.even_mul_mul _ _ (twoTo_pos k)
  unfold round
  rw [if_neg hn, if_neg hne, exponentOf_mul_twoTo f hn hd]
  simp only [heven]

/-- A ratio over a power of two that is so many halves is rounded as these. -/
theorem round_eq_of_halves {x t : Nat} (hx : 2 * x = n * twoTo t) (hn : n ≠ 0) (negative : Bool) :
    f.round negative x (twoTo t) = f.round negative n 2 := by
  cases t with
  | zero =>
    have hdouble : n = x * twoTo 1 := by
      rw [Nat.mul_comm]
      exact (hx.trans (Nat.mul_one n)).symm
    have hne : x ≠ 0 := by
      rintro rfl
      exact hn (hdouble.trans (Nat.zero_mul _))
    rw [hdouble]
    exact (f.round_mul_twoTo hne Nat.one_ne_zero 1 negative).symm
  | succ s =>
    have hshort : x = n * twoTo s := by
      rw [twoTo_add, show twoTo 1 = 2 from rfl, ← Nat.mul_assoc] at hx
      omega
    rw [hshort, Nat.add_comm, twoTo_add]
    exact f.round_mul_twoTo hn (by decide) s negative

end Format
end Binary

namespace Heading

/-- A heading of exactly `k` half degrees, in as many turns of either sense as it may be. -/
def Counts (h : Heading) (k : Int) : Prop :=
  ∃ negative m e, h.degrees = .finite negative m e ∧
    2 * (Binary.magnitude m e).1 = k.natAbs * (Binary.magnitude m e).2 ∧
    (if negative then k ≤ 0 else 0 ≤ k)

variable {h : Heading} {n : Nat} {k : Int}

theorem IsHalves.counts (hn : h.IsHalves n) : h.Counts n := by
  obtain ⟨negative, m, e, hdegrees, hmagnitude, hnegative⟩ := hn
  refine ⟨negative, m, e, hdegrees, hmagnitude, ?_⟩
  split
  · next hs => exact Int.le_of_eq (congrArg Nat.cast (hnegative hs))
  · exact Int.natCast_nonneg n

/-- A ratio that is so many halves, of less than a turn, is held as it is. -/
theorem isHalves_round {x t : Nat} {negative : Bool} (hx : 2 * x = n * Binary.twoTo t)
    (hn : n < 720) (hnegative : negative = true → n = 0) :
    (⟨Binary.Format.double.round negative x (Binary.twoTo t)⟩ : Heading).IsHalves n := by
  by_cases hzero : n = 0
  · subst hzero
    rw [Nat.zero_mul] at hx
    obtain rfl : x = 0 := (Nat.mul_eq_zero.mp hx).resolve_left (by decide)
    exact ⟨negative, 0, _, rfl, by simp [Binary.magnitude], fun _ => rfl⟩
  · obtain rfl : negative = false := Bool.eq_false_iff.mpr (mt hnegative hzero)
    have hhalves := isHalves_ofHalves n
    have hrest : ((n : Int) % 720).toNat = n := by omega
    have hpositive : decide ((n : Int) < 0) = false := by simp
    unfold ofHalves at hhalves
    dsimp only at hhalves
    rw [hrest, hpositive, Bool.false_and] at hhalves
    rw [Binary.Format.double.round_eq_of_halves hx hzero]
    exact hhalves

/-- Whole turns are taken off without loss. -/
theorem isHalves_modulo (hk : h.Counts k) :
    (⟨h.degrees.modulo .double 360⟩ : Heading).IsHalves (k % 720).toNat := by
  obtain ⟨negative, m, e, hdegrees, hmagnitude, hsign⟩ := hk
  have hpos := Binary.magnitude_pos m e
  have hrest : 2 * ((Binary.magnitude m e).1 % (360 * (Binary.magnitude m e).2)) =
      k.natAbs % 720 * (Binary.magnitude m e).2 := by
    rw [← Nat.mul_mod_mul_left, hmagnitude, ← Nat.mul_assoc, Nat.mul_mod_mul_right]
  have hzero : (Binary.magnitude m e).1 % (360 * (Binary.magnitude m e).2) = 0 ↔
      k.natAbs % 720 = 0 := by
    constructor
    · intro h
      rw [h, Nat.mul_zero] at hrest
      exact (Nat.mul_eq_zero.mp hrest.symm).resolve_right (Nat.ne_of_gt hpos)
    · intro h
      rw [h, Nat.zero_mul] at hrest
      omega
  rw [hdegrees]
  unfold Binary.modulo
  dsimp only
  split
  · next hturn =>
    -- Below zero, and no whole number of turns: the rest is brought up by one turn.
    simp only [Bool.and_eq_true, bne_iff_ne, ne_eq, hzero] at hturn
    obtain ⟨rfl, hne⟩ := hturn
    rw [if_pos rfl] at hsign
    have hturned : (k % 720).toNat = 720 - k.natAbs % 720 := by omega
    apply isHalves_round
    · change _ = _ * (Binary.magnitude m e).2
      rw [hturned, Nat.sub_mul]
      omega
    · omega
    · exact nofun
  · next hturn =>
    simp only [Bool.and_eq_true, bne_iff_ne, ne_eq, hzero, not_and, Decidable.not_not] at hturn
    have hturned : (k % 720).toNat = k.natAbs % 720 := by
      split at hsign
      · next hs =>
        have hwhole := hturn hs
        omega
      · omega
    rw [hturned]
    exact isHalves_round hrest (Nat.mod_lt _ (by decide)) hturn

theorem below_iff (hn : h.IsHalves n) {bound : Nat} (hbound : 0 < bound) :
    h.degrees.below bound = true ↔ n < 2 * bound := by
  obtain ⟨negative, m, e, hdegrees, hmagnitude, hnegative⟩ := hn
  have hpos := Binary.magnitude_pos m e
  rw [hdegrees]
  unfold Binary.below
  dsimp only
  split
  · next hs =>
    rw [hnegative hs, decide_eq_true_iff]
    omega
  · have hdouble : 2 * (bound * (Binary.magnitude m e).2) =
        2 * bound * (Binary.magnitude m e).2 := (Nat.mul_assoc ..).symm
    rw [decide_eq_true_iff, ← Nat.mul_lt_mul_left (by decide : 0 < 2), hmagnitude, hdouble,
      Nat.mul_lt_mul_right hpos]

end Heading

/-! ### Quarters -/

namespace Quarter

/-- The quarter of half degrees, less than a turn of them. -/
def ofHalves (n : Nat) : Quarter :=
  if n < 90 then north
  else if n < 270 then east
  else if n < 450 then south
  else if n < 630 then west
  else north

def opposite : Quarter → Quarter
  | north => south
  | east => west
  | south => north
  | west => east

/-- The steps along x and z that lead into a quarter. -/
def direction : Quarter → Int × Int
  | north => (0, -1)
  | east => (1, 0)
  | south => (0, 1)
  | west => (-1, 0)

/-- The directions of half degrees, less than a turn of them: towards lower z from 315 degrees to 45,
towards higher x to 135, towards higher z to 225 and towards lower x to 315. The lower bound of a
quarter belongs to it. -/
inductive Points (n : Nat) : Int × Int → Prop where
  | north : 630 ≤ n ∨ n < 90 → Points n (0, -1)
  | east : 90 ≤ n → n < 270 → Points n (1, 0)
  | south : 270 ≤ n → n < 450 → Points n (0, 1)
  | west : 450 ≤ n → n < 630 → Points n (-1, 0)

theorem points_ofHalves (n : Nat) : Points n (ofHalves n).direction := by
  unfold ofHalves
  split
  · exact .north (.inr ‹_›)
  · split
    · exact .east (by omega) ‹_›
    · split
      · exact .south (by omega) ‹_›
      · split
        · exact .west (by omega) ‹_›
        · exact .north (.inl (by omega))

/-- Half a turn leads into the opposite quarter. -/
theorem ofHalves_turned {n : Nat} (h : n < 720) :
    ofHalves ((n + 360) % 720) = (ofHalves n).opposite := by
  grind [ofHalves, opposite]

end Quarter

namespace Heading

variable {h : Heading} {k : Int}

theorem quarter_eq (hk : h.Counts k) : h.quarter = .ofHalves (k % 720).toNat := by
  have hn := isHalves_modulo hk
  generalize (k % 720).toNat = n at hn ⊢
  obtain ⟨negative, m, e, hmodulo, -⟩ := id hn
  dsimp only at hmodulo
  have hbelow : ∀ bound : Nat, 0 < bound →
      (Binary.finite negative m e).below bound = decide (n < 2 * bound) := by
    intro bound hbound
    have hiff := below_iff hn hbound
    dsimp only at hiff
    rw [hmodulo] at hiff
    exact Bool.eq_iff_iff.mpr (hiff.trans decide_eq_true_iff.symm)
  unfold quarter
  rw [hmodulo]
  dsimp only
  rw [hbelow 45 (by decide), hbelow 135 (by decide), hbelow 225 (by decide),
    hbelow 315 (by decide)]
  simp only [decide_eq_true_eq]
  rfl

theorem counts_ofHalves (k : Int) : (ofHalves k).Counts (k % 720) := by
  have hcounts := (isHalves_ofHalves k).counts
  rw [Int.toNat_of_nonneg (Int.emod_nonneg k (by decide))] at hcounts
  exact hcounts

theorem quarter_ofHalves_turned (k : Int) :
    (ofHalves (k + 360)).quarter = (ofHalves k).quarter.opposite := by
  have hrest : ((k + 360) % 720 % 720).toNat = ((k % 720 % 720).toNat + 360) % 720 := by omega
  rw [quarter_eq (counts_ofHalves _), quarter_eq (counts_ofHalves _), hrest,
    Quarter.ofHalves_turned (by omega)]

end Heading

/-! ### Ramps -/

theorem Decimal.half_nonneg {x : Decimal} (h : 0 ≤ x) : 0 ≤ x.half.hundredths :=
  Rounding.away_nonneg h (by decide)

namespace Placement

/-- A ramp with its ends exchanged on the plan. -/
def RampBounds.turned (r : RampBounds) : RampBounds :=
  { r with base := { r.top with y := r.base.y }, top := { r.base with y := r.top.y } }

/-- A ramp lies about the middle of a footprint, rises in a direction and is as wide as the footprint
across it. -/
structure RampBounds.Rises (r : RampBounds) (footprint : Block) (rise : Decimal)
    (direction : Int × Int) : Prop where
  middleX : r.base.x + r.top.x = footprint.center.x + footprint.center.x
  middleZ : r.base.z + r.top.z = footprint.center.z + footprint.center.z
  rise : r.top.y - r.base.y = rise
  acrossX : direction.1 = 0 → r.top.x = r.base.x
  acrossZ : direction.2 = 0 → r.top.z = r.base.z
  ahead : 0 ≤ (if direction.1 = 0 then footprint.size.z else footprint.size.x) →
    0 ≤ direction.1 * (r.top.x - r.base.x).hundredths +
      direction.2 * (r.top.z - r.base.z).hundredths
  width : r.width = if direction.1 = 0 then footprint.size.x else footprint.size.z

variable (footprint : Block) (y rise : Decimal)

theorem rampBounds_opposite (quarter : Quarter) :
    rampBounds footprint quarter.opposite y rise =
      (rampBounds footprint quarter y rise).turned := by
  cases quarter <;> rfl

theorem rises_rampBounds (quarter : Quarter) :
    (rampBounds footprint quarter y rise).Rises footprint rise quarter.direction := by
  have hx := Decimal.half_nonneg (x := footprint.size.x)
  have hz := Decimal.half_nonneg (x := footprint.size.z)
  have hrise : y + rise - y = rise := Decimal.add_sub_cancel_left y rise
  have hup : (1 : Int) ≠ 0 := by decide
  have hdown : (-1 : Int) ≠ 0 := by decide
  cases quarter with
  | north =>
    refine ⟨rfl, Decimal.add_add_sub_cancel _ _, hrise, fun _ => rfl, (absurd · hdown), ?_, rfl⟩
    intro h
    have hhalf := hz h
    simp only [rampBounds, Quarter.direction, Decimal.hundredths_sub, Decimal.hundredths_add]
    omega
  | east =>
    refine ⟨Decimal.sub_add_add_cancel _ _, rfl, hrise, (absurd · hup), fun _ => rfl, ?_, rfl⟩
    intro h
    have hhalf := hx h
    simp only [rampBounds, Quarter.direction, Decimal.hundredths_sub, Decimal.hundredths_add]
    omega
  | south =>
    refine ⟨rfl, Decimal.sub_add_add_cancel _ _, hrise, fun _ => rfl, (absurd · hup), ?_, rfl⟩
    intro h
    have hhalf := hz h
    simp only [rampBounds, Quarter.direction, Decimal.hundredths_sub, Decimal.hundredths_add]
    omega
  | west =>
    refine ⟨Decimal.add_add_sub_cancel _ _, rfl, hrise, (absurd · hdown), fun _ => rfl, ?_, rfl⟩
    intro h
    have hhalf := hx h
    simp only [rampBounds, Quarter.direction, Decimal.hundredths_sub, Decimal.hundredths_add]
    omega

theorem toInt_add_halfTurn {start : Int16} (h : start.toInt + 180 ≤ 32767) :
    (start + 180).toInt = start.toInt + 180 := by
  have hlow := start.le_toInt
  rw [Int16.toInt_add, show (180 : Int16).toInt = 180 from rfl]
  exact Int.bmod_eq_of_le (by omega) (by omega)

/-- An arc that is turned by half a turn exchanges the ends of its ramp on the plan. The heading of an
arc is a whole number of half degrees. Whatever the heading, its ramp lies about the middle of the
footprint, rises in the direction of the heading's quarter and is as wide as the footprint across it;
and a heading of so many half degrees, any number of turns among them, has the direction that the
rest below one turn points in. -/
theorem rampBounds_rises :
    (∀ start sweep : Int16, start.toInt + 180 ≤ 32767 →
        rampBounds footprint (Heading.ofArc (start + 180) sweep).quarter y rise =
          (rampBounds footprint (Heading.ofArc start sweep).quarter y rise).turned) ∧
      (∀ start sweep : Int16,
        (Heading.ofArc start sweep).Counts ((2 * start.toInt + sweep.toInt + 360) % 720)) ∧
      ∀ h : Heading,
        (rampBounds footprint h.quarter y rise).Rises footprint rise h.quarter.direction ∧
          ∀ k, h.Counts k → Quarter.Points (k % 720).toNat h.quarter.direction := by
  refine ⟨?_, fun _ _ => Heading.counts_ofHalves _, ?_⟩
  · intro start sweep h
    have hhalves : 2 * (start + 180).toInt + sweep.toInt + 360 =
        2 * start.toInt + sweep.toInt + 360 + 360 := by
      rw [toInt_add_halfTurn h]
      omega
    unfold Heading.ofArc
    rw [hhalves, Heading.quarter_ofHalves_turned, rampBounds_opposite]
  · intro h
    refine ⟨rises_rampBounds footprint y rise h.quarter, ?_⟩
    intro k hk
    rw [Heading.quarter_eq hk]
    exact Quarter.points_ofHalves _

/-- The heading of 225 degrees is the first one to the west, and that of 45 the first one to the
east. -/
theorem rampBounds_rises_west :
    let footprint : Block :=
      ⟨⟨⟨401⟩, ⟨300⟩, ⟨200⟩⟩, ⟨⟨1000⟩, ⟨150⟩, ⟨500⟩⟩, .black, 0, .standard⟩
    let west := rampBounds footprint (Heading.ofArc 0 90).quarter ⟨100⟩ ⟨200⟩
    let east := rampBounds footprint (Heading.ofArc 180 90).quarter ⟨100⟩ ⟨200⟩
    ((0 : Int16).toInt + 180 ≤ 32767 ∧ east = west.turned) ∧
      (Heading.ofArc 0 90).Counts 450 ∧
      west = ⟨⟨⟨1201⟩, ⟨100⟩, ⟨500⟩⟩, ⟨⟨799⟩, ⟨300⟩, ⟨500⟩⟩, ⟨200⟩⟩ ∧
      west.Rises footprint ⟨200⟩ (-1, 0) ∧ Quarter.Points 450 (-1, 0) := by
  intro footprint west east
  obtain ⟨hturned, hcounts, hrises⟩ := rampBounds_rises footprint ⟨100⟩ ⟨200⟩
  have hhalves : (Heading.ofArc 0 90).Counts 450 := hcounts 0 90
  have hdirection : (Heading.ofArc 0 90).quarter.direction = (-1, 0) := by decide +kernel
  obtain ⟨hwest, hpoints⟩ := hrises (Heading.ofArc 0 90)
  have hpoint := hpoints 450 hhalves
  rw [hdirection] at hwest hpoint
  exact ⟨⟨by decide, hturned 0 90 (by decide)⟩, hhalves, by decide +kernel, hwest, hpoint⟩

end Placement
end Floorplan
