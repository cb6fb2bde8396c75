import Mathlib.Algebra.Order.Field.Rat
import Mathlib.Algebra.Order.Ring.Abs
import Mathlib.Tactic.Linarith
import Mathlib.Tactic.Ring
import Floorplan.Placement
import Floorplan.Proofs.Decimal
import Floorplan.Proofs.Literals
import Floorplan.Proofs.Reading
import Floorplan.Proofs.Rounding

/-!
# Floorplan.Proofs.Ratio

Which integer the quotient of two integers is rounded to, whatever their signs. A nearest one, and of
two nearest ones the one farther from zero (`Rounding.Nearest`): there is just one such integer, and
it is `away` (`Rounding.nearest_iff`). In 64 bits it is computed by truncation, which gives the same
integer or nothing (`Rounding.divide_eq_ok_iff`). A common factor of the two changes nothing about
what is nearest, so a ratio is rounded as the rational number that it is, where it is answered at all
(`Decimal.ratio_nearest`).
-/

namespace Floorplan
namespace Rounding

/-- `q` is a nearest integer to `n / d`. If there is another one, as far off on the other side, then
`q` is the larger of the two in magnitude. -/
structure Nearest (q n d : Int) : Prop where
  near : |q * d - n| * 2 ≤ |d|
  tie : |q * d - n| * 2 = |d| →
    ∃ k, |k| < |q| ∧ ∀ j, |j * d - n| * 2 = |d| ↔ j = q ∨ j = k

/-! ### Signs and factors -/

theorem away_neg_neg (n d : Int) : away (-n) (-d) = away n d := by
  unfold away
  rw [Int.sign_neg, Int.sign_neg, Int.natAbs_neg, Int.natAbs_neg, Int.neg_mul_neg]

namespace Nearest

variable {q r n d : Int}

/-- How far off an integer is grows with a common factor. -/
theorem distance_mul (k j n d : Int) : |j * (k * d) - k * n| * 2 = |k| * (|j * d - n| * 2) := by
  rw [← mul_assoc |k|, ← abs_mul, mul_sub, mul_left_comm]

theorem mul {k : Int} (hk : k ≠ 0) (h : Nearest q n d) : Nearest q (k * n) (k * d) where
  near := by
    rw [distance_mul, abs_mul]
    exact mul_le_mul_of_nonneg_left h.near (abs_nonneg k)
  tie heq := by
    have hcancel : ∀ j, |j * (k * d) - k * n| * 2 = |k * d| ↔ |j * d - n| * 2 = |d| := by
      intro j
      rw [distance_mul, abs_mul]
      exact mul_right_inj' (abs_ne_zero.mpr hk)
    obtain ⟨l, hl, hboth⟩ := h.tie ((hcancel q).mp heq)
    exact ⟨l, hl, fun j => (hcancel j).trans (hboth j)⟩

/-- On the other side of zero all is the same. -/
theorem neg (h : Nearest q n d) : Nearest (-q) (-n) d := by
  have hdistance : ∀ j, |-j * d - -n| = |j * d - n| := by
    intro j
    rw [← abs_neg]
    congr 1
    ring
  constructor
  · rw [hdistance]
    exact h.near
  · intro heq
    rw [hdistance] at heq
    obtain ⟨k, hk, hboth⟩ := h.tie heq
    refine ⟨-k, by rwa [abs_neg, abs_neg], fun j => ?_⟩
    have hj := hboth (-j)
    rw [← hdistance, neg_neg] at hj
    rw [hj, neg_eq_iff_eq_neg, neg_eq_iff_eq_neg]

/-- Two nearest integers are neighbours and both a half off, so each would be the larger one. -/
theorem eq (hd : d ≠ 0) (hq : Nearest q n d) (hr : Nearest r n d) : q = r := by
  by_contra hne
  have hpos : 0 < |d| := abs_pos.mpr hd
  have hapart : |d| ≤ |q * d - n| + |r * d - n| := calc
    |d| ≤ |q - r| * |d| :=
      le_mul_of_one_le_left hpos.le (Int.one_le_abs (sub_ne_zero.mpr hne))
    _ = |(q * d - n) - (r * d - n)| := by
      rw [← abs_mul]
      congr 1
      ring
    _ ≤ |q * d - n| + |r * d - n| := abs_sub _ _
  have hqnear := hq.near
  have hrnear := hr.near
  have hqtie : |q * d - n| * 2 = |d| := by omega
  have hrtie : |r * d - n| * 2 = |d| := by omega
  obtain ⟨k, hk, hkboth⟩ := hq.tie hqtie
  obtain ⟨l, hl, hlboth⟩ := hr.tie hrtie
  obtain rfl := ((hkboth r).mp hrtie).resolve_left (Ne.symm hne)
  obtain rfl := ((hlboth q).mp hqtie).resolve_left hne
  exact lt_asymm hk hl

end Nearest

theorem nearest_natCast (n : Nat) {d : Nat} (hd : 0 < d) : Nearest (away n d) n d := by
  obtain ⟨hlow, hhigh⟩ := away_natCast_bounds n hd
  have hdabs : |(d : Int)| = d := abs_of_nonneg (Int.natCast_nonneg d)
  generalize away n d = q at hlow hhigh
  constructor
  · rw [hdabs, ← Int.natCast_natAbs]
    omega
  · intro htie
    have hhalf : 2 * (q * d) = 2 * n + d := by
      rw [hdabs, ← Int.natCast_natAbs] at htie
      omega
    have hq : 0 < q := by
      apply Int.pos_of_mul_pos_left (b := d)
      · omega
      · omega
    refine ⟨q - 1, ?_, fun j => ?_⟩
    · rw [abs_of_nonneg (by omega), abs_of_pos hq]
      omega
    · have hbelow : (q - 1) * d = q * d - d := by ring
      have hcancel : ∀ k : Int, j * (d : Int) = k * d ↔ j = k :=
        fun k => mul_left_inj' (by omega)
      rw [← hcancel, ← hcancel, hbelow, hdabs, ← Int.natCast_natAbs]
      omega

/-- The rounded quotient is nearest, whatever the signs of the two. -/
theorem nearest_away (n : Int) {d : Int} (hd : d ≠ 0) : Nearest (away n d) n d := by
  have hpositive : ∀ (n : Int) {d : Nat}, 0 < d → Nearest (away n d) n d := by
    intro n d hd
    obtain ⟨m, rfl | rfl⟩ := Int.eq_nat_or_neg n
    · exact nearest_natCast m hd
    · rw [away_neg]
      exact (nearest_natCast m hd).neg
  obtain ⟨e, rfl | rfl⟩ := Int.eq_nat_or_neg d
  · exact hpositive n (by omega)
  · have h := (hpositive (-n) (d := e) (by omega)).mul (k := -1) (by decide)
    rwa [neg_one_mul, neg_one_mul, neg_neg, ← away_neg_neg, neg_neg] at h

theorem nearest_iff {q n d : Int} (hd : d ≠ 0) : Nearest q n d ↔ q = away n d := by
  constructor
  · exact fun h => h.eq hd (nearest_away n hd)
  · rintro rfl
    exact nearest_away n hd

/-! ### What follows -/

theorem away_mul_mul {k d : Int} (n : Int) (hk : k ≠ 0) (hd : d ≠ 0) :
    away (k * n) (k * d) = away n d :=
  (((nearest_away n hd).mul hk).eq (mul_ne_zero hk hd) (nearest_away _ (mul_ne_zero hk hd))).symm

theorem away_mono {m n d : Int} (hd : 0 < d) (h : m ≤ n) : away m d ≤ away n d := by
  -- were it the other way round, each would be half off, and the two quotients the same
  by_contra hlt
  obtain ⟨hm, -⟩ := away_near m hd
  obtain ⟨-, hn⟩ := away_near n hd
  have hstep : (away n d + 1) * d ≤ away m d * d :=
    Int.mul_le_mul_of_nonneg_right (by omega) hd.le
  rw [Int.add_mul] at hstep
  have heq : m = n := by omega
  rw [heq] at hlt
  exact hlt le_rfl

/-! ### By truncation -/

theorem away_neg_right (n d : Int) : away n (-d) = -away n d := by
  rw [← away_neg_neg, neg_neg, away_neg]

theorem away_natCast_eq_div (n d : Nat) :
    away n d =
      if d ≤ 2 * (n % d) then ((n / d : Nat) : Int) + (n : Int).sign * (d : Int).sign
      else (n / d : Nat) := by
  have hparts := Nat.div_add_mod' n d
  rcases Nat.eq_zero_or_pos d with rfl | hd
  · simp [away]
  · have hrest := Nat.mod_lt n hd
    split
    · next hhalf =>
      have hn : 0 < n := by
        by_contra hzero
        simp [Nat.eq_zero_of_not_pos hzero] at hhalf
        omega
      rw [Int.sign_natCast_of_ne_zero hn.ne', Int.sign_natCast_of_ne_zero hd.ne']
      apply away_natCast_eq (q := n / d + 1)
      · rw [Nat.add_mul]
        omega
      · rw [Nat.add_mul]
        omega
    · apply away_natCast_eq <;> omega

/-- The quotient by truncation, and where the remainder is half of the divisor or more, the next one
away from zero. -/
theorem away_eq_tdiv (n d : Int) :
    away n d =
      if d.natAbs ≤ 2 * (n.tmod d).natAbs then n.tdiv d + n.sign * d.sign else n.tdiv d := by
  have hdivisor : ∀ (m : Nat) (d : Int), away m d =
      if d.natAbs ≤ 2 * ((m : Int).tmod d).natAbs then (m : Int).tdiv d + (m : Int).sign * d.sign
      else (m : Int).tdiv d := by
    intro m d
    obtain ⟨e, rfl | rfl⟩ := Int.eq_nat_or_neg d
    · exact away_natCast_eq_div m e
    · rw [away_neg_right, Int.tdiv_neg, Int.tmod_neg, Int.natAbs_neg, Int.sign_neg, mul_neg,
        ← neg_add, ← neg_ite]
      exact congrArg Neg.neg (away_natCast_eq_div m e)
  obtain ⟨m, rfl | rfl⟩ := Int.eq_nat_or_neg n
  · exact hdivisor m d
  · rw [away_neg, Int.neg_tdiv, Int.neg_tmod, Int.natAbs_neg, Int.sign_neg, neg_mul, ← neg_add,
      ← neg_ite]
    exact congrArg Neg.neg (hdivisor m d)

end Rounding

namespace Decimal

theorem ofRatio_mul_mul {k d : Int} (n : Int) (hk : k ≠ 0) (hd : d ≠ 0) :
    ofRatio (k * n) (k * d) = ofRatio n d := by
  unfold ofRatio
  rw [mul_assoc, Rounding.away_mul_mul _ hk hd]

/-- Ratios that are the same rational number are rounded to the same decimal. -/
theorem ofRatio_congr {n n' d d' : Int} (hd : d ≠ 0) (hd' : d' ≠ 0)
    (h : (n : ℚ) / d = n' / d') : ofRatio n d = ofRatio n' d' := by
  have hcross : n * d' = n' * d := by
    rw [div_eq_div_iff (Int.cast_ne_zero.mpr hd) (Int.cast_ne_zero.mpr hd')] at h
    exact_mod_cast h
  rw [← ofRatio_mul_mul n hd' hd, mul_comm d' n, hcross, mul_comm n' d, mul_comm d' d,
    ofRatio_mul_mul n' hd hd']

theorem half_eq_ofRatio (x : Decimal) : x.half = ofRatio x.hundredths 200 := by
  have h := Rounding.away_mul_mul (k := 100) (d := 2) x.hundredths (by decide) (by decide)
  rw [half, ofRatio, ← h, mul_comm]
  rfl

end Decimal

/-! ### In 64 bits -/

theorem heldAbs_eq_ok_iff {n m : Int} : heldAbs n = .ok m ↔ n.natAbs < 2 ^ 63 ∧ n.natAbs = m := by
  rw [heldAbs, held_eq_ok_iff]
  unfold Held
  omega

namespace Rounding

variable {n d q : Int}

theorem natAbs_tdiv_le_half (hd : d.natAbs ≠ 1) : (n.tdiv d).natAbs ≤ n.natAbs / 2 := by
  have hquotient : (n.tdiv d).natAbs = n.natAbs / d.natAbs := Int.natAbs_tdiv n d
  rw [hquotient]
  rcases Nat.eq_zero_or_pos d.natAbs with hzero | hpos
  · rw [hzero, Nat.div_zero]
    exact Nat.zero_le _
  · exact Nat.div_le_div_left (by omega) (by decide)

/-- By one there is no remainder, and by more the quotient is half of the dividend at most. So there
is room for the next one. -/
theorem held_away (hn : Held n) (hquotient : Held (n.tdiv d)) : Held (away n d) := by
  rw [away_eq_tdiv]
  split
  · next hhalf =>
    have hsign : (n.sign * d.sign).natAbs ≤ 1 := by
      rw [Int.natAbs_mul, Int.natAbs_sign, Int.natAbs_sign]
      split <;> split <;> decide
    have hone : d.natAbs ≠ 1 := by
      intro hone
      rw [Int.natAbs_tmod, hone, Nat.mod_one] at hhalf
      omega
    have hle := natAbs_tdiv_le_half (n := n) hone
    unfold Held at *
    omega
  · exact hquotient

/-- What is answered is the rounded quotient, and nothing is answered only where the two quotients,
the divisor or the doubled remainder do not fit. -/
theorem divide_eq_ok_iff :
    divide n d = .ok q ↔ Held (n.tdiv d) ∧ d.natAbs < 2 ^ 63 ∧ (n.tmod d).natAbs < 2 ^ 62 ∧
      Held (away n d) ∧ away n d = q := by
  have hlast (hquotient : Held (n.tdiv d)) :
      (if (d.natAbs : Int) ≤ 2 * (n.tmod d).natAbs then held .add (n.tdiv d + n.sign * d.sign)
        else return n.tdiv d) = .ok q ↔ Held (away n d) ∧ away n d = q := by
    rw [away_eq_tdiv]
    split
    · rw [if_pos (by omega), held_eq_ok_iff]
    · rw [if_neg (by omega), and_iff_right hquotient]
      exact ⟨Except.ok.inj, congrArg Except.ok⟩
  simp only [divide, bind_eq_ok_iff, heldAbs_eq_ok_iff, held_eq_ok_iff]
  constructor
  · rintro ⟨_, ⟨hquotient, rfl⟩, _, ⟨-, rfl⟩, _, ⟨htwice, rfl⟩, _, ⟨hd, rfl⟩, h⟩
    refine ⟨hquotient, hd, ?_, (hlast hquotient).mp h⟩
    unfold Held at htwice
    omega
  · rintro ⟨hquotient, hd, hremainder, h⟩
    have htwice : Held (2 * ((n.tmod d).natAbs : Int)) := by
      unfold Held
      omega
    exact ⟨_, ⟨hquotient, rfl⟩, _, ⟨by omega, rfl⟩, _, ⟨htwice, rfl⟩, _, ⟨hd, rfl⟩,
      (hlast hquotient).mpr h⟩

end Rounding

namespace Decimal

variable {n d : Int} {x : Decimal}

/-- All that a ratio is computed from fits 64 bits: the numerator in hundredths, the denominator
without its sign, and the remainder doubled. -/
structure RatioHeld (n d : Int) : Prop where
  numerator : Held (100 * n)
  denominator : d.natAbs < 2 ^ 63
  remainder : ((100 * n).tmod d).natAbs < 2 ^ 62

namespace RatioHeld

/-- A hundredfold is not the least integer of 64 bits, so a division by minus one fits too. -/
theorem quotient (h : RatioHeld n d) : Held ((100 * n).tdiv d) := by
  have hle : ((100 * n).tdiv d).natAbs ≤ (100 * n).natAbs := Int.natAbs_tdiv_le_natAbs _ d
  have hn := h.numerator
  unfold Held at *
  omega

theorem of_le (hn : n.natAbs ≤ 92233720368547758) (hd : d ≠ 0) (hd' : d.natAbs ≤ 2 ^ 62) :
    RatioHeld n d where
  numerator := by
    unfold Held
    omega
  denominator := by omega
  remainder := by
    have hlt : (100 * n).natAbs % d.natAbs < d.natAbs := Nat.mod_lt _ (by omega)
    rw [Int.natAbs_tmod]
    omega

theorem neg (h : RatioHeld n d) : RatioHeld (-n) d where
  numerator := by
    have hn := h.numerator
    unfold Held at *
    omega
  denominator := h.denominator
  remainder := by
    rw [mul_neg, Int.neg_tmod, Int.natAbs_neg]
    exact h.remainder

/-- Without a common factor all is smaller. -/
theorem of_mul {k : Int} (hk : k ≠ 0) (h : RatioHeld (k * n) (k * d)) : RatioHeld n d := by
  have hpos : 0 < k.natAbs := Int.natAbs_pos.mpr hk
  have hle (m : Int) : m.natAbs ≤ (k * m).natAbs := by
    rw [Int.natAbs_mul]
    exact Nat.le_mul_of_pos_left _ hpos
  have hnumerator := h.numerator
  have hremainder := h.remainder
  constructor
  · have hn := hle n
    unfold Held at *
    omega
  · exact Nat.lt_of_le_of_lt (hle d) h.denominator
  · rw [mul_left_comm, Int.natAbs_tmod, Int.natAbs_mul, Int.natAbs_mul k d, Nat.mul_mod_mul_left,
      ← Int.natAbs_tmod] at hremainder
    exact Nat.lt_of_le_of_lt (Nat.le_mul_of_pos_left _ hpos) hremainder

end RatioHeld

theorem heldRatio_eq_ok_iff : heldRatio n d = .ok x ↔ RatioHeld n d ∧ ofRatio n d = x := by
  have hround : ofRatio n d = ⟨Rounding.away (100 * n) d⟩ := by rw [ofRatio, mul_comm]
  simp only [heldRatio, bind_eq_ok_iff, held_eq_ok_iff, Rounding.divide_eq_ok_iff, hround, mul_comm n]
  constructor
  · rintro ⟨_, ⟨hn, rfl⟩, _, ⟨-, hd, hremainder, -, rfl⟩, hx⟩
    cases hx
    exact ⟨⟨hn, hd, hremainder⟩, rfl⟩
  · rintro ⟨h, rfl⟩
    have hheld := Rounding.held_away h.numerator h.quotient
    exact ⟨_, ⟨h.numerator, rfl⟩, _, ⟨h.quotient, h.denominator, h.remainder, hheld, rfl⟩, rfl⟩

theorem heldRatio_of_le (hn : n.natAbs ≤ 92233720368547758) (hd : d ≠ 0)
    (hd' : d.natAbs ≤ 2 ^ 62) : heldRatio n d = .ok (ofRatio n d) :=
  heldRatio_eq_ok_iff.mpr ⟨.of_le hn hd hd', rfl⟩

theorem half_eq_of_heldHalf {y : Decimal} (h : x.heldHalf = .ok y) : x.half = y := by
  obtain ⟨q, hq, hy⟩ := bind_eq_ok h
  obtain ⟨-, -, -, -, rfl⟩ := Rounding.divide_eq_ok_iff.mp hq
  cases hy
  rfl

theorem heldHalf_of_held (h : Held x.hundredths) : x.heldHalf = .ok x.half := by
  have hle : (x.hundredths.tdiv 2).natAbs ≤ x.hundredths.natAbs / 2 :=
    Rounding.natAbs_tdiv_le_half (by decide)
  have hquotient : Held (x.hundredths.tdiv 2) := by
    unfold Held at *
    omega
  have hremainder : (x.hundredths.tmod 2).natAbs < 2 ^ 62 := by
    rw [Int.natAbs_tmod]
    exact Nat.lt_trans (Nat.mod_lt _ (by decide)) (by decide)
  have hheld := Rounding.held_away h hquotient
  rw [heldHalf, Rounding.divide_eq_ok_iff.mpr ⟨hquotient, by decide, hremainder, hheld, rfl⟩]
  rfl

theorem heldAdd_eq_ok_iff {y z : Decimal} :
    x.heldAdd y = .ok z ↔ Held (x + y).hundredths ∧ x + y = z := by
  simp only [heldAdd, bind_eq_ok_iff, held_eq_ok_iff]
  constructor
  · rintro ⟨_, ⟨h, rfl⟩, hz⟩
    cases hz
    exact ⟨h, rfl⟩
  · rintro ⟨h, rfl⟩
    exact ⟨_, ⟨h, rfl⟩, rfl⟩

theorem ratio_eq_ok_iff (hd : d ≠ 0) : ratio n d = .ok x ↔ RatioHeld n d ∧ ofRatio n d = x := by
  rw [ratio, if_neg hd, ← heldRatio_eq_ok_iff]
  cases heldRatio n d <;> simp [Except.mapError]

theorem nearest_ofRatio_iff (n : Int) (hd : d ≠ 0) :
    Rounding.Nearest x.hundredths (100 * n) d ↔ ofRatio n d = x := by
  rw [Rounding.nearest_iff hd, mul_comm, eq_comm]
  exact hundredths_injective.eq_iff

theorem ofRatio_neg (n d : Int) : ofRatio (-n) d = -ofRatio n d := by
  unfold ofRatio
  rw [neg_mul, Rounding.away_neg]
  rfl

/-- A ratio is answered where all that it is computed from fits 64 bits, and it is the nearest
hundredth, of two nearest ones the one farther from zero. So only the rational number counts that it
is, and a coordinate that is given doubled is scaled as it would be by itself. A ratio with the other
sign is rounded to the negative, one that is no less to no less, and half of a decimal is its
hundredths over 200. -/
theorem ratio_nearest (n : Int) {d : Int} (hd : d ≠ 0) :
    (∀ x, ratio n d = .ok x ↔ RatioHeld n d ∧ Rounding.Nearest x.hundredths (100 * n) d) ∧
      (n.natAbs ≤ 92233720368547758 → d.natAbs ≤ 2 ^ 62 → ∃ x, ratio n d = .ok x) ∧
      (∀ x, ratio n d = .ok x →
        (∀ (n' d' : Int) (y : Decimal), d' ≠ 0 → (n : ℚ) / d = n' / d' → ratio n' d' = .ok y →
          y = x) ∧
        ratio (-n) d = .ok (-x) ∧
        (0 < d → ∀ (m : Int) (y : Decimal), n ≤ m → ratio m d = .ok y → x ≤ y)) ∧
      (∀ (k : Int) (x : Decimal), k ≠ 0 → ratio (k * n) (k * d) = .ok x → ratio n d = .ok x) ∧
      (∀ (raw : Int) (x : Decimal),
        Placement.heldScaleDoubled (2 * raw) = .ok x → Placement.heldScale raw = .ok x) ∧
      ∀ x : Decimal, Held x.hundredths →
        x.heldHalf = .ok x.half ∧ ∀ y, ratio x.hundredths 200 = .ok y → y = x.half := by
  refine ⟨?_, ?_, ?_, ?_, ?_, ?_⟩
  · intro x
    rw [ratio_eq_ok_iff hd, nearest_ofRatio_iff n hd]
  · exact fun hn hd' => ⟨ofRatio n d, (ratio_eq_ok_iff hd).mpr ⟨.of_le hn hd hd', rfl⟩⟩
  · intro x h
    obtain ⟨hheld, rfl⟩ := (ratio_eq_ok_iff hd).mp h
    refine ⟨?_, ?_, ?_⟩
    · intro n' d' y hd' hrational hy
      obtain ⟨-, rfl⟩ := (ratio_eq_ok_iff hd').mp hy
      exact (ofRatio_congr hd hd' hrational).symm
    · exact (ratio_eq_ok_iff hd).mpr ⟨hheld.neg, ofRatio_neg n d⟩
    · intro hpos m y hm hy
      obtain ⟨-, rfl⟩ := (ratio_eq_ok_iff hd).mp hy
      exact Rounding.away_mono hpos (by omega)
  · intro k x hk h
    obtain ⟨hheld, rfl⟩ := (ratio_eq_ok_iff (mul_ne_zero hk hd)).mp h
    exact (ratio_eq_ok_iff hd).mpr ⟨hheld.of_mul hk, (ofRatio_mul_mul n hk hd).symm⟩
  · intro raw x h
    obtain ⟨hheld, rfl⟩ := heldRatio_eq_ok_iff.mp h
    have htwo : (2 : Int) ≠ 0 := by decide
    exact heldRatio_eq_ok_iff.mpr
      ⟨.of_mul htwo hheld, (ofRatio_mul_mul raw htwo (by decide)).symm⟩
  · intro x hx
    refine ⟨heldHalf_of_held hx, fun y hy => ?_⟩
    obtain ⟨-, rfl⟩ := (ratio_eq_ok_iff (by decide)).mp hy
    exact (half_eq_ofRatio x).symm

/-- A half of a hundredth below zero, which two negative numbers and a common factor do not change,
nor a divisor that has the sign. -/
theorem ratio_nearest_tie :
    (200 : Int) ≠ 0 ∧ ratio (-1) 200 = .ok ⟨-1⟩ ∧
      (|-1 * 200 - 100 * -1| * 2 = |(200 : Int)| ∧
        ∃ k : Int, |k| < |-1| ∧ ∀ j : Int, |j * 200 - 100 * -1| * 2 = |200| ↔ j = -1 ∨ j = k) ∧
      ((-200 : Int) ≠ 0 ∧ ((-1 : Int) : ℚ) / (200 : Int) = (1 : Int) / (-200 : Int) ∧
        ratio 1 (-200) = .ok (half ⟨-1⟩) ∧ half ⟨-1⟩ = ⟨-1⟩) ∧
      (0 < (200 : Int) ∧ (-1 : Int) ≤ 1 ∧ ratio 1 200 = .ok ⟨1⟩ ∧ (⟨-1⟩ : Decimal) ≤ ⟨1⟩) ∧
      ((-3 : Int) ≠ 0 ∧ ratio (-3 * -1) (-3 * 200) = .ok ⟨-1⟩ ∧ ratio (-1) 200 = .ok ⟨-1⟩) ∧
      (Placement.heldScaleDoubled (2 * 9) = .ok ⟨50⟩ ∧ Placement.heldScale 9 = .ok ⟨50⟩) ∧
      Held (-1) ∧ heldHalf ⟨-1⟩ = .ok (half ⟨-1⟩) := by
  have hd : (200 : Int) ≠ 0 := by decide
  obtain ⟨hnearest, -, hlaws, hmul, hscale, hhalf⟩ := ratio_nearest (-1) hd
  have hratio : ratio (-1) 200 = .ok ⟨-1⟩ := by decide
  obtain ⟨hcongr, -, hmono⟩ := hlaws _ hratio
  have htie : |-1 * 200 - 100 * -1| * 2 = |(200 : Int)| := by decide
  have hrational : ((-1 : Int) : ℚ) / (200 : Int) = (1 : Int) / (-200 : Int) := by norm_num
  have hsigned : ratio 1 (-200) = .ok (half ⟨-1⟩) := by decide
  have hother : ratio 1 200 = .ok ⟨1⟩ := by decide
  have hthrice : ratio (-3 * -1) (-3 * 200) = .ok ⟨-1⟩ := by decide
  have hdoubled : Placement.heldScaleDoubled (2 * 9) = .ok ⟨50⟩ := by decide
  have hheld : Held (-1) := by decide
  exact ⟨hd, hratio, ⟨htie, ((hnearest _).mp hratio).2.tie htie⟩,
    ⟨by decide, hrational, hsigned, hcongr 1 (-200) _ (by decide) hrational hsigned⟩,
    ⟨by decide, by decide, hother, hmono (by decide) 1 _ (by decide) hother⟩,
    ⟨by decide, hthrice, hmul (-3) _ (by decide) hthrice⟩, ⟨hdoubled, hscale 9 _ hdoubled⟩,
    hheld, (hhalf ⟨-1⟩ hheld).1⟩

/-- A third whose numerator does not fit in hundredths. The nearest hundredth to it is 33. -/
theorem not_ratio_nearest_far :
    let n : Int := 1000000000000000000
    let d : Int := 3000000000000000000
    Held n ∧ Held d ∧ d ≠ 0 ∧ Rounding.Nearest 33 (100 * n) d ∧
      ratio n d = .error (.overflow .multiply) ∧
      ¬ ∃ x, ratio n d = .ok x ∧ Rounding.Nearest x.hundredths (100 * n) d := by
  intro n d
  have hd : d ≠ 0 := by decide
  have herror : ratio n d = .error (.overflow .multiply) := by decide
  refine ⟨by decide, by decide, hd, (Rounding.nearest_iff hd).mpr (by decide), herror, ?_⟩
  rintro ⟨x, hx, -⟩
  rw [herror] at hx
  cases hx

end Decimal
end Floorplan
