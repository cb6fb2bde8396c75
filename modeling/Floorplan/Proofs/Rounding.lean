import Floorplan.Decimal

/-!
# Floorplan.Proofs.Rounding

The quotient rounded away from zero is a nearest one, and where there is no tie the only one. A tie
is sent the other way on the other side of zero, so only what is no tie moves with its dividend.
-/

namespace Floorplan
namespace Rounding

theorem away_neg (n d : Int) : away (-n) d = -away n d := by
  unfold away
  rw [Int.sign_neg, Int.natAbs_neg, Int.neg_mul, Int.neg_mul]

theorem away_natCast (n d : Nat) : away n d = ((2 * n + d) / (2 * d) : Nat) := by
  unfold away
  rw [Int.natAbs_natCast, Int.natAbs_natCast]
  by_cases hd : d = 0
  · subst hd
    simp
  · rw [Int.sign_eq_one_of_pos (by omega : (0 : Int) < d)]
    by_cases hn : n = 0
    · subst hn
      rw [Nat.mul_zero, Nat.zero_add, Nat.div_eq_of_lt (by omega)]
      simp
    · rw [Int.sign_eq_one_of_pos (by omega : (0 : Int) < n)]
      simp

theorem away_nonneg {n d : Int} (hn : 0 ≤ n) (hd : 0 ≤ d) : 0 ≤ away n d := by
  obtain ⟨m, rfl⟩ := Int.eq_ofNat_of_zero_le hn
  obtain ⟨e, rfl⟩ := Int.eq_ofNat_of_zero_le hd
  rw [away_natCast]
  exact Int.natCast_nonneg _

/-- A quotient of natural numbers is nearest, and of two nearest ones the larger. -/
theorem away_natCast_bounds (n : Nat) {d : Nat} (hd : 0 < d) :
    2 * n < 2 * (away n d * d) + d ∧ 2 * (away n d * d) ≤ 2 * n + d := by
  have hlow : (2 * n + d) / (2 * d) * (2 * d) ≤ 2 * n + d := Nat.div_mul_le_self _ _
  have hhigh : 2 * n + d < (2 * n + d) / (2 * d) * (2 * d) + 2 * d :=
    Nat.lt_div_mul_add (Nat.mul_pos (by decide) hd)
  rw [away_natCast]
  generalize (2 * n + d) / (2 * d) = q at hlow hhigh
  rw [Nat.mul_left_comm] at hlow hhigh
  have hcast : (q : Int) * (d : Int) = ((q * d : Nat) : Int) := (Int.natCast_mul q d).symm
  rw [hcast]
  omega

/-- The quotient is nearest. -/
theorem away_near (n : Int) {d : Int} (hd : 0 < d) :
    2 * (away n d * d - n) ≤ d ∧ 2 * (n - away n d * d) ≤ d := by
  obtain ⟨e, rfl⟩ := Int.eq_ofNat_of_zero_le (Int.le_of_lt hd)
  rcases Int.eq_nat_or_neg n with ⟨m, rfl | rfl⟩
  · obtain ⟨hlow, hhigh⟩ := away_natCast_bounds m (by omega : 0 < e)
    omega
  · obtain ⟨hlow, hhigh⟩ := away_natCast_bounds m (by omega : 0 < e)
    rw [away_neg, Int.neg_mul]
    omega

/-- What is nearer than half the divisor is the quotient. -/
theorem away_eq_of_near {n d q : Int} (hlow : 2 * (q * d - n) < d) (hhigh : 2 * (n - q * d) < d) :
    away n d = q := by
  have hd : 0 < d := by omega
  obtain ⟨hlow', hhigh'⟩ := away_near n hd
  have hdist : (away n d - q) * d < 1 * d ∧ (q - away n d) * d < 1 * d := by
    rw [Int.sub_mul, Int.sub_mul]
    omega
  have hle := Int.lt_of_mul_lt_mul_right hdist.1 (Int.le_of_lt hd)
  have hge := Int.lt_of_mul_lt_mul_right hdist.2 (Int.le_of_lt hd)
  omega

/-- A quotient that is no tie moves with its dividend. -/
theorem away_add_mul {n d : Int} (k : Int) (hd : 0 < d)
    (htie : ∀ q, 2 * (q * d - n) ≠ d ∧ 2 * (n - q * d) ≠ d) :
    away (n + k * d) d = away n d + k := by
  obtain ⟨hlow, hhigh⟩ := away_near n hd
  obtain ⟨hlow', hhigh'⟩ := htie (away n d)
  apply away_eq_of_near
  · rw [Int.add_mul]
    omega
  · rw [Int.add_mul]
    omega

end Rounding
end Floorplan
