import Floorplan.Decimal.Snap
import Floorplan.Heading

/-!
# Floorplan.Proofs.Heading

Headings are exact. A ratio over a power of two is held as it is if its numerator is no longer than
a significand (`Binary.Format.round_twoTo`), and the half degrees of one turn are that short. So the
heading of an arc is its number of half degrees from 0 up to 720 (`isHalves_ofHalves`), and headings
are the same if these numbers are. The zeros of both signs are one heading: they are told apart by
no angle and no quarter.
-/

namespace Floorplan

theorem Rounding.even_mul (q : Nat) {d : Nat} (hd : 0 < d) : even (q * d) d = q := by
  unfold even
  rw [Nat.mul_div_cancel _ hd, Nat.mul_mod_left]
  simp [hd]

namespace Binary

theorem twoTo_pos (k : Nat) : 0 < twoTo k := Nat.two_pow_pos k

theorem magnitude_pos (m : Nat) (e : Int) : 0 < (magnitude m e).2 := twoTo_pos _

theorem twoTo_add (j k : Nat) : twoTo (j + k) = twoTo j * twoTo k := Nat.pow_add 2 j k

namespace Format

variable (f : Format) {n s : Nat}

/-- The exponent that makes up for the length of a numerator. -/
theorem exponentOf_twoTo (hn : n ≠ 0) (hs : n.log2 + s + 1 = f.precision) (k : Nat)
    (hleast : f.least ≤ -((s + k : Nat) : Int)) :
    f.exponentOf n (twoTo k) = -((s + k : Nat) : Int) := by
  have hlog : (twoTo k).log2 = k := Nat.log2_two_pow
  have he : (n.log2 : Int) - (twoTo k).log2 - f.precision + 1 = -((s + k : Nat) : Int) := by
    omega
  have hshort : ¬ n * twoTo (s + k) < twoTo k * twoTo 0 * twoTo (f.precision - 1) := by
    have hle : twoTo n.log2 ≤ n := Nat.log2_self_le hn
    have hprecision : f.precision - 1 = n.log2 + s := by omega
    apply Nat.not_lt.mpr
    calc twoTo k * twoTo 0 * twoTo (f.precision - 1)
        = twoTo n.log2 * twoTo (s + k) := by
          rw [hprecision, ← twoTo_add, ← twoTo_add, ← twoTo_add]
          congr 1
          omega
      _ ≤ n * twoTo (s + k) := Nat.mul_le_mul_right _ hle
  unfold exponentOf
  dsimp only
  rw [he, Int.neg_neg, Int.toNat_natCast, show (-((s + k : Nat) : Int)).toNat = 0 by omega]
  simp only [hshort, decide_false, Bool.false_eq_true, if_false]
  exact Int.max_eq_right hleast

/-- A ratio over a power of two is held as it is if its numerator is no longer than a
significand. -/
theorem round_twoTo (hn : n ≠ 0) (hs : n.log2 + s + 1 = f.precision) (k : Nat)
    (hleast : f.least ≤ -((s + k : Nat) : Int)) (hgreatest : 0 ≤ f.greatest) (negative : Bool) :
    f.round negative n (twoTo k) = .finite negative (n * twoTo s) (-((s + k : Nat) : Int)) := by
  have hlt : n * twoTo s < twoTo f.precision := by
    have hlog : n < twoTo (n.log2 + 1) := Nat.lt_log2_self
    calc n * twoTo s < twoTo (n.log2 + 1) * twoTo s := Nat.mul_lt_mul_of_pos_right hlog (twoTo_pos s)
      _ = twoTo f.precision := by
        rw [← twoTo_add, ← hs]
        congr 1
        omega
  have hquotient : Rounding.even (n * twoTo (s + k)) (twoTo k * twoTo 0) = n * twoTo s := by
    rw [twoTo_add, ← Nat.mul_assoc, show twoTo k * twoTo 0 = twoTo k from Nat.mul_one _]
    exact Rounding.even_mul _ (twoTo_pos k)
  unfold round
  rw [if_neg hn, exponentOf_twoTo f hn hs k hleast]
  dsimp only
  rw [Int.neg_neg, Int.toNat_natCast, show (-((s + k : Nat) : Int)).toNat = 0 by omega, hquotient,
    if_neg (Nat.ne_of_lt hlt)]
  exact if_neg (by omega)

end Format
end Binary

namespace Heading

/-- A heading of exactly `n` half degrees. Only zero can be negative. -/
def IsHalves (h : Heading) (n : Nat) : Prop :=
  ∃ negative m e, h.degrees = .finite negative m e ∧
    2 * (Binary.magnitude m e).1 = n * (Binary.magnitude m e).2 ∧ (negative = true → n = 0)

theorem ofHalves_of_dvd {k : Int} (h : k % 720 = 0) :
    ofHalves k = ⟨.finite (k < 0) 0 (-1074)⟩ := by
  unfold ofHalves
  rw [h]
  simp [Binary.Format.round, show Binary.Format.double.least = -1074 from rfl]

/-- The half degrees of one turn are short enough to be exact. -/
theorem ofHalves_of_not_dvd {k : Int} (h : k % 720 ≠ 0) :
    ∃ s : Nat, ofHalves k =
      ⟨.finite false ((k % 720).toNat * Binary.twoTo s) (-((s + 1 : Nat) : Int))⟩ := by
  have hn : (k % 720).toNat ≠ 0 := by omega
  have hlog : (k % 720).toNat.log2 < 53 := (Nat.log2_lt hn).mpr (by omega)
  have hround := Binary.Format.double.round_twoTo hn
    (show _ + (52 - (k % 720).toNat.log2) + 1 = 53 by omega) 1
    (by rw [show Binary.Format.double.least = -1074 from rfl]; omega) (by decide) false
  refine ⟨52 - (k % 720).toNat.log2, ?_⟩
  unfold ofHalves
  dsimp only
  rw [beq_false_of_ne hn, Bool.and_false]
  exact congrArg mk hround

theorem isHalves_ofHalves (k : Int) : (ofHalves k).IsHalves (k % 720).toNat := by
  by_cases h : k % 720 = 0
  · rw [ofHalves_of_dvd h, h]
    refine ⟨_, _, _, rfl, ?_, fun _ => rfl⟩
    simp [Binary.magnitude]
  · obtain ⟨s, hs⟩ := ofHalves_of_not_dvd h
    rw [hs]
    refine ⟨_, _, _, rfl, ?_, nofun⟩
    unfold Binary.magnitude
    rw [Int.neg_neg, Int.toNat_natCast, show (-((s + 1 : Nat) : Int)).toNat = 0 by omega,
      Binary.twoTo_add]
    calc 2 * ((k % 720).toNat * Binary.twoTo s * 1)
        = (k % 720).toNat * Binary.twoTo s * 2 := by rw [Nat.mul_one, Nat.mul_comm]
      _ = (k % 720).toNat * (Binary.twoTo s * 2) := Nat.mul_assoc ..

theorem lt_of_halves (k : Int) : (k % 720).toNat < 720 := by omega

variable {a b : Heading} {n m : Nat}

/-- Ratios are equal if they are as many halves. -/
theorem ratio_eq_iff {x d y d' : Nat} (hd : 0 < d) (hd' : 0 < d') (hn : 2 * x = n * d)
    (hm : 2 * y = m * d') : x * d' = y * d ↔ n = m := by
  have hleft : 2 * (x * d') = n * (d * d') := by
    rw [← Nat.mul_assoc, hn, Nat.mul_assoc]
  have hright : 2 * (y * d) = m * (d * d') := by
    rw [← Nat.mul_assoc, hm, Nat.mul_assoc, Nat.mul_comm d']
  rw [← Nat.mul_right_inj (by decide : 2 ≠ 0), hleft, hright]
  exact Nat.mul_left_inj (Nat.mul_ne_zero (Nat.ne_of_gt hd) (Nat.ne_of_gt hd'))

/-- Headings are the same if they are as many half degrees. -/
theorem same_iff (ha : a.IsHalves n) (hb : b.IsHalves m) : a.same b = true ↔ n = m := by
  obtain ⟨s, i, e, ha, hn, hs⟩ := ha
  obtain ⟨s', j, e', hb, hm, hs'⟩ := hb
  have hratio := ratio_eq_iff (Binary.magnitude_pos i e) (Binary.magnitude_pos j e') hn hm
  have hsign : n = m → (s == s' || (Binary.magnitude i e).1 == 0) = true := by
    rintro rfl
    by_cases hzero : n = 0
    · rw [hzero, Nat.zero_mul] at hn
      simp [(Nat.mul_eq_zero.mp hn).resolve_left (by decide)]
    · have hs := Bool.eq_false_iff.mpr (mt hs hzero)
      have hs' := Bool.eq_false_iff.mpr (mt hs' hzero)
      simp [hs, hs']
  rw [same, ha, hb]
  unfold Binary.eq
  dsimp only
  rw [Bool.and_eq_true, beq_iff_eq, hratio]
  exact ⟨And.left, fun h => ⟨h, hsign h⟩⟩

theorem same_ofHalves_iff (k l : Int) :
    (ofHalves k).same (ofHalves l) = true ↔ k % 720 = l % 720 := by
  rw [same_iff (isHalves_ofHalves k) (isHalves_ofHalves l)]
  omega

/-- Headings that are the same are told apart by nothing that is made of them. -/
theorem reading_of_same {k l : Int} (h : (ofHalves k).same (ofHalves l) = true) :
    Decimal.snap (ofHalves k).degrees = Decimal.snap (ofHalves l).degrees ∧
      (ofHalves k).quarter = (ofHalves l).quarter := by
  have hrest := (same_ofHalves_iff k l).mp h
  by_cases hzero : k % 720 = 0
  · have hsigns : ∀ s s' : Bool,
        Decimal.snap (.finite s 0 (-1074)) = Decimal.snap (.finite s' 0 (-1074)) ∧
          quarter ⟨.finite s 0 (-1074)⟩ = quarter ⟨.finite s' 0 (-1074)⟩ := by
      decide +kernel
    rw [ofHalves_of_dvd hzero, ofHalves_of_dvd (hrest.symm.trans hzero)]
    exact hsigns _ _
  · have hequal : ofHalves k = ofHalves l := by
      have hk : ((k % 720).toNat == 0) = false := beq_false_of_ne (by omega)
      unfold ofHalves
      dsimp only
      rw [← hrest, hk, Bool.and_false, Bool.and_false]
    rw [hequal]
    exact ⟨rfl, rfl⟩

end Heading
end Floorplan
