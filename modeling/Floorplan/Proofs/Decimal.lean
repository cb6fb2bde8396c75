import Floorplan.Decimal

/-!
# Floorplan.Proofs.Decimal

The text of a decimal number says which number it is (`text_injective`): the sign, the digits in
front of the point and those behind it are each found in it again. It is made of digits, a minus and
a point only, so that other text can stand around it. Sums are those of the hundredths, exact in any
order.
-/

namespace Floorplan
namespace Decimal

/-! ### Sums -/

theorem hundredths_injective : Function.Injective hundredths := by
  rintro ⟨a⟩ ⟨b⟩ h
  exact congrArg mk h

section Sums

variable (x y z : Decimal)

theorem add_right_comm : x + y + z = x + z + y :=
  hundredths_injective (Int.add_right_comm ..)

theorem add_sub_cancel : x + y - y = x :=
  hundredths_injective (Int.add_sub_cancel ..)

theorem add_sub_cancel_left : x + y - x = y := by
  apply hundredths_injective
  simp only [hundredths_add, hundredths_sub]
  omega

theorem sub_add_cancel : x - y + y = x :=
  hundredths_injective (Int.sub_add_cancel ..)

theorem sub_add_comm : x - y + z = x + z - y := by
  apply hundredths_injective
  simp only [hundredths_add, hundredths_sub]
  omega

theorem sub_add_add_cancel : x - y + (x + y) = x + x := by
  apply hundredths_injective
  simp only [hundredths_add, hundredths_sub]
  omega

theorem add_add_sub_cancel : x + y + (x - y) = x + x := by
  apply hundredths_injective
  simp only [hundredths_add, hundredths_sub]
  omega

end Sums

/-! ### The digits of a text -/

theorem repr_injective : Function.Injective Nat.repr := by
  intro m n h
  have hdigits := congrArg String.toList h
  rw [Nat.toList_repr, Nat.toList_repr] at hdigits
  rw [← Nat.ofDigitChars_ten_toDigits (n := m), hdigits, Nat.ofDigitChars_ten_toDigits]

/-- The digits that `fractionText` writes behind the point. -/
def fractionDigits (c : Nat) : List Char :=
  if c = 0 then []
  else if c % 10 = 0 then [Nat.digitChar (c / 10)]
  else [Nat.digitChar (c / 10), Nat.digitChar (c % 10)]

/-- The text of a number of hundredths without a sign. -/
def numeral (n : Nat) : List Char :=
  Nat.toDigits 10 (n / 100) ++ (fractionText (n % 100)).toList

theorem toList_text (x : Decimal) :
    x.text.toList = (if x.hundredths < 0 then ['-'] else []) ++ numeral x.hundredths.natAbs := by
  unfold text numeral
  split <;> simp [String.toList_append]

theorem toList_fractionText {c : Nat} (h : c < 100) :
    (fractionText c).toList = if c = 0 then [] else '.' :: fractionDigits c := by
  have hten : c / 10 < 10 := by omega
  have hone : c % 10 < 10 := Nat.mod_lt _ (by decide)
  unfold fractionText fractionDigits
  by_cases hzero : c = 0
  · simp [hzero]
  · by_cases hround : c % 10 = 0
    · simp [hzero, hround, Nat.toDigits_of_lt_base hten]
    · simp [hzero, hround, Nat.toDigits_of_lt_base hten, Nat.toDigits_of_lt_base hone]

theorem isDigit_of_mem_fractionDigits {c : Nat} (h : c < 100) {d : Char}
    (hd : d ∈ fractionDigits c) : d.isDigit = true := by
  have hten : c / 10 < 10 := by omega
  have hone : c % 10 < 10 := Nat.mod_lt _ (by decide)
  unfold fractionDigits at hd
  split at hd
  · cases hd
  · split at hd
    · simp only [List.mem_singleton] at hd
      simp [hd, Nat.isDigit_digitChar, hten]
    · simp only [List.mem_cons, List.not_mem_nil, or_false] at hd
      rcases hd with rfl | rfl
      · simp [Nat.isDigit_digitChar, hten]
      · simp [Nat.isDigit_digitChar, hone]

theorem digitValue_digitChar {d : Nat} (h : d < 10) : digitValue (Nat.digitChar d) = d := by
  have hzero : '0'.toNat = 48 := rfl
  rw [digitValue, Nat.toNat_digitChar_of_lt_ten h, hzero]
  omega

theorem cents_fractionDigits {c : Nat} (h : c < 100) : cents (fractionDigits c) = c := by
  have hten : digitValue (Nat.digitChar (c / 10)) = c / 10 := digitValue_digitChar (by omega)
  have hone : digitValue (Nat.digitChar (c % 10)) = c % 10 :=
    digitValue_digitChar (Nat.mod_lt _ (by decide))
  unfold fractionDigits
  split
  · rename_i hzero
    rw [hzero, cents]
  · split
    · rw [cents, hten]
      omega
    · rw [cents, hten, hone]
      omega

/-! ### The parts of a numeral -/

theorem ne_point_of_isDigit {c : Char} (h : c.isDigit = true) : c ≠ '.' := by
  rintro rfl
  revert h
  decide

theorem ne_point_of_mem_toDigits {n : Nat} {c : Char} (h : c ∈ Nat.toDigits 10 n) :
    decide (c ≠ '.') = true :=
  decide_eq_true (ne_point_of_isDigit (Nat.isDigit_of_mem_toDigits (by decide) (by decide) h))

theorem takeWhile_numeral (n : Nat) :
    (numeral n).takeWhile (· ≠ '.') = Nat.toDigits 10 (n / 100) := by
  have hc : n % 100 < 100 := Nat.mod_lt _ (by decide)
  rw [numeral, List.takeWhile_append_of_pos fun c h => ne_point_of_mem_toDigits h,
    toList_fractionText hc]
  split <;> simp

theorem dropWhile_numeral (n : Nat) :
    ((numeral n).dropWhile (· ≠ '.')).drop 1 = fractionDigits (n % 100) := by
  have hc : n % 100 < 100 := Nat.mod_lt _ (by decide)
  rw [numeral, List.dropWhile_append_of_pos fun c h => ne_point_of_mem_toDigits h,
    toList_fractionText hc]
  split
  · rename_i hzero
    simp [hzero, fractionDigits]
  · simp

/-- The parts on the two sides of the point give back the number. -/
theorem value_numeral (n : Nat) :
    100 * Nat.ofDigitChars 10 ((numeral n).takeWhile (· ≠ '.')) 0 +
      cents (((numeral n).dropWhile (· ≠ '.')).drop 1) = n := by
  have hc : n % 100 < 100 := Nat.mod_lt _ (by decide)
  rw [takeWhile_numeral, dropWhile_numeral, Nat.ofDigitChars_ten_toDigits,
    cents_fractionDigits hc]
  exact Nat.div_add_mod n 100

theorem numeral_injective : Function.Injective numeral := by
  intro m n h
  rw [← value_numeral m, h, value_numeral]

theorem numeral_eq_cons (n : Nat) : ∃ d ds, numeral n = d :: ds ∧ d.isDigit = true := by
  cases h : Nat.toDigits 10 (n / 100) with
  | nil => exact absurd h Nat.toDigits_ne_nil
  | cons d ds =>
    refine ⟨d, ds ++ (fractionText (n % 100)).toList, by rw [numeral, h]; rfl, ?_⟩
    exact Nat.isDigit_of_mem_toDigits (by decide) (by decide) (h ▸ List.mem_cons_self)

/-! ### The whole text -/

theorem splitSign_numeral (n : Nat) : splitSign (numeral n) = (false, numeral n) := by
  obtain ⟨d, ds, h, hd⟩ := numeral_eq_cons n
  rw [h]
  unfold splitSign
  split
  · rename_i heq
    cases heq
    exact absurd hd (by decide)
  · rename_i heq
    cases heq
    exact absurd hd (by decide)
  · rfl

theorem splitSign_text (x : Decimal) :
    splitSign x.text.toList = (decide (x.hundredths < 0), numeral x.hundredths.natAbs) := by
  rw [toList_text]
  by_cases hneg : x.hundredths < 0
  · simp [hneg, splitSign]
  · simp [hneg, splitSign_numeral]

theorem text_injective : Function.Injective text := by
  intro x y h
  have hsplit := splitSign_text x
  rw [h, splitSign_text y, Prod.mk.injEq] at hsplit
  obtain ⟨hsign, hnumeral⟩ := hsplit
  have habs := numeral_injective hnumeral
  have hneg : y.hundredths < 0 ↔ x.hundredths < 0 := decide_eq_decide.mp hsign
  apply hundredths_injective
  omega

theorem mem_numeral {n : Nat} {c : Char} (h : c ∈ numeral n) : c.isDigit = true ∨ c = '.' := by
  have hc : n % 100 < 100 := Nat.mod_lt _ (by decide)
  rw [numeral, List.mem_append, toList_fractionText hc] at h
  rcases h with hwhole | hfraction
  · exact Or.inl (Nat.isDigit_of_mem_toDigits (by decide) (by decide) hwhole)
  · split at hfraction
    · cases hfraction
    · rcases List.mem_cons.mp hfraction with hpoint | hdigit
      · exact Or.inr hpoint
      · exact Or.inl (isDigit_of_mem_fractionDigits hc hdigit)

theorem mem_text {x : Decimal} {c : Char} (h : c ∈ x.text.toList) :
    c.isDigit = true ∨ c = '-' ∨ c = '.' := by
  rw [toList_text, List.mem_append] at h
  rcases h with hsign | hnumeral
  · split at hsign
    · exact Or.inr (Or.inl (List.mem_singleton.mp hsign))
    · cases hsign
  · rcases mem_numeral hnumeral with hdigit | hpoint
    · exact Or.inl hdigit
    · exact Or.inr (Or.inr hpoint)

theorem comma_notMem_text (x : Decimal) : ',' ∉ x.text.toList := by
  intro h
  rcases mem_text h with hdigit | hminus | hpoint
  · exact absurd hdigit (by decide)
  · exact absurd hminus (by decide)
  · exact absurd hpoint (by decide)

end Decimal
end Floorplan
