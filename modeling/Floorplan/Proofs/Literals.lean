import Mathlib.Tactic.Linarith
import Floorplan.Proofs.Decimal
import Floorplan.Proofs.Rounding

/-!
# Floorplan.Proofs.Literals

What text is read as a decimal, and as which one. A literal is a sign, digits, and digits behind a
point, of which at least one digit is there (`Decimal.Literal`). Exactly the literals up to the limit
are read, with blanks around them, and each as the hundredths nearest to the number that all its
digits spell (`Decimal.parse_eq_iff`), although the reader looks at three digits behind the point only.
The text of a decimal is a literal of it, so what is written is read again (`Decimal.parse_text`).
-/

namespace Floorplan

/-! ### Blanks -/

theorem dropWhile_isBlank_of_forall {cs : List Char} (h : ∀ c ∈ cs, isBlank c = false) :
    cs.dropWhile isBlank = cs := by
  cases cs with
  | nil => rfl
  | cons c cs => exact List.dropWhile_cons_of_neg (by simp [h c List.mem_cons_self])

/-- Nothing but the blanks around a text without blanks is taken off. -/
theorem trimBlanks_append {before core after : List Char}
    (hbefore : ∀ c ∈ before, isBlank c = true) (hafter : ∀ c ∈ after, isBlank c = true)
    (hcore : ∀ c ∈ core, isBlank c = false) (hne : core ≠ []) :
    trimBlanks (before ++ core ++ after) = core := by
  have hfront : (core ++ after).dropWhile isBlank = core ++ after := by
    rw [List.dropWhile_append, dropWhile_isBlank_of_forall hcore]
    simp [hne]
  have hback : core.reverse.dropWhile isBlank = core.reverse :=
    dropWhile_isBlank_of_forall fun c hc => hcore c (List.mem_reverse.mp hc)
  have hafter' : ∀ c ∈ after.reverse, isBlank c = true :=
    fun c hc => hafter c (List.mem_reverse.mp hc)
  rw [trimBlanks, List.append_assoc, List.dropWhile_append_of_pos hbefore, hfront,
    List.reverse_append, List.dropWhile_append_of_pos hafter', hback, List.reverse_reverse]

theorem exists_trimBlanks (cs : List Char) : ∃ before after,
    (∀ c ∈ before, isBlank c = true) ∧ (∀ c ∈ after, isBlank c = true) ∧
      cs = before ++ trimBlanks cs ++ after := by
  have hmem : ∀ cs : List Char, ∀ c ∈ cs.takeWhile isBlank, isBlank c = true :=
    fun cs => List.all_eq_true.mp List.all_takeWhile
  refine ⟨cs.takeWhile isBlank, ((cs.dropWhile isBlank).reverse.takeWhile isBlank).reverse,
    hmem cs, fun c hc => hmem _ c (List.mem_reverse.mp hc), ?_⟩
  rw [trimBlanks, List.append_assoc, ← List.reverse_append, List.takeWhile_append_dropWhile,
    List.reverse_reverse, List.takeWhile_append_dropWhile]

/-! ### Rounding -/

/-- Of two nearest numbers the larger is the quotient. -/
theorem Rounding.away_natCast_eq {n d q : Nat} (hlow : 2 * (q * d) ≤ 2 * n + d)
    (hhigh : 2 * n < 2 * (q * d) + d) : away n d = q := by
  have hquotient : (2 * n + d) / (2 * d) = q := by
    apply Nat.div_eq_of_lt_le
    · rw [Nat.mul_left_comm]
      exact hlow
    · rw [Nat.add_mul, Nat.mul_left_comm]
      omega
  rw [away_natCast, hquotient]

namespace Decimal

/-! ### Digits -/

theorem digitValue_lt {c : Char} (h : c.isDigit = true) : digitValue c < 10 := by
  have hzero : '0'.toNat = 48 := rfl
  have hnine : '9'.toNat = 57 := rfl
  have hbounds := Char.isDigit_iff_toNat.mp h
  unfold digitValue
  omega

theorem isBlank_of_isDigit {c : Char} (h : c.isDigit = true) : isBlank c = false := by
  have hzero : '0'.toNat = 48 := rfl
  have hnine : '9'.toNat = 57 := rfl
  have hbounds := Char.isDigit_iff_toNat.mp h
  simp only [isBlank, Bool.or_eq_false_iff, Bool.and_eq_false_iff, decide_eq_false_iff_not,
    beq_eq_false_iff_ne]
  omega

theorem ofDigitChars_cons_zero (c : Char) (cs : List Char) :
    Nat.ofDigitChars 10 (c :: cs) 0 =
      10 ^ cs.length * digitValue c + Nat.ofDigitChars 10 cs 0 := by
  rw [Nat.ofDigitChars_cons, Nat.ofDigitChars_eq_ofDigitChars_zero, Nat.mul_zero, Nat.zero_add,
    digitValue]

theorem ofDigitChars_lt {ds : List Char} (h : ∀ c ∈ ds, c.isDigit = true) :
    Nat.ofDigitChars 10 ds 0 < 10 ^ ds.length := by
  induction ds with
  | nil => decide
  | cons d ds ih =>
    have hd : digitValue d + 1 ≤ 10 := digitValue_lt (h d List.mem_cons_self)
    have hds := ih fun c hc => h c (List.mem_cons_of_mem d hc)
    have hle := Nat.mul_le_mul_left (10 ^ ds.length) hd
    rw [ofDigitChars_cons_zero, List.length_cons, Nat.pow_succ]
    rw [Nat.mul_add] at hle
    omega

/-- Three digits decide the hundredths nearest to a fraction, and of two nearest ones the larger. -/
theorem cents_near {ds : List Char} (h : ∀ c ∈ ds, c.isDigit = true) :
    2 * (cents ds * 10 ^ ds.length) ≤ 2 * (100 * Nat.ofDigitChars 10 ds 0) + 10 ^ ds.length ∧
      2 * (100 * Nat.ofDigitChars 10 ds 0) <
        2 * (cents ds * 10 ^ ds.length) + 10 ^ ds.length := by
  match ds with
  | [] => decide
  | [a] =>
    simp only [ofDigitChars_cons_zero, Nat.ofDigitChars_nil, cents, List.length_cons,
      List.length_nil]
    omega
  | [a, b] =>
    simp only [ofDigitChars_cons_zero, Nat.ofDigitChars_nil, cents, List.length_cons,
      List.length_nil]
    omega
  | a :: b :: c :: rest =>
    -- What is behind the third digit is less than one of it, so it cannot make up a half.
    have hrest : Nat.ofDigitChars 10 rest 0 < 10 ^ rest.length :=
      ofDigitChars_lt fun d hd => h d (by simp [hd])
    have hc : digitValue c < 10 := digitValue_lt (h c (by simp))
    simp only [ofDigitChars_cons_zero, cents, List.length_cons, Nat.pow_succ]
    generalize Nat.ofDigitChars 10 rest 0 = r at hrest ⊢
    generalize 10 ^ rest.length = p at hrest ⊢
    generalize digitValue c = third at hc ⊢
    split
    · next hle =>
      have hlow := Nat.mul_le_mul_left p hle
      have hhigh := Nat.mul_le_mul_left p hc
      constructor <;> linarith
    · next hlt =>
      have hlow := Nat.zero_le (p * third)
      have hhigh := Nat.mul_le_mul_left p (Nat.not_le.mp hlt)
      constructor <;> linarith

/-! ### Literals -/

/-- The parts of a decimal literal: whether it has a minus, and its digits on the two sides of the
point. -/
structure Literal where
  negative : Bool
  whole : List Char
  fraction : List Char
  digits : ∀ c ∈ whole ++ fraction, c.isDigit = true
  nonempty : whole ++ fraction ≠ []

/-- The ways to write a sign. -/
inductive Sign : Bool → List Char → Prop where
  | none : Sign false []
  | plus : Sign false ['+']
  | minus : Sign true ['-']

/-- The ways to write the digits behind the whole ones. -/
inductive Pointed : List Char → List Char → Prop where
  | none : Pointed [] []
  | point (fraction : List Char) : Pointed fraction ('.' :: fraction)

namespace Literal

/-- The hundredths nearest to the number of all digits over its power of ten. -/
def magnitude (l : Literal) : Decimal :=
  ofRatio (Nat.ofDigitChars 10 (l.whole ++ l.fraction) 0 : Nat) (10 ^ l.fraction.length : Nat)

def value (l : Literal) : Decimal := if l.negative then -l.magnitude else l.magnitude

/-- The text is a writing of the literal, with blanks around it. -/
def Spells (l : Literal) (text : String) : Prop :=
  ∃ before sign tail after, (∀ c ∈ before, isBlank c = true) ∧ (∀ c ∈ after, isBlank c = true) ∧
    Sign l.negative sign ∧ Pointed l.fraction tail ∧
    text.toList = before ++ (sign ++ (l.whole ++ tail)) ++ after

variable (l : Literal)

theorem isDigit_whole : ∀ c ∈ l.whole, c.isDigit = true :=
  fun c hc => l.digits c (List.mem_append_left _ hc)

theorem isDigit_fraction : ∀ c ∈ l.fraction, c.isDigit = true :=
  fun c hc => l.digits c (List.mem_append_right _ hc)

theorem hundredths_magnitude :
    l.magnitude.hundredths =
      (100 * Nat.ofDigitChars 10 l.whole 0 + cents l.fraction : Nat) := by
  obtain ⟨hlow, hhigh⟩ := cents_near l.isDigit_fraction
  have hnumber : Nat.ofDigitChars 10 (l.whole ++ l.fraction) 0 =
      10 ^ l.fraction.length * Nat.ofDigitChars 10 l.whole 0 +
        Nat.ofDigitChars 10 l.fraction 0 := by
    rw [Nat.ofDigitChars_append, Nat.ofDigitChars_eq_ofDigitChars_zero]
  unfold magnitude ofRatio
  rw [hnumber]
  exact_mod_cast Rounding.away_natCast_eq (by linarith) (by linarith)

end Literal

/-! ### Reading -/

theorem Pointed.parts {whole fraction tail : List Char} (h : Pointed fraction tail)
    (hwhole : ∀ c ∈ whole, c.isDigit = true) :
    (whole ++ tail).takeWhile (· ≠ '.') = whole ∧
      ((whole ++ tail).dropWhile (· ≠ '.')).drop 1 = fraction := by
  have hne : ∀ c ∈ whole, decide (c ≠ '.') = true :=
    fun c hc => decide_eq_true (ne_point_of_isDigit (hwhole c hc))
  rw [List.takeWhile_append_of_pos hne, List.dropWhile_append_of_pos hne]
  cases h with
  | none => simp
  | point fraction => simp

theorem Pointed.mem {fraction tail : List Char} (h : Pointed fraction tail) {c : Char}
    (hc : c ∈ tail) : c = '.' ∨ c ∈ fraction := by
  cases h with
  | none => cases hc
  | point fraction => exact List.mem_cons.mp hc

theorem Pointed.ne_nil {whole fraction tail : List Char} (h : Pointed fraction tail)
    (hne : whole ++ fraction ≠ []) : whole ++ tail ≠ [] := by
  cases h with
  | none => exact hne
  | point fraction => simp

theorem Sign.isBlank_eq_false {negative : Bool} {sign : List Char} (h : Sign negative sign) :
    ∀ c ∈ sign, isBlank c = false := by
  intro c hc
  cases h with
  | none => cases hc
  | plus =>
    obtain rfl := List.mem_singleton.mp hc
    decide
  | minus =>
    obtain rfl := List.mem_singleton.mp hc
    decide

/-- Behind a sign that may be left out stands something that is none. -/
theorem Sign.splitSign_append {negative : Bool} {sign body : List Char} (h : Sign negative sign)
    (hbody : ∀ c ∈ body.head?, c ≠ '+' ∧ c ≠ '-') :
    splitSign (sign ++ body) = (negative, body) := by
  cases h with
  | plus => rfl
  | minus => rfl
  | none =>
    rw [List.nil_append]
    unfold splitSign
    split
    · exact absurd rfl (hbody '-' rfl).2
    · exact absurd rfl (hbody '+' rfl).1
    · rfl

theorem exists_sign (cs : List Char) :
    ∃ sign, Sign (splitSign cs).1 sign ∧ cs = sign ++ (splitSign cs).2 := by
  unfold splitSign
  split
  · exact ⟨_, .minus, rfl⟩
  · exact ⟨_, .plus, rfl⟩
  · exact ⟨_, .none, rfl⟩

theorem exists_pointed (body : List Char) :
    ∃ tail, Pointed ((body.dropWhile (· ≠ '.')).drop 1) tail ∧
      body = body.takeWhile (· ≠ '.') ++ tail := by
  refine ⟨body.dropWhile (· ≠ '.'), ?_, List.takeWhile_append_dropWhile.symm⟩
  have hhead := List.head?_dropWhile_not (· ≠ '.') body
  cases h : body.dropWhile (· ≠ '.') with
  | nil => exact .none
  | cons c cs =>
    rw [h] at hhead
    obtain rfl : c = '.' := by simpa using hhead
    exact .point cs

namespace Literal

variable {l : Literal} {text : String}

theorem value_eq (l : Literal) :
    l.value =
      ⟨if l.negative then -(100 * Nat.ofDigitChars 10 l.whole 0 + cents l.fraction : Nat)
        else (100 * Nat.ofDigitChars 10 l.whole 0 + cents l.fraction : Nat)⟩ := by
  have hmagnitude : l.magnitude = ⟨l.magnitude.hundredths⟩ := rfl
  unfold value
  rw [hmagnitude, hundredths_magnitude]
  split <;> rfl

theorem mem_unsigned {tail : List Char} (h : Pointed l.fraction tail) {c : Char}
    (hc : c ∈ l.whole ++ tail) : c.isDigit = true ∨ c = '.' := by
  rcases List.mem_append.mp hc with hwhole | htail
  · exact .inl (l.isDigit_whole c hwhole)
  · rcases h.mem htail with hpoint | hfraction
    · exact .inr hpoint
    · exact .inl (l.isDigit_fraction c hfraction)

/-- A literal is read as its value up to the limit. -/
theorem Spells.parse_eq (h : l.Spells text) :
    parse text = if l.magnitude ≤ limit then .ok l.value else .error ⟨text⟩ := by
  obtain ⟨before, sign, tail, after, hbefore, hafter, hsign, hpointed, htext⟩ := h
  have hblank : ∀ c ∈ sign ++ (l.whole ++ tail), isBlank c = false := by
    intro c hc
    rcases List.mem_append.mp hc with hc | hc
    · exact hsign.isBlank_eq_false c hc
    · rcases mem_unsigned hpointed hc with hdigit | rfl
      · exact isBlank_of_isDigit hdigit
      · decide
  have hne : sign ++ (l.whole ++ tail) ≠ [] :=
    List.append_ne_nil_of_right_ne_nil _ (hpointed.ne_nil l.nonempty)
  have hhead : ∀ c ∈ (l.whole ++ tail).head?, c ≠ '+' ∧ c ≠ '-' := by
    intro c hc
    rcases mem_unsigned hpointed (List.mem_of_mem_head? hc) with hdigit | rfl
    · exact ⟨fun h => absurd (h ▸ hdigit) (by decide), fun h => absurd (h ▸ hdigit) (by decide)⟩
    · decide
  obtain ⟨hwhole, hfraction⟩ := hpointed.parts l.isDigit_whole
  have hform : ((l.whole ++ l.fraction).isEmpty ||
      !(l.whole ++ l.fraction).all Char.isDigit) = false := by
    simp [l.nonempty, List.all_eq_true.mpr l.digits]
  have hlimit : l.magnitude ≤ limit ↔ ¬ limit.hundredths.natAbs <
      100 * Nat.ofDigitChars 10 l.whole 0 + cents l.fraction := by
    change l.magnitude.hundredths ≤ limit.hundredths ↔ _
    have hpos : (0 : Int) ≤ limit.hundredths := by decide
    rw [hundredths_magnitude]
    omega
  unfold parse
  rw [htext, trimBlanks_append hbefore hafter hblank hne, hsign.splitSign_append hhead]
  dsimp only
  rw [hwhole, hfraction, hform, value_eq, if_neg Bool.false_ne_true]
  simp only [hlimit, ite_not]

/-- What is no literal is not read. -/
theorem spells_or_error (text : String) :
    (∃ l : Literal, l.Spells text) ∨ parse text = .error ⟨text⟩ := by
  rcases hparts : splitSign (trimBlanks text.toList) with ⟨negative, body⟩
  obtain ⟨before, after, hbefore, hafter, htext⟩ := exists_trimBlanks text.toList
  obtain ⟨sign, hsign, hcore⟩ := exists_sign (trimBlanks text.toList)
  rw [hparts] at hsign hcore
  obtain ⟨tail, hpointed, hbody⟩ := exists_pointed body
  by_cases hform : ((body.takeWhile (· ≠ '.') ++ (body.dropWhile (· ≠ '.')).drop 1).isEmpty ||
      !(body.takeWhile (· ≠ '.') ++ (body.dropWhile (· ≠ '.')).drop 1).all Char.isDigit) = true
  · right
    unfold parse
    rw [hparts]
    dsimp only
    rw [if_pos hform]
  · left
    simp only [Bool.or_eq_true, Bool.not_eq_true', not_or, List.isEmpty_iff, Bool.not_eq_false,
      List.all_eq_true] at hform
    refine ⟨⟨negative, _, _, hform.2, hform.1⟩, before, sign, tail, after, hbefore, hafter, hsign,
      hpointed, ?_⟩
    rw [← hbody, ← hcore]
    exact htext

end Literal

/-- Text is read as a decimal exactly if it is a literal with blanks around it, of a magnitude that
rounds to the limit at most: as that magnitude with the literal's sign. The error for any other text
holds the text as it is. -/
theorem parse_eq_iff (text : String) :
    (∀ x, parse text = .ok x ↔
        ∃ l : Literal, l.Spells text ∧ l.magnitude ≤ limit ∧ x = l.value) ∧
      ∀ e, parse text = .error e ↔
        e = ⟨text⟩ ∧ ¬ ∃ l : Literal, l.Spells text ∧ l.magnitude ≤ limit := by
  have hread : ∀ {l : Literal}, l.Spells text → l.magnitude ≤ limit → parse text = .ok l.value :=
    fun hl hle => hl.parse_eq.trans (if_pos hle)
  by_cases h : ∃ l : Literal, l.Spells text ∧ l.magnitude ≤ limit
  · obtain ⟨l, hl, hle⟩ := h
    constructor
    · intro x
      constructor
      · intro hx
        exact ⟨l, hl, hle, Except.ok.inj (hx.symm.trans (hread hl hle))⟩
      · rintro ⟨l', hl', hle', rfl⟩
        exact hread hl' hle'
    · intro e
      rw [hread hl hle]
      exact ⟨nofun, fun he => absurd ⟨l, hl, hle⟩ he.2⟩
  · have herror : parse text = .error ⟨text⟩ := by
      rcases Literal.spells_or_error text with ⟨l, hl⟩ | herror
      · exact hl.parse_eq.trans (if_neg fun hle => h ⟨l, hl, hle⟩)
      · exact herror
    rw [herror]
    constructor
    · intro x
      exact ⟨nofun, fun ⟨l, hl, hle, _⟩ => absurd ⟨l, hl, hle⟩ h⟩
    · intro e
      exact ⟨fun he => ⟨(Except.error.inj he).symm, h⟩, fun he => congrArg Except.error he.1.symm⟩

/-- The third digit behind the point decides, and past the limit that is an error. -/
example : parse " +021474836.474999\n" = .ok limit ∧
    parse "21474836.475" = .error ⟨"21474836.475"⟩ := by decide +kernel

/-! ### Writing -/

/-- The literal that the text of a number is. -/
def literal (x : Decimal) : Literal where
  negative := x.hundredths < 0
  whole := Nat.toDigits 10 (x.hundredths.natAbs / 100)
  fraction := fractionDigits (x.hundredths.natAbs % 100)
  digits := by
    intro c hc
    rcases List.mem_append.mp hc with hwhole | hfraction
    · exact Nat.isDigit_of_mem_toDigits (by decide) (by decide) hwhole
    · exact isDigit_of_mem_fractionDigits (Nat.mod_lt _ (by decide)) hfraction
  nonempty := List.append_ne_nil_of_left_ne_nil Nat.toDigits_ne_nil _

theorem pointed_fractionText {c : Nat} (h : c < 100) :
    Pointed (fractionDigits c) (fractionText c).toList := by
  rw [toList_fractionText h]
  split
  · next hzero =>
    rw [hzero]
    exact .none
  · exact .point _

theorem spells_text (x : Decimal) : x.literal.Spells x.text := by
  have hsign : Sign (decide (x.hundredths < 0)) (if x.hundredths < 0 then ['-'] else []) := by
    by_cases hneg : x.hundredths < 0
    · simp only [hneg, decide_true, if_true]
      exact .minus
    · simp only [hneg, decide_false, if_false]
      exact .none
  refine ⟨[], _, _, [], nofun, nofun, hsign, pointed_fractionText (Nat.mod_lt _ (by decide)), ?_⟩
  rw [List.nil_append, List.append_nil]
  exact toList_text x

theorem hundredths_magnitude_literal (x : Decimal) :
    x.literal.magnitude.hundredths = x.hundredths.natAbs := by
  rw [Literal.hundredths_magnitude]
  dsimp only [literal]
  rw [Nat.ofDigitChars_ten_toDigits, cents_fractionDigits (Nat.mod_lt _ (by decide)),
    Nat.div_add_mod]

theorem value_literal (x : Decimal) : x.literal.value = x := by
  have hmagnitude : x.literal.magnitude = ⟨x.hundredths.natAbs⟩ :=
    congrArg mk x.hundredths_magnitude_literal
  have hnegative : x.literal.negative = decide (x.hundredths < 0) := rfl
  obtain ⟨n⟩ := x
  rw [Literal.value, hmagnitude, hnegative]
  by_cases hneg : n < 0
  · rw [if_pos (decide_eq_true hneg)]
    exact congrArg mk (by omega : -(n.natAbs : Int) = n)
  · rw [if_neg (by simp [hneg])]
    exact congrArg mk (by omega : (n.natAbs : Int) = n)

theorem parse_text_eq (x : Decimal) :
    parse x.text = if x.inRange then .ok x else .error ⟨x.text⟩ := by
  have hlimit : x.literal.magnitude ≤ limit ↔ x.inRange = true := by
    have hpos : (0 : Int) ≤ limit.hundredths := by decide
    change x.literal.magnitude.hundredths ≤ limit.hundredths ↔ decide _ = true
    rw [hundredths_magnitude_literal, decide_eq_true_iff]
    omega
  have hparse := x.spells_text.parse_eq
  simp only [hlimit, value_literal] at hparse
  exact hparse

/-! ### The form of a text -/

theorem digitChar_ne_zero {d : Nat} (h : d < 10) (hzero : d ≠ 0) : Nat.digitChar d ≠ '0' := by
  intro heq
  have hvalue := digitValue_digitChar h
  rw [heq] at hvalue
  exact hzero hvalue.symm

/-- The last digit behind the point is written only if it is not zero. -/
theorem exists_getLast?_fractionDigits {c : Nat} (h : c < 100) (hzero : c ≠ 0) :
    ∃ d, (fractionDigits c).getLast? = some d ∧ d.isDigit = true ∧ d ≠ '0' := by
  have hten : c / 10 < 10 := by omega
  have hone : c % 10 < 10 := Nat.mod_lt _ (by decide)
  unfold fractionDigits
  rw [if_neg hzero]
  split
  · exact ⟨_, rfl, by simp [Nat.isDigit_digitChar, hten], digitChar_ne_zero hten (by omega)⟩
  · next hround =>
    exact ⟨_, rfl, by simp [Nat.isDigit_digitChar, hone], digitChar_ne_zero hone hround⟩

theorem exists_ne_zero_of_toDigits {n : Nat} (h : n ≠ 0) :
    ∃ d ∈ Nat.toDigits 10 n, d.isDigit = true ∧ d ≠ '0' := by
  by_contra hnone
  have hzeros : ∀ d ∈ Nat.toDigits 10 n, d = '0' := by
    intro d hd
    by_contra hne
    exact hnone ⟨d, hd, Nat.isDigit_of_mem_toDigits (by decide) (by decide) hd, hne⟩
  have hvalue := Nat.ofDigitChars_ten_toDigits (n := n)
  rw [List.eq_replicate_of_mem hzeros, Nat.ofDigitChars_replicate_zero, Nat.mul_zero] at hvalue
  exact h hvalue.symm

theorem exists_ne_zero_of_numeral {n : Nat} (h : n ≠ 0) :
    ∃ d ∈ numeral n, d.isDigit = true ∧ d ≠ '0' := by
  by_cases hzero : n % 100 = 0
  · obtain ⟨d, hd, hdigit⟩ := exists_ne_zero_of_toDigits (by omega : n / 100 ≠ 0)
    exact ⟨d, List.mem_append_left _ hd, hdigit⟩
  · have hc : n % 100 < 100 := Nat.mod_lt _ (by decide)
    obtain ⟨d, hd, hdigit⟩ := exists_getLast?_fractionDigits hc hzero
    refine ⟨d, List.mem_append_right _ ?_, hdigit⟩
    rw [toList_fractionText hc, if_neg hzero]
    exact List.mem_cons_of_mem _ (List.mem_of_getLast? hd)

theorem neg_of_minus_mem {x : Decimal} (h : '-' ∈ x.text.toList) : x.hundredths < 0 := by
  by_contra hneg
  rw [toList_text, if_neg hneg, List.nil_append] at h
  rcases mem_numeral h with hdigit | hpoint
  · exact absurd hdigit (by decide)
  · exact absurd hpoint (by decide)

theorem ne_zero_of_point_mem {x : Decimal} (h : '.' ∈ x.text.toList) :
    x.hundredths.natAbs % 100 ≠ 0 := by
  intro hzero
  rw [toList_text, numeral, hzero, List.mem_append, List.mem_append] at h
  rcases h with hsign | hwhole | hfraction
  · split at hsign
    · exact absurd hsign (by decide)
    · cases hsign
  · exact ne_point_of_isDigit (Nat.isDigit_of_mem_toDigits (by decide) (by decide) hwhole) rfl
  · exact absurd hfraction (by decide)

/-- A number in range is read from its text, and the text of any other is an error. A text with a point
ends with a digit other than zero, one with a minus has a digit other than zero, and no two numbers
have the same text. -/
theorem parse_text (x : Decimal) :
    parse x.text = (if x.inRange then .ok x else .error ⟨x.text⟩) ∧
      ('.' ∈ x.text.toList → ∃ d, x.text.toList.getLast? = some d ∧ d.isDigit = true ∧ d ≠ '0') ∧
      ('-' ∈ x.text.toList → ∃ d ∈ x.text.toList, d.isDigit = true ∧ d ≠ '0') ∧
      ∀ y : Decimal, y.text = x.text → y = x := by
  refine ⟨x.parse_text_eq, ?_, ?_, fun y h => text_injective h⟩
  · intro hpoint
    have hzero := ne_zero_of_point_mem hpoint
    have hc : x.hundredths.natAbs % 100 < 100 := Nat.mod_lt _ (by decide)
    obtain ⟨d, hd, hdigit⟩ := exists_getLast?_fractionDigits hc hzero
    refine ⟨d, ?_, hdigit⟩
    rw [toList_text, numeral, toList_fractionText hc, if_neg hzero]
    simp [List.getLast?_append, List.getLast?_cons, hd]
  · intro hminus
    have hneg := neg_of_minus_mem hminus
    obtain ⟨d, hd, hdigit⟩ := exists_ne_zero_of_numeral (by omega : x.hundredths.natAbs ≠ 0)
    refine ⟨d, ?_, hdigit⟩
    rw [toList_text]
    exact List.mem_append_right _ hd

/-- A number below zero and above minus one, and the first one out of range. -/
theorem parse_text_negative :
    let x : Decimal := ⟨-90⟩
    let far : Decimal := ⟨-2147483648⟩
    (x.text = "-0.9" ∧ parse x.text = .ok x) ∧
      ('.' ∈ x.text.toList ∧ ∃ d, x.text.toList.getLast? = some d ∧ d.isDigit = true ∧ d ≠ '0') ∧
      ('-' ∈ x.text.toList ∧ ∃ d ∈ x.text.toList, d.isDigit = true ∧ d ≠ '0') ∧
      far.text = "-21474836.48" ∧ parse far.text = .error ⟨far.text⟩ := by
  intro x far
  obtain ⟨hparse, hpoint, hminus, -⟩ := parse_text x
  have hmem : '.' ∈ x.text.toList ∧ '-' ∈ x.text.toList := by decide +kernel
  exact ⟨⟨by decide +kernel, hparse⟩, ⟨hmem.1, hpoint hmem.1⟩, ⟨hmem.2, hminus hmem.2⟩,
    by decide +kernel, (parse_text far).1⟩

end Decimal
end Floorplan
