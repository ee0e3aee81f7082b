import TableDdl.Proofs.Number.Rounding

/-!
# The shortest decimal reads back

Among the decimals with seventeen digits there is always one that reads back, so the shortest one is
found. Every decimal that reads back is rounded to its double, however many zeros its digits end
with.
-/

namespace TableDdl

namespace Double

variable {value : Double} {decimal : Nat}

/-! ## The decimals that read back -/

theorem pow_le_units (nonzero : value.significand ≠ 0) : 2 ^ value.power ≤ value.units :=
  Nat.le_mul_of_pos_left _ (Nat.pos_of_ne_zero nonzero)

theorem around_decimal (reads : value.readsBack decimal = true) :
    Around value (decimal * unitsInOne) (10 ^ finestPlace) :=
  around_of_readsBack reads rfl (Nat.pow_pos (by decide))

theorem unitsInOne_pos : 0 < unitsInOne := Nat.pow_pos (by decide)

theorem four_mul_unitsInOne (count : Nat) : 4 * (count * unitsInOne) = 2 ^ 1076 * count := by
  have quarter : 2 ^ 1076 = 4 * unitsInOne := by decide +kernel
  rw [quarter, mul_assoc, mul_comm unitsInOne]

theorem decimal_lt (reads : value.readsBack decimal = true) : decimal < 10 ^ 651 := by
  obtain ⟨bits, _, most⟩ := value.canonical
  have high := (around_decimal reads).high
  have largest : 4 * value.units + value.gapAbove ≤ 2 ^ 55 * 2 ^ 2045 := by
    have quarters :
        4 * value.units + value.gapAbove = (4 * value.significand + 2) * 2 ^ value.power := by
      rw [gapAbove_eq, units_eq]
      ring
    have bounded : 4 * value.significand + 2 ≤ 2 ^ 55 := by omega
    rw [quarters]
    exact Nat.mul_le_mul bounded (Nat.pow_le_pow_right (by decide) most)
  have bound : 2 ^ 1076 * decimal ≤ 2 ^ 1076 * (2 ^ 1024 * 10 ^ finestPlace) := by
    calc 2 ^ 1076 * decimal = 4 * (decimal * unitsInOne) := (four_mul_unitsInOne decimal).symm
      _ ≤ 2 ^ 55 * 2 ^ 2045 * 10 ^ finestPlace := le_trans high (Nat.mul_le_mul_right _ largest)
      _ = 2 ^ 1076 * (2 ^ 1024 * 10 ^ finestPlace) := by
          rw [show 2 ^ 55 * 2 ^ 2045 = 2 ^ 1076 * 2 ^ 1024 by decide +kernel, mul_assoc]
  calc decimal ≤ 2 ^ 1024 * 10 ^ finestPlace :=
        Nat.le_of_mul_le_mul_left bound (Nat.pow_pos (by decide))
    _ < 10 ^ 651 := by decide +kernel

theorem le_decimal (reads : value.readsBack decimal = true) (nonzero : value.significand ≠ 0) :
    10 ^ 18 ≤ decimal := by
  have low := (around_decimal reads).low
  have least : 2 ≤ 4 * value.units - value.gapBelow := by
    have size : 0 < 2 ^ value.power := Nat.pow_pos (by decide)
    have whole := pow_le_units nonzero
    rcases gapBelow_cases value with ⟨_, _, gap⟩ | ⟨_, gap⟩ <;> omega
  by_contra less
  have bound : 2 * 10 ^ finestPlace ≤ 2 ^ 1076 * 10 ^ 18 := by
    calc 2 * 10 ^ finestPlace ≤ 4 * (decimal * unitsInOne) :=
          le_trans (Nat.mul_le_mul_right _ least) low
      _ = 2 ^ 1076 * decimal := four_mul_unitsInOne decimal
      _ ≤ 2 ^ 1076 * 10 ^ 18 := Nat.mul_le_mul_left _ (by omega)
  exact absurd bound (by decide +kernel)

/-! ## The shortest decimal -/

variable {tie : Tie} {place : Nat}

theorem readsBack_of_nearestOnGrid? {digits : Nat}
    (found : value.nearestOnGrid? tie place = some digits) :
    value.readsBack (digits * 10 ^ place) = true := by
  simp only [nearestOnGrid?, Nat.pow_eq] at found
  generalize value.scaledFour / (10 ^ place * 4 * unitsInOne) = below at found
  generalize value.scaledFour % (10 ^ place * 4 * unitsInOne) = excess at found
  split at found
  · rename_i lower upper
    rcases ite_eq_iff.mp (Option.some.inj found) with ⟨_, rfl⟩ | ⟨_, rfl⟩
    · exact upper
    · exact lower
  · rename_i lower _
    rw [← Option.some.inj found]
    exact lower
  · rename_i _ upper
    rw [← Option.some.inj found]
    exact upper
  · exact absurd found (by simp)

/-- A decimal at most as large as the double reads back if it lies above the lower end. -/
theorem readsBack_of_le (low : (4 * value.units - value.gapBelow) * 10 ^ finestPlace <
    decimal * 4 * unitsInOne) (high : decimal * 4 * unitsInOne ≤ value.scaledFour) :
    value.readsBack decimal = true := by
  have size : 0 < value.gapAbove * 10 ^ finestPlace :=
    Nat.mul_pos (by rw [gapAbove_eq]; positivity) (Nat.pow_pos (by decide))
  have upper : decimal * 4 * unitsInOne < (4 * value.units + value.gapAbove) * 10 ^ finestPlace := by
    rw [Nat.add_mul]
    rw [scaledFour, Nat.pow_eq] at high
    omega
  simp only [readsBack, Nat.pow_eq]
  split
  · simpa using ⟨low.le, upper.le⟩
  · simpa using ⟨low, upper⟩

/-- A decimal larger than the double reads back if it lies below the upper end. -/
theorem readsBack_of_lt (low : value.scaledFour < decimal * 4 * unitsInOne)
    (high : decimal * 4 * unitsInOne < (4 * value.units + value.gapAbove) * 10 ^ finestPlace) :
    value.readsBack decimal = true := by
  have lower : (4 * value.units - value.gapBelow) * 10 ^ finestPlace < decimal * 4 * unitsInOne := by
    refine lt_of_le_of_lt ?_ low
    exact Nat.mul_le_mul_right _ (Nat.sub_le ..)
  simp only [readsBack, Nat.pow_eq]
  split
  · simpa using ⟨lower.le, high.le⟩
  · simpa using ⟨lower, high⟩

/-- A grid that is finer than the interval of the double has a point in it. -/
theorem exists_nearestOnGrid? (fine : 10 ^ place * 4 * unitsInOne <
      (value.gapBelow + value.gapAbove) * 10 ^ finestPlace)
    (gap : value.gapBelow ≤ 4 * value.units) :
    ∃ digits, value.nearestOnGrid? tie place = some digits := by
  have positive : 0 < 10 ^ place * 4 * unitsInOne :=
    Nat.mul_pos (Nat.mul_pos (Nat.pow_pos (by decide)) (by decide)) unitsInOne_pos
  have point (count : Nat) : count * 10 ^ place * 4 * unitsInOne =
      count * (10 ^ place * 4 * unitsInOne) := by
    simp only [mul_assoc]
  have division := Nat.div_add_mod value.scaledFour (10 ^ place * 4 * unitsInOne)
  have remainder := Nat.mod_lt value.scaledFour positive
  have hit :
      value.readsBack (value.scaledFour / (10 ^ place * 4 * unitsInOne) * 10 ^ place) = true ∨
        value.readsBack
          ((value.scaledFour / (10 ^ place * 4 * unitsInOne) + 1) * 10 ^ place) = true := by
    generalize 10 ^ place * 4 * unitsInOne = step at *
    generalize value.scaledFour / step = below at *
    by_cases low : (4 * value.units - value.gapBelow) * 10 ^ finestPlace < below * step
    · left
      apply readsBack_of_le
      · rw [point]
        exact low
      · rw [point, mul_comm]
        omega
    · right
      apply readsBack_of_lt
      · rw [point, Nat.add_mul, mul_comm below]
        omega
      · have width : (4 * value.units + value.gapAbove) * 10 ^ finestPlace =
            (4 * value.units - value.gapBelow) * 10 ^ finestPlace +
              (value.gapBelow + value.gapAbove) * 10 ^ finestPlace := by
          rw [← Nat.add_mul]
          congr 1
          omega
        rw [point, Nat.add_mul]
        omega
  simp only [nearestOnGrid?, Nat.pow_eq]
  rcases hit with below | above
  · rw [below]
    split <;> simp_all
  · rw [above]
    split <;> simp_all

theorem gapBelow_le (nonzero : value.significand ≠ 0) : value.gapBelow ≤ 4 * value.units := by
  have whole := pow_le_units nonzero
  rcases gapBelow_cases value with ⟨_, _, gap⟩ | ⟨_, gap⟩ <;> omega

/-- The grid with seventeen digits is finer than the interval of the double. -/
theorem seventeen_fine (leading : 10 ^ (place + 16) ≤ value.units * 10 ^ finestPlace / unitsInOne) :
    10 ^ place * 4 * unitsInOne < (value.gapBelow + value.gapAbove) * 10 ^ finestPlace := by
  obtain ⟨bits, _⟩ := value.canonical
  have size : 0 < 2 ^ value.power := Nat.pow_pos (by decide)
  have narrow : 4 * value.units < (value.gapBelow + value.gapAbove) * 10 ^ 16 := by
    rw [gapAbove_eq, units_eq]
    have nat_bits : value.significand * 2 ^ value.power < 2 ^ 53 * 2 ^ value.power :=
      Nat.mul_lt_mul_of_pos_right bits size
    rcases gapBelow_cases value with ⟨least, _, gap⟩ | ⟨_, gap⟩
    · rw [gap, least]
      omega
    · rw [gap]
      omega
  have leading := (Nat.le_div_iff_mul_le unitsInOne_pos).mp leading
  have place_pos : 0 < 10 ^ finestPlace := Nat.pow_pos (by decide)
  apply Nat.lt_of_mul_lt_mul_right (a := 10 ^ 16)
  calc 10 ^ place * 4 * unitsInOne * 10 ^ 16
      = 4 * (10 ^ (place + 16) * unitsInOne) := by rw [pow_add]; ring
    _ ≤ 4 * (value.units * 10 ^ finestPlace) := Nat.mul_le_mul_left _ leading
    _ = 4 * value.units * 10 ^ finestPlace := (mul_assoc ..).symm
    _ < (value.gapBelow + value.gapAbove) * 10 ^ 16 * 10 ^ finestPlace :=
        Nat.mul_lt_mul_of_pos_right narrow place_pos
    _ = (value.gapBelow + value.gapAbove) * 10 ^ finestPlace * 10 ^ 16 := by ring

/-- The digits with their exponent are the decimal, counted in units of `10 ^ (-342)`. -/
def Spells (digits : Nat) (exponent : Int) (decimal : Nat) : Prop :=
  ∃ place : Nat, exponent + finestPlace = place ∧ digits * 10 ^ place = decimal

theorem firstHit_spells {length : Nat}
    (fine : ∃ digits, value.nearestOnGrid? tie (length - 17) = some digits) (remaining : Nat)
    {count : Nat} (left : count + remaining = 18) (more : remaining ≠ 0) :
    ∃ decimal, value.readsBack decimal = true ∧
      Spells (value.firstHit tie length count remaining).digits
        (value.firstHit tie length count remaining).exponent decimal := by
  fun_induction firstHit tie value length count remaining with
  | case1 => exact absurd rfl more
  | case2 count remaining place digits hit =>
      exact ⟨digits * 10 ^ place, readsBack_of_nearestOnGrid? hit, place, by simp, rfl⟩
  | case3 count remaining place miss induction =>
      apply induction (by omega)
      rintro rfl
      obtain rfl : count = 17 := by omega
      obtain ⟨digits, hit⟩ := fine
      rw [hit] at miss
      exact absurd miss (by simp)

/-- The shortest decimal of a double that is not zero reads back. -/
theorem shortest_spells (tie : Tie) (nonzero : value.significand ≠ 0) :
    ∃ decimal, value.readsBack decimal = true ∧
      Spells (value.shortest tie).digits (value.shortest tie).exponent decimal := by
  have units_pos : 1 ≤ value.units := le_trans (Nat.pow_pos (by decide)) (pow_le_units nonzero)
  have large : 10 ^ 18 ≤ value.units * 10 ^ finestPlace / unitsInOne := by
    rw [Nat.le_div_iff_mul_le unitsInOne_pos]
    calc 10 ^ 18 * unitsInOne ≤ 1 * 10 ^ finestPlace := by decide +kernel
      _ ≤ value.units * 10 ^ finestPlace := Nat.mul_le_mul_right _ units_pos
  have long : 18 < (Nat.toDigits 10 (value.units * 10 ^ finestPlace / unitsInOne)).length := by
    by_contra short
    have small := (Nat.length_toDigits_le_iff (by decide) (by decide)).mp (Nat.le_of_not_lt short)
    exact absurd large (Nat.not_le_of_lt small)
  have leading : 10 ^ ((Nat.toDigits 10 (value.units * 10 ^ finestPlace / unitsInOne)).length - 17 + 16)
      ≤ value.units * 10 ^ finestPlace / unitsInOne := by
    by_contra less
    have short := (Nat.length_toDigits_le_iff (by decide) (by omega)).mpr (Nat.lt_of_not_le less)
    omega
  exact firstHit_spells (exists_nearestOnGrid? (seventeen_fine leading) (gapBelow_le nonzero)) 17
    rfl (by decide)

theorem ofDecimal?_eq {digits count : Nat} {exponent : Int} (reads : value.readsBack decimal = true)
    (nonzero : value.significand ≠ 0) (spells : Spells digits exponent decimal)
    (low : 10 ^ count ≤ 10 * digits) (high : digits < 10 ^ count) :
    ofDecimal? value.negative digits count exponent = some value := by
  obtain ⟨place, exponent_eq, decimal_eq⟩ := spells
  have most := decimal_lt reads
  have least := le_decimal reads nonzero
  have scale : 0 < 10 ^ place := Nat.pow_pos (by decide)
  have some_digits : digits ≠ 0 := by
    rintro rfl
    omega
  have notLarge : count + place < 652 := by
    apply (Nat.pow_lt_pow_iff_right (a := 10) (by decide)).mp
    calc 10 ^ (count + place) = 10 ^ count * 10 ^ place := pow_add ..
      _ ≤ 10 * digits * 10 ^ place := Nat.mul_le_mul_right _ low
      _ = 10 * decimal := by rw [mul_assoc, decimal_eq]
      _ < 10 * 10 ^ 651 := Nat.mul_lt_mul_of_pos_left most (by decide)
      _ = 10 ^ 652 := by decide +kernel
  have notSmall : 18 < count + place := by
    apply (Nat.pow_lt_pow_iff_right (a := 10) (by decide)).mp
    calc 10 ^ 18 ≤ digits * 10 ^ place := by rw [decimal_eq]; exact least
      _ < 10 ^ count * 10 ^ place := Nat.mul_lt_mul_of_pos_right high scale
      _ = 10 ^ (count + place) := (pow_add ..).symm
  have finest : (finestPlace : Int) = 342 := rfl
  unfold ofDecimal?
  rw [if_neg some_digits, if_neg (by omega), if_neg (by omega)]
  cases exponent with
  | ofNat places =>
      have place_eq : place = places + finestPlace := by
        simp only [Int.ofNat_eq_natCast] at exponent_eq
        omega
      have same : digits * 10 ^ places * 10 ^ finestPlace = decimal * 1 := by
        rw [mul_one, ← decimal_eq, place_eq, pow_add, mul_assoc]
      exact (around_of_readsBack reads same (by decide)).nearest? (by decide)
  | negSucc places =>
      have places_eq : finestPlace = place + (places + 1) := by
        omega
      have same : digits * 10 ^ finestPlace = decimal * 10 ^ (places + 1) := by
        rw [← decimal_eq, places_eq, pow_add, mul_assoc]
      have denominator : 0 < 10 ^ (places + 1) := Nat.pow_pos (by decide)
      exact (around_of_readsBack reads same denominator).nearest? denominator

end Double

end TableDdl
