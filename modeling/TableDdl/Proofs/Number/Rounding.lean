import Mathlib.Tactic.Linarith
import Mathlib.Tactic.Ring
import TableDdl.Number.Shortest

/-!
# Rounding to a double

A fraction that lies in the interval of the reals around a double is rounded to that double. The
interval is the one in which a decimal must lie to read back, so a decimal that reads back is
rounded to its double, too.
-/

namespace TableDdl

namespace Double

/-- A fraction is rounded to each whole number that is at most a half away; one that is a half away
must be even. -/
theorem roundDiv_eq {numerator denominator whole : Nat} (positive : 0 < denominator)
    (low : 2 * (whole * denominator) ≤ 2 * numerator + denominator)
    (high : 2 * numerator ≤ 2 * (whole * denominator) + denominator)
    (odd : whole % 2 = 1 → 2 * (whole * denominator) < 2 * numerator + denominator ∧
      2 * numerator < 2 * (whole * denominator) + denominator) :
    roundDiv numerator denominator = whole := by
  have division := Nat.div_add_mod numerator denominator
  have remainder := Nat.mod_lt numerator positive
  simp only [roundDiv]
  generalize numerator / denominator = quotient at division ⊢
  generalize numerator % denominator = excess at division remainder ⊢
  subst division
  have belowNext : whole ≤ quotient + 1 := by
    by_contra above
    have far : (quotient + 2) * denominator ≤ whole * denominator :=
      Nat.mul_le_mul_right _ (by omega)
    nlinarith
  have aboveQuotient : quotient ≤ whole := by
    by_contra below
    have far : (whole + 1) * denominator ≤ quotient * denominator :=
      Nat.mul_le_mul_right _ (by omega)
    nlinarith
  obtain rfl | rfl : whole = quotient ∨ whole = quotient + 1 := by omega
  · split
    · rfl
    · split
      · nlinarith
      · by_cases parity : whole % 2 = 1
        · have strict := odd parity
          nlinarith
        · omega
  · split
    · nlinarith
    · split
      · rfl
      · by_cases parity : (quotient + 1) % 2 = 1
        · have strict := odd parity
          nlinarith
        · omega

/-- The fraction of the number of units lies in the interval of the reals that round to the
double, counted in quarters. -/
structure Around (value : Double) (units denominator : Nat) : Prop where
  low : (4 * value.units - value.gapBelow) * denominator ≤ 4 * units
  high : 4 * units ≤ (4 * value.units + value.gapAbove) * denominator
  odd : value.significand % 2 = 1 →
    (4 * value.units - value.gapBelow) * denominator < 4 * units ∧
      4 * units < (4 * value.units + value.gapAbove) * denominator

variable {value : Double} {units denominator : Nat}

/-- The power of two that brings the fraction to a significand of 53 bits. -/
theorem log2_div_sub {power : Nat} (positive : 0 < denominator)
    (low : power = 0 ∨ 2 ^ 52 * 2 ^ power * denominator ≤ units)
    (high : units < 2 ^ 53 * 2 ^ power * denominator) :
    (units / denominator).log2 - 52 = power := by
  have above : units / denominator < 2 ^ (53 + power) := by
    rw [Nat.div_lt_iff_lt_mul positive, pow_add]
    exact high
  by_cases zero : units / denominator = 0
  · rcases low with rfl | low
    · simp [zero]
    · have one : 1 * denominator ≤ units :=
        le_trans (Nat.mul_le_mul_right _ (Nat.mul_pos (by positivity) (by positivity))) low
      rw [Nat.div_eq_zero_iff] at zero
      omega
  · have bits : (units / denominator).log2 < 53 + power := (Nat.log2_lt zero).mpr above
    rcases low with rfl | low
    · omega
    · have below : 2 ^ (52 + power) ≤ units / denominator := by
        rw [Nat.le_div_iff_mul_le positive, pow_add]
        exact low
      have enough : 52 + power ≤ (units / denominator).log2 := (Nat.le_log2 zero).mpr below
      omega

theorem units_eq : value.units = value.significand * 2 ^ value.power := rfl

theorem gapAbove_eq : value.gapAbove = 2 * 2 ^ value.power := rfl

theorem gapBelow_cases (value : Double) :
    value.significand = 2 ^ 52 ∧ value.power ≠ 0 ∧ value.gapBelow = 2 ^ value.power ∨
      ¬ (value.significand = 2 ^ 52 ∧ value.power ≠ 0) ∧ value.gapBelow = 2 * 2 ^ value.power := by
  unfold gapBelow
  split
  · rename_i least
    exact .inl ⟨least.1, least.2, rfl⟩
  · rename_i other
    exact .inr ⟨other, rfl⟩

theorem ofParts?_self : ofParts? value.negative value.significand value.power = some value := by
  rw [ofParts?, dif_pos value.canonical]

/-- At the scale of the double, the fraction is rounded to its significand. -/
theorem Around.roundDiv (around : Around value units denominator) (positive : 0 < denominator)
    (wide : value.gapBelow = 2 * 2 ^ value.power ∨
      value.significand * (denominator * 2 ^ value.power) ≤ units) :
    roundDiv units (denominator * 2 ^ value.power) = value.significand := by
  obtain ⟨low, high, odd⟩ := around
  have size : 0 < 2 ^ value.power := by positivity
  rw [gapAbove_eq] at high odd
  simp only [units_eq] at low high odd
  have scale : 0 < denominator * 2 ^ value.power := Nat.mul_pos positive size
  by_cases zero : value.significand = 0
  · rw [zero] at high
    apply roundDiv_eq scale
    · simp [zero]
    · rw [zero]
      nlinarith
    · simp [zero]
  · have whole : 2 ^ value.power ≤ value.significand * 2 ^ value.power :=
      Nat.le_mul_of_pos_left _ (by omega)
    rcases wide with gap | above
    · rw [gap] at low odd
      obtain ⟨rest, rest_eq⟩ : ∃ rest, 4 * (value.significand * 2 ^ value.power) =
          rest + 2 * 2 ^ value.power := ⟨_, (Nat.sub_add_cancel (by omega)).symm⟩
      rw [rest_eq, Nat.add_sub_cancel] at low odd
      rw [rest_eq] at high
      have spread : 4 * (value.significand * (denominator * 2 ^ value.power)) =
          rest * denominator + 2 * (denominator * 2 ^ value.power) := by
        calc 4 * (value.significand * (denominator * 2 ^ value.power))
            = 4 * (value.significand * 2 ^ value.power) * denominator := by ring
          _ = _ := by rw [rest_eq]; ring
      apply roundDiv_eq scale
      · nlinarith
      · nlinarith
      · intro parity
        have strict := odd parity
        constructor <;> nlinarith
    · apply roundDiv_eq scale
      · nlinarith
      · nlinarith
      · intro parity
        have strict := odd parity
        constructor <;> nlinarith

/-- Below the least significand of its power, a double is reached by rounding up at the power
before. -/
theorem Around.roundDiv_pred {power : Nat} (around : Around value units denominator)
    (positive : 0 < denominator) (succ : value.power = power + 1)
    (least : value.significand = 2 ^ 52) (gap : value.gapBelow = 2 ^ value.power)
    (below : units < 2 ^ 52 * 2 ^ value.power * denominator) :
    (units / denominator).log2 - 52 = power ∧
      Double.roundDiv units (denominator * 2 ^ power) = 2 ^ 53 := by
  have low := around.low
  have double : 2 ^ value.power = 2 * 2 ^ power := by rw [succ, pow_succ, mul_comm]
  have spread : 4 * value.units - value.gapBelow = (2 ^ 55 - 2) * 2 ^ power := by
    rw [gap, units_eq, least, double, Nat.sub_mul]
    ring_nf
  have close : (2 ^ 55 - 2) * (denominator * 2 ^ power) ≤ 4 * units := by
    rw [spread, mul_assoc, mul_comm _ denominator] at low
    exact low
  have upper : units < 2 ^ 53 * (denominator * 2 ^ power) := by
    rw [double] at below
    linarith
  have scale : 0 < denominator * 2 ^ power := Nat.mul_pos positive (by positivity)
  constructor
  · apply log2_div_sub positive
    · right
      rw [mul_assoc, mul_comm _ denominator]
      omega
    · rw [mul_assoc, mul_comm _ denominator]
      exact upper
  · apply roundDiv_eq scale
    · omega
    · omega
    · intro parity
      exact absurd parity (by decide)

/-- Of the doubles, the one around which a fraction lies is the nearest. -/
theorem Around.nearest? {numerator : Nat}
    (around : Around value (numerator * unitsInOne) denominator) (positive : 0 < denominator) :
    nearest? value.negative numerator denominator = some value := by
  obtain ⟨bits, normal, _⟩ := value.canonical
  simp only [Double.nearest?, Nat.pow_eq]
  generalize numerator * unitsInOne = units at around ⊢
  have high : units < 2 ^ 53 * 2 ^ value.power * denominator := by
    have high := around.high
    rw [gapAbove_eq, units_eq] at high
    have size : 0 < 2 ^ value.power * denominator := Nat.mul_pos (by positivity) positive
    have most : (4 * value.significand + 2) * (2 ^ value.power * denominator) <
        2 ^ 55 * (2 ^ value.power * denominator) :=
      Nat.mul_lt_mul_of_pos_right (by omega) size
    nlinarith
  by_cases below : value.power ≠ 0 ∧ units < 2 ^ 52 * 2 ^ value.power * denominator
  · obtain ⟨nonzero, below⟩ := below
    obtain ⟨power, succ⟩ := Nat.exists_eq_succ_of_ne_zero nonzero
    rcases gapBelow_cases value with ⟨least, _, gap⟩ | ⟨other, gap⟩
    · obtain ⟨scale, rounded⟩ := around.roundDiv_pred positive succ least gap below
      have parts : ofParts? value.negative (2 ^ 52) (power + 1) = some value := by
        rw [← least, ← Nat.succ_eq_add_one, ← succ, ofParts?_self]
      rw [scale, rounded, if_pos (by norm_num)]
      exact parts
    · -- A larger significand keeps the fraction at the power of the double.
      have larger : 2 ^ 52 + 1 ≤ value.significand := by omega
      have low := around.low
      rw [gap, units_eq] at low
      have least : (2 ^ 52 + 1) * 2 ^ value.power ≤ value.significand * 2 ^ value.power :=
        Nat.mul_le_mul_right _ larger
      have spread : 2 ^ 54 * 2 ^ value.power ≤
          4 * (value.significand * 2 ^ value.power) - 2 * 2 ^ value.power := by omega
      have contradiction := le_trans (Nat.mul_le_mul_right denominator spread) low
      nlinarith
  · have low : value.power = 0 ∨ 2 ^ 52 * 2 ^ value.power * denominator ≤ units := by
      omega
    have wide : value.gapBelow = 2 * 2 ^ value.power ∨
        value.significand * (denominator * 2 ^ value.power) ≤ units := by
      rcases gapBelow_cases value with ⟨least, nonzero, _⟩ | ⟨_, gap⟩
      · right
        rw [least]
        have low := low.resolve_left nonzero
        nlinarith
      · exact .inl gap
    rw [log2_div_sub positive low high, around.roundDiv positive wide,
      if_neg (by omega), ofParts?_self]

/-- A fraction that is a decimal which reads back lies around the double. -/
theorem around_of_readsBack {decimal numerator : Nat} (reads : value.readsBack decimal = true)
    (same : numerator * 10 ^ finestPlace = decimal * denominator) (positive : 0 < denominator) :
    Around value (numerator * unitsInOne) denominator := by
  have place : 0 < 10 ^ finestPlace := by positivity
  have point : 4 * (numerator * unitsInOne) * 10 ^ finestPlace =
      decimal * 4 * unitsInOne * denominator := by
    calc 4 * (numerator * unitsInOne) * 10 ^ finestPlace
        = numerator * 10 ^ finestPlace * 4 * unitsInOne := by ring
      _ = decimal * 4 * unitsInOne * denominator := by rw [same]; ring
  have scaled (bound : Nat) : bound * denominator * 10 ^ finestPlace =
      bound * 10 ^ finestPlace * denominator := by ring
  simp only [readsBack, Nat.pow_eq] at reads
  split at reads
  · rename_i even
    simp only [Bool.and_eq_true, decide_eq_true_eq] at reads
    refine ⟨?_, ?_, fun odd => by omega⟩
    · apply Nat.le_of_mul_le_mul_right _ place
      rw [point, scaled]
      exact Nat.mul_le_mul_right _ reads.1
    · apply Nat.le_of_mul_le_mul_right _ place
      rw [point, scaled]
      exact Nat.mul_le_mul_right _ reads.2
  · simp only [Bool.and_eq_true, decide_eq_true_eq] at reads
    have low : (4 * value.units - value.gapBelow) * denominator < 4 * (numerator * unitsInOne) := by
      apply Nat.lt_of_mul_lt_mul_right (a := 10 ^ finestPlace)
      rw [point, scaled]
      exact Nat.mul_lt_mul_of_pos_right reads.1 positive
    have high : 4 * (numerator * unitsInOne) < (4 * value.units + value.gapAbove) * denominator := by
      apply Nat.lt_of_mul_lt_mul_right (a := 10 ^ finestPlace)
      rw [point, scaled]
      exact Nat.mul_lt_mul_of_pos_right reads.2 positive
    exact ⟨low.le, high.le, fun _ => ⟨low, high⟩⟩

end Double

end TableDdl
