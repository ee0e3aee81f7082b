import TableDdl.Number.Double

/-!
# Shortest decimals

Of the decimals that read back as a given double, the shortest has the fewest digits and, among
those with as many, is the nearest to the double. A decimal with `n` digits lies on the grid of
multiples of a power of ten, so it is enough to look, for `n = 1, 2, …, 17`, at the two points of
that grid between which the double lies.

Decimals are counted in units of `10 ^ (-342)`, which is fine enough for seventeen digits of the
least double, so that every comparison is one of natural numbers.
-/

namespace TableDdl

/-- A decimal: `digits * 10 ^ exponent`. -/
structure Decimal where
  /-- The digits, as one number. -/
  digits : Nat
  /-- The power of ten by which the digits are multiplied. -/
  exponent : Int
deriving DecidableEq, Repr

/-- Which of two equally near decimals is taken. -/
inductive Tie where
  /-- The larger one. -/
  | up
  /-- The one whose last digit is even. -/
  | even
deriving DecidableEq, Repr

namespace Double

/-- The number of decimal places in which decimals are counted. -/
def finestPlace : Nat := 342

/-- Four times the units of the double, in the scale in which a decimal of `count` units of
`10 ^ (-342)` is `count * 4 * 2 ^ 1074`. -/
def scaledFour (value : Double) : Nat :=
  4 * value.units * Nat.pow 10 finestPlace

/-- Four times the distance, in units, from the double down to the least real that rounds to it.
Below the least significand of a power the doubles lie twice as close, unless it is the least
power. -/
def gapBelow (value : Double) : Nat :=
  if value.significand = 4503599627370496 ∧ value.power ≠ 0 then Nat.pow 2 value.power
  else 2 * Nat.pow 2 value.power

/-- Four times the distance, in units, from the double up to the largest real that rounds to it. -/
def gapAbove (value : Double) : Nat :=
  2 * Nat.pow 2 value.power

/-- A decimal, counted in units of `10 ^ (-342)`, reads back as the double: it lies in the interval
of reals that round to the double, whose ends belong to it if the significand is even. -/
def readsBack (value : Double) (decimal : Nat) : Bool :=
  let point := decimal * 4 * unitsInOne
  let low := (4 * value.units - value.gapBelow) * Nat.pow 10 finestPlace
  let high := (4 * value.units + value.gapAbove) * Nat.pow 10 finestPlace
  if value.significand % 2 = 0 then low ≤ point && point ≤ high
  else low < point && point < high

/-- The point of the grid of multiples of `10 ^ place` that is nearest to the double among the two
points around it that read back, if one of them does. -/
def nearestOnGrid? (tie : Tie) (value : Double) (place : Nat) : Option Nat :=
  let step := Nat.pow 10 place * 4 * unitsInOne
  let below := value.scaledFour / step
  let excess := 2 * (value.scaledFour % step)
  let upward :=
    step < excess || (step = excess && match tie with
      | .up => true
      | .even => below % 2 = 1)
  match value.readsBack (below * Nat.pow 10 place),
    value.readsBack ((below + 1) * Nat.pow 10 place) with
  | true, true => some (if upward then below + 1 else below)
  | true, false => some below
  | false, true => some (below + 1)
  | false, false => none

/-- The first hit on the grids with `count`, `count + 1`, … digits, going through `remaining`
grids; `length` is the number of digits of the double counted in units of `10 ^ (-342)`. -/
def firstHit (tie : Tie) (value : Double) (length : Nat) : Nat → Nat → Decimal
  | _, 0 => ⟨0, 0⟩
  | count, remaining + 1 =>
      let place := length - count
      match value.nearestOnGrid? tie place with
      | some digits => ⟨digits, (place : Int) - finestPlace⟩
      | none => firstHit tie value length (count + 1) remaining

/-- The shortest decimal that reads back as the magnitude of the double. -/
def shortest (tie : Tie) (value : Double) : Decimal :=
  let whole := value.units * Nat.pow 10 finestPlace / unitsInOne
  firstHit tie value (Nat.toDigits 10 whole).length 1 17

end Double

end TableDdl
