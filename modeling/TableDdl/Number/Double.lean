/-!
# Finite doubles

A finite double is a sign and a whole number of units of `2 ^ (-1074)`, the least positive double.
The number of units is a significand below `2 ^ 53` times a power of two, in the one form in which
the significand is as large as it can be. Because that form is part of the type, two doubles are
equal exactly if they have the same sign and the same value.
-/

namespace TableDdl

/-- The significand and the power of two are the ones by which a finite double is represented. -/
def Double.Canonical (significand power : Nat) : Prop :=
  significand < 9007199254740992 ∧ (4503599627370496 ≤ significand ∨ power = 0) ∧ power ≤ 2045

instance (significand power : Nat) : Decidable (Double.Canonical significand power) :=
  inferInstanceAs (Decidable (_ ∧ _ ∧ _))

/-- A finite double. Its magnitude is `significand * 2 ^ power` units of `2 ^ (-1074)`. -/
structure Double where
  /-- The sign; zero has one too. -/
  negative : Bool
  /-- The significand. -/
  significand : Nat
  /-- The power of two by which the significand is multiplied. -/
  power : Nat
  /-- The significand and the power are in the one form that represents the value. -/
  canonical : Double.Canonical significand power
deriving DecidableEq, Repr

namespace Double

/-- The number of units of `2 ^ (-1074)` in one. -/
def unitsInOne : Nat := Nat.pow 2 1074

/-- The magnitude in units of `2 ^ (-1074)`. -/
def units (value : Double) : Nat := value.significand * Nat.pow 2 value.power

/-- Zero with the given sign. -/
def zero (negative : Bool) : Double := ⟨negative, 0, 0, by decide⟩

/-- The double with the given parts, if they have the canonical form. -/
def ofParts? (negative : Bool) (significand power : Nat) : Option Double :=
  if form : Canonical significand power then some ⟨negative, significand, power, form⟩ else none

/-- The whole number nearest to a fraction; a half goes to the even neighbour. -/
def roundDiv (numerator denominator : Nat) : Nat :=
  let quotient := numerator / denominator
  let excess := 2 * (numerator % denominator)
  if excess < denominator then quotient
  else if denominator < excess then quotient + 1
  else quotient + quotient % 2

/-- The double nearest to a fraction, ties going to the even significand; `none` if the fraction is
so large that no finite double is the nearest. -/
def nearest? (negative : Bool) (numerator denominator : Nat) : Option Double :=
  let scaled := numerator * unitsInOne
  let power := (scaled / denominator).log2 - 52
  let significand := roundDiv scaled (denominator * Nat.pow 2 power)
  if significand = 9007199254740992 then ofParts? negative 4503599627370496 (power + 1)
  else ofParts? negative significand power

/-- The double nearest to `digits * 10 ^ exponent`. A decimal with `count` digits is not computed
if its magnitude alone shows that it is beyond the largest double or nearer to zero than to any
other double. -/
def ofDecimal? (negative : Bool) (digits count : Nat) (exponent : Int) : Option Double :=
  if digits = 0 then some (zero negative)
  else if 310 < count + exponent then none
  else if count + exponent < -330 then some (zero negative)
  else match exponent with
    | .ofNat places => nearest? negative (digits * Nat.pow 10 places) 1
    | .negSucc places => nearest? negative digits (Nat.pow 10 (places + 1))

end Double

end TableDdl
