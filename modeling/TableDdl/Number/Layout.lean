import TableDdl.Number.Shortest

/-!
# Text of a double

A double is written with its shortest digits, either positionally, with at least one digit on both
sides of the point, or with an exponent. Where the one form gives way to the other, and how the
exponent is written, is a matter of the text in which the number stands.
-/

namespace TableDdl

/-- How the digits of a double are set out. -/
structure NumberLayout where
  /-- The least exponent of the leading digit that is written positionally. -/
  leastPositional : Int
  /-- The largest exponent of the leading digit that is written positionally. -/
  greatestPositional : Int
  /-- Whether a positive exponent has a plus sign. -/
  plusSign : Bool
  /-- Which of two equally near decimals is taken. -/
  tie : Tie
deriving DecidableEq, Repr

namespace NumberLayout

/-- The digits of a number without the zeros at its end. -/
def significantDigits (digits : Nat) : List Char :=
  ((Nat.toDigits 10 digits).reverse.dropWhile (· == '0')).reverse

/-- Digits whose leading one has the given exponent, with a point and no exponent. -/
def positional (digits : List Char) : Int → List Char
  | .negSucc places => '0' :: '.' :: (List.replicate places '0' ++ digits)
  | .ofNat places =>
      let whole := digits.take (places + 1)
      let fraction := digits.drop (places + 1)
      whole ++ List.replicate (places + 1 - whole.length) '0' ++ '.' ::
        (if fraction.isEmpty then ['0'] else fraction)

/-- Digits whose leading one has the given exponent, with that exponent written out. -/
def scientific (layout : NumberLayout) (digits : List Char) (exponent : Int) : List Char :=
  let sign := if exponent < 0 then ['-'] else if layout.plusSign then ['+'] else []
  let fraction := digits.drop 1
  digits.take 1 ++ (if fraction.isEmpty then [] else '.' :: fraction) ++
    'e' :: (sign ++ Nat.toDigits 10 exponent.natAbs)

/-- The text of the magnitude of a double. -/
def magnitude (layout : NumberLayout) (value : Double) : List Char :=
  if value.significand = 0 then ['0', '.', '0']
  else
    let decimal := value.shortest layout.tie
    let exponent := decimal.exponent + ((Nat.toDigits 10 decimal.digits).length - 1 : Nat)
    let digits := significantDigits decimal.digits
    if layout.leastPositional ≤ exponent ∧ exponent ≤ layout.greatestPositional then
      positional digits exponent
    else scientific layout digits exponent

/-- The text of a double, with the sign of a negative one and of a negative zero. -/
def write (layout : NumberLayout) (value : Double) : String :=
  String.ofList (if value.negative then '-' :: layout.magnitude value else layout.magnitude value)

end NumberLayout

end TableDdl
