/-!
# Text of integers

Integers are written with decimal digits, without leading zeros, and with a minus sign if they are
negative.
-/

namespace TableDdl

namespace Number

/-- The decimal digits of a natural number. -/
def writeNat (value : Nat) : String := String.ofList (Nat.toDigits 10 value)

/-- The decimal digits of an integer after its sign. -/
def writeInt : Int → String
  | .ofNat value => writeNat value
  | .negSucc value => "-" ++ writeNat (value + 1)

end Number

end TableDdl
