import TableDdl.Number.Double

/-!
# Numbers from text

Integers are an optional sign and decimal digits, and are accepted only in the range of their type.
Decimals have an optional sign, digits with at most one point among them, and an optional exponent;
they are read as the nearest double. Either reader takes the whole text or nothing.
-/

namespace TableDdl

namespace Number

/-- The number written by decimal digits. -/
def ofDigits (digits : List Char) : Nat :=
  digits.foldl (fun number digit => 10 * number + (digit.toNat - '0'.toNat)) 0

/-- The number written by a non-empty text of decimal digits. -/
def natural? (text : List Char) : Option Nat :=
  if text ≠ [] ∧ text.all Char.isDigit then some (ofDigits text) else none

/-- The sign of a text and what follows it. -/
def splitSign : List Char → Bool × List Char
  | '-' :: rest => (true, rest)
  | '+' :: rest => (false, rest)
  | text => (false, text)

/-- The integer written by an optional sign and decimal digits. -/
def integer? (text : List Char) : Option Int :=
  let (negative, digits) := splitSign text
  (natural? digits).map fun value => if negative then -value else value

/-- The integer that the text writes, if it fits in 64 bits with a sign. -/
def int64? (text : String) : Option Int64 :=
  (integer? text.toList).bind fun value =>
    if -9223372036854775808 ≤ value ∧ value < 9223372036854775808 then some (Int64.ofInt value)
    else none

/-- The number that the text writes, if it has no minus sign and fits in 32 bits. -/
def uint32? (text : String) : Option UInt32 :=
  let digits := match text.toList with
    | '+' :: rest => rest
    | characters => characters
  (natural? digits).bind fun value =>
    if value < 4294967296 then some (UInt32.ofNat value) else none

/-- The exponent written at the end of a decimal; no text is the exponent zero. -/
def exponent? : List Char → Option Int
  | [] => some 0
  | mark :: rest => if mark = 'e' ∨ mark = 'E' then integer? rest else none

/-- The double nearest to the decimal with the given digits before and after the point. -/
def decimal? (negative : Bool) (whole fraction : List Char) (exponent : Int) : Option Double :=
  let digits := (whole ++ fraction).dropWhile (· == '0')
  Double.ofDecimal? negative (ofDigits digits) digits.length (exponent - fraction.length)

/-- The double nearest to the decimal that the text writes; `none` if the text is no decimal or no
finite double is nearest to it. -/
def double? (text : String) : Option Double :=
  let (negative, unsigned) := splitSign text.toList
  let whole := unsigned.takeWhile Char.isDigit
  let afterWhole := unsigned.dropWhile Char.isDigit
  let (fraction, afterFraction) := match afterWhole with
    | '.' :: rest => (rest.takeWhile Char.isDigit, rest.dropWhile Char.isDigit)
    | rest => ([], rest)
  if whole ++ fraction = [] then none
  else (exponent? afterFraction).bind fun exponent => decimal? negative whole fraction exponent

end Number

end TableDdl
