import TableDdl.Json.Basic
import TableDdl.Number.Reader
import TableDdl.Token.Scan

/-!
# Values from JSON text

A text is one value with blanks around it. Nothing may follow the value, lists and objects have no
comma after their last part, and a number has no leading zero. An integer is kept exactly; minus
zero is a double, as no integer has that sign.
-/

namespace TableDdl

namespace Json

/-- What a reader found in some characters, and the shorter rest. -/
structure Read (α : Type) (start : List Char) where
  /-- What was found. -/
  value : α
  /-- The characters that are left. -/
  rest : List Char
  /-- At least one character was read. -/
  shorter : rest.length < start.length

/-- The character is one of the four blanks of JSON. -/
def isSpace (character : Char) : Bool :=
  character = ' ' || character = '\n' || character = '\t' || character = '\r'

/-- The characters without the blanks at the front. -/
def skipSpace (characters : List Char) : List Char := characters.dropWhile isSpace

theorem length_skipSpace_le (characters : List Char) :
    (skipSpace characters).length ≤ characters.length :=
  (List.dropWhile_suffix _).length_le

/-- The value of a hexadecimal digit. -/
def hexValue? (character : Char) : Option Nat :=
  if character.isDigit then some (character.toNat - '0'.toNat)
  else if 'a' ≤ character ∧ character ≤ 'f' then some (character.toNat - 'a'.toNat + 10)
  else if 'A' ≤ character ∧ character ≤ 'F' then some (character.toNat - 'A'.toNat + 10)
  else none

/-- The value of four hexadecimal digits. -/
def hexValues? (first second third fourth : Char) : Option Nat := do
  return 4096 * (← hexValue? first) + 256 * (← hexValue? second) + 16 * (← hexValue? third) +
    (← hexValue? fourth)

/-- The unit is the first half of a surrogate pair. -/
def isHighSurrogate (unit : Nat) : Bool := 0xd800 ≤ unit && unit < 0xdc00

/-- The unit is the second half of a surrogate pair. -/
def isLowSurrogate (unit : Nat) : Bool := 0xdc00 ≤ unit && unit < 0xe000

/-- The character of a surrogate pair. -/
def pairCharacter (high low : Nat) : Char :=
  Char.ofNat (0x10000 + 1024 * (high - 0xd800) + (low - 0xdc00))

/-- The character for which a backslash and the given letter stand. -/
def shortEscape? (letter : Char) : Option Char :=
  if letter = '\x22' ∨ letter = '\\' ∨ letter = '/' then some letter
  else if letter = 'b' then some '\x08'
  else if letter = 'f' then some '\x0c'
  else if letter = 'n' then some '\n'
  else if letter = 'r' then some '\r'
  else if letter = 't' then some '\t'
  else none

/-- One element of a string: its closing quote, a character, or half of a surrogate pair. -/
inductive Element where
  /-- The closing quote. -/
  | closing
  /-- A character, as it is or escaped. -/
  | character (value : Char)
  /-- An escaped half of a surrogate pair. -/
  | surrogate (unit : Nat)

/-- The escape of a code unit after its backslash and letter. -/
def unitEscape? {start : List Char} (first second third fourth : Char) (rest : List Char)
    (shorter : rest.length < start.length) : Option (Read Element start) :=
  (hexValues? first second third fourth).map fun unit =>
    if isHighSurrogate unit || isLowSurrogate unit then ⟨.surrogate unit, rest, shorter⟩
    else ⟨.character (Char.ofNat unit), rest, shorter⟩

/-- The next element of a string. -/
def elementAt? : (characters : List Char) → Option (Read Element characters)
  | [] => none
  | '\\' :: 'u' :: first :: second :: third :: fourth :: rest =>
      unitEscape? first second third fourth rest (Nat.lt_add_of_pos_right (k := 6) (by decide))
  | '\\' :: letter :: rest =>
      (shortEscape? letter).map fun value =>
        ⟨.character value, rest, Nat.lt_succ_of_lt (Nat.lt_succ_self _)⟩
  | character :: rest =>
      if character = '\x22' then some ⟨.closing, rest, Nat.lt_succ_self _⟩
      else if character = '\\' ∨ character.toNat < 32 then none
      else some ⟨.character character, rest, Nat.lt_succ_self _⟩

/-- The elements of a string up to its closing quote, in order. -/
def elementsAt? (characters : List Char) : Option (Read (List Element) characters) :=
  match elementAt? characters with
  | none => none
  | some ⟨.closing, rest, shorter⟩ => some ⟨[], rest, shorter⟩
  | some ⟨element, rest, shorter⟩ =>
      (elementsAt? rest).map fun read =>
        ⟨element :: read.value, read.rest, Nat.lt_trans read.shorter shorter⟩
termination_by characters.length

/-- The text of the elements, if every half of a surrogate pair has its other half. -/
def text? : List Element → Option (List Char)
  | [] => some []
  | .character value :: rest => (text? rest).map (value :: ·)
  | .surrogate high :: .surrogate low :: rest =>
      if isHighSurrogate high && isLowSurrogate low then
        (text? rest).map (pairCharacter high low :: ·)
      else none
  | _ :: _ => none

/-- The text of a number: its sign, its digits, a fraction and an exponent. -/
structure Numeral where
  /-- The minus sign. -/
  negative : Bool
  /-- The digits before the point. -/
  whole : List Char
  /-- The point and the digits after it. -/
  fraction : List Char
  /-- The exponent with its letter. -/
  exponent : List Char

namespace Numeral

/-- The numeral at the front of the characters, without its sign. -/
def scan (negative : Bool) (characters : List Char) : Numeral :=
  let whole := Scan.digits characters
  let afterWhole := characters.drop whole.length
  let fraction := Scan.fraction afterWhole
  ⟨negative, whole, fraction, Scan.exponent (afterWhole.drop fraction.length)⟩

/-- The number of characters of the numeral, without its sign. -/
def length (numeral : Numeral) : Nat :=
  numeral.whole.length + numeral.fraction.length + numeral.exponent.length

/-- The digits before the point are there and have no leading zero, and a point has digits after
it. -/
def isWellFormed (numeral : Numeral) : Bool :=
  numeral.whole ≠ [] && (numeral.whole.head? ≠ some '0' || numeral.whole.length = 1) &&
    numeral.fraction.length ≠ 1

/-- The value of the numeral. -/
def value (numeral : Numeral) : Json :=
  if numeral.fraction = [] ∧ numeral.exponent = [] then
    let whole := Number.ofDigits numeral.whole
    if numeral.negative ∧ whole = 0 then double (Double.zero true)
    else integer (if numeral.negative then -whole else whole)
  else
    match (Number.exponent? numeral.exponent).bind
      (Number.decimal? numeral.negative numeral.whole (numeral.fraction.drop 1)) with
    | some value => double value
    | none => unrepresentable

end Numeral

/-- The number at the front of the characters. -/
def numberAt? : (characters : List Char) → Option (Read Json characters)
  | [] => none
  | first :: rest =>
      let negative : Bool := first = '-'
      let unsigned := if negative then rest else first :: rest
      let numeral := Numeral.scan negative unsigned
      let left := unsigned.drop numeral.length
      if numeral.isWellFormed then
        if shorter : left.length < (first :: rest).length then some ⟨numeral.value, left, shorter⟩
        else none
      else none

/-- The keyword at the front of the characters. -/
def keywordAt? (characters : List Char) : Option (Read Json characters) :=
  if starts : "null".toList <+: characters then
    some ⟨null, characters.drop 4, by have := starts.length_le; simp at this ⊢; omega⟩
  else if starts : "true".toList <+: characters then
    some ⟨bool true, characters.drop 4, by have := starts.length_le; simp at this ⊢; omega⟩
  else if starts : "false".toList <+: characters then
    some ⟨bool false, characters.drop 5, by have := starts.length_le; simp at this ⊢; omega⟩
  else none

/-- The given mark after blanks. -/
def markAt? (mark : Char) (characters : List Char) : Option (Read Unit characters) :=
  match skipped : skipSpace characters with
  | [] => none
  | first :: rest =>
      if first = mark then
        some ⟨(), rest, by
          have bound := length_skipSpace_le characters
          rw [skipped] at bound
          simp only [List.length_cons] at bound
          omega⟩
      else none

/-- The string at the front of the characters; the inner `none` is one with half of a surrogate
pair. -/
def stringAt? (characters : List Char) : Option (Read (Option String) characters) :=
  (markAt? '\x22' characters).bind fun opened =>
    (elementsAt? opened.rest).map fun read =>
      ⟨(text? read.value).map String.ofList, read.rest, Nat.lt_trans read.shorter opened.shorter⟩

/-- What follows the first character after blanks is shorter. -/
theorem length_lt_of_skipSpace_eq_cons {characters rest : List Char} {first : Char}
    (skipped : skipSpace characters = first :: rest) : rest.length < characters.length := by
  have bound := length_skipSpace_le characters
  rw [skipped, List.length_cons] at bound
  omega

/-- What is shorter than the characters after blanks is shorter than all of them. -/
theorem length_lt_of_skipSpace_eq {characters start rest : List Char}
    (skipped : skipSpace characters = start) (shorter : rest.length < start.length) :
    rest.length < characters.length := by
  have bound := length_skipSpace_le characters
  rw [skipped] at bound
  omega

mutual

/-- The value at the front of the characters, after blanks. -/
def valueAt? (characters : List Char) : Option (Read Json characters) :=
  match skipped : skipSpace characters with
  | [] => none
  | '\x22' :: _ =>
      (stringAt? characters).map fun read =>
        ⟨match read.value with
          | some text => string text
          | none => unrepresentable, read.rest, read.shorter⟩
  | '[' :: rest =>
      have inside := length_lt_of_skipSpace_eq_cons skipped
      match markAt? ']' rest with
      | some closed => some ⟨array [], closed.rest, Nat.lt_trans closed.shorter inside⟩
      | none => (itemsAt? rest).map fun read =>
          ⟨array read.value, read.rest, Nat.lt_trans read.shorter inside⟩
  | '\x7b' :: rest =>
      have inside := length_lt_of_skipSpace_eq_cons skipped
      match markAt? '\x7d' rest with
      | some closed => some ⟨object [], closed.rest, Nat.lt_trans closed.shorter inside⟩
      | none => (membersAt? rest).map fun read =>
          ⟨object read.value, read.rest, Nat.lt_trans read.shorter inside⟩
  | start =>
      ((keywordAt? start).or (numberAt? start)).map fun read =>
        ⟨read.value, read.rest, length_lt_of_skipSpace_eq skipped read.shorter⟩
termination_by (characters.length, 0)

/-- The items of a list and the bracket that closes it. -/
def itemsAt? (characters : List Char) : Option (Read (List Json) characters) :=
  match valueAt? characters with
  | none => none
  | some item =>
      have := item.shorter
      match markAt? ',' item.rest with
      | some comma =>
          have := comma.shorter
          (itemsAt? comma.rest).map fun read =>
            ⟨item.value :: read.value, read.rest,
              Nat.lt_trans read.shorter (Nat.lt_trans comma.shorter item.shorter)⟩
      | none => (markAt? ']' item.rest).map fun closed =>
          ⟨[item.value], closed.rest, Nat.lt_trans closed.shorter item.shorter⟩
termination_by (characters.length, 1)

/-- The members of an object and the brace that closes it. -/
def membersAt? (characters : List Char) : Option (Read (List (String × Json)) characters) :=
  match stringAt? characters with
  | none | some ⟨none, _, _⟩ => none
  | some ⟨some name, afterName, nameShorter⟩ =>
      match markAt? ':' afterName with
      | none => none
      | some colon =>
          have := colon.shorter
          match valueAt? colon.rest with
          | none => none
          | some member =>
              have := member.shorter
              match markAt? ',' member.rest with
              | some comma =>
                  have := comma.shorter
                  (membersAt? comma.rest).map fun read =>
                    ⟨(name, member.value) :: read.value, read.rest, Nat.lt_trans read.shorter
                      (Nat.lt_trans comma.shorter (Nat.lt_trans member.shorter
                        (Nat.lt_trans colon.shorter nameShorter)))⟩
              | none => (markAt? '\x7d' member.rest).map fun closed =>
                  ⟨[(name, member.value)], closed.rest, Nat.lt_trans closed.shorter
                    (Nat.lt_trans member.shorter (Nat.lt_trans colon.shorter nameShorter))⟩
termination_by (characters.length, 1)

end

/-- The value that the whole text writes. -/
def parse? (text : String) : Option Json :=
  (valueAt? text.toList).bind fun read =>
    if skipSpace read.rest = [] then some read.value else none

end Json

end TableDdl
