import TableDdl.Text.Numeral
import TableDdl.Text.Quoted
import TableDdl.Token.Basic

/-!
# Scanning the characters of one token

The scanners of this file read what follows an opening mark, or the longest run of characters of a
class, and give back what is left. Inside a string a backslash takes the character after it as it
is, except that the letters `n`, `t` and `r` and the digit `0` stand for control characters; a line
break after a backslash is not counted as one.
-/

namespace TableDdl

namespace Scan

/-- What scanning after an opening mark gives. -/
inductive Delimited where
  /-- The closing mark was found at a place; `rest` follows it. -/
  | closed (text : List Char) (closing : Location) (rest : List Char)
  /-- The text ended before a closing mark. -/
  | unclosed (text : List Char)
deriving DecidableEq, Repr

namespace Delimited

/-- The same, with one more character at the front of the text. -/
def push (character : Char) : Delimited → Delimited
  | closed text closing rest => closed (character :: text) closing rest
  | unclosed text => unclosed (character :: text)

/-- What is left after the closing mark. -/
def rest : Delimited → List Char
  | closed _ _ rest => rest
  | unclosed _ => []

@[simp] theorem rest_closed (text : List Char) (closing : Location) (left : List Char) :
    (closed text closing left).rest = left := rfl

@[simp] theorem rest_unclosed (text : List Char) : (unclosed text).rest = [] := rfl

@[simp] theorem rest_push (character : Char) (scanned : Delimited) :
    (scanned.push character).rest = scanned.rest := by
  cases scanned <;> rfl

end Delimited

/-- The character that a backslash and the given character stand for. -/
def escaped (character : Char) : Char :=
  if character = 'n' then '\n'
  else if character = 't' then '\t'
  else if character = 'r' then '\r'
  else if character = '0' then '\x00'
  else character

/-- The rest of a quoted string, after its opening quote. A doubled quote is one quote. -/
def string (quote : Char) (location : Location) : List Char → Delimited
  | [] => .unclosed []
  | [character] =>
      if character = Text.backslash then .unclosed []
      else if character = quote then .closed [] location []
      else .unclosed [character]
  | character :: next :: rest =>
      if character = Text.backslash then
        (string quote (location.right 2) rest).push (escaped next)
      else if character = quote then
        if next = quote then (string quote (location.right 2) rest).push quote
        else .closed [] location (next :: rest)
      else (string quote (location.after character) (next :: rest)).push character

/-- The rest of a quoted name, after its opening backtick. A doubled backtick is one backtick. -/
def name (location : Location) : List Char → Delimited
  | [] => .unclosed []
  | [character] =>
      if character = Text.backtick then .closed [] location [] else .unclosed [character]
  | character :: next :: rest =>
      if character = Text.backtick then
        if next = Text.backtick then (name (location.right 2) rest).push Text.backtick
        else .closed [] location (next :: rest)
      else (name (location.after character) (next :: rest)).push character

/-- The place and the characters after the rest of a comment, which ends with a star and a
slash. -/
def comment (location : Location) : List Char → Option (Location × List Char)
  | [] => none
  | [_] => none
  | character :: next :: rest =>
      if character = '*' ∧ next = '/' then some (location.right 2, rest)
      else comment (location.after character) (next :: rest)

/-- The longest run of ASCII digits. -/
def digits (characters : List Char) : List Char := characters.takeWhile Char.isDigit

/-- A point and the digits after it. -/
def fraction : List Char → List Char
  | '.' :: rest => '.' :: digits rest
  | _ => []

/-- The sign of an exponent. -/
def exponentSign : List Char → List Char
  | '+' :: _ => ['+']
  | '-' :: _ => ['-']
  | _ => []

/-- The letter of an exponent, its sign and its digits, of which there must be one. -/
def exponent : List Char → List Char
  | [] => []
  | mark :: rest =>
      let sign := exponentSign rest
      let power := digits (rest.drop sign.length)
      if (mark = 'e' ∨ mark = 'E') ∧ power ≠ [] then mark :: (sign ++ power) else []

/-- The longest run of characters that continue a word. -/
def word (characters : List Char) : List Char := characters.takeWhile Text.continuesWord

/-- The kind and the characters of a number. Digits that a word follows without a gap are part of
that word. -/
def number (characters : List Char) : Token.Kind × List Char :=
  let whole := digits characters
  let afterWhole := characters.drop whole.length
  let point := fraction afterWhole
  let power := exponent (afterWhole.drop point.length)
  if point = [] ∧ power = [] then
    match afterWhole with
    | next :: _ =>
        if Text.startsWord next then (.word, whole ++ word afterWhole) else (.integer, whole)
    | [] => (.integer, whole)
  else (.float, whole ++ point ++ power)

end Scan

end TableDdl
