import Mathlib.Data.Nat.Digits.Defs
import TableDdl.Proofs.Lexer.Quoting
import TableDdl.Proofs.Lexer.WellFormed
import TableDdl.Proofs.RoundTrip.Literals
import TableDdl.Proofs.Segments.Steps

/-!
# Integers are typed by value

An integer of a text may have any number of digits. As a literal it is a number if its value fits in
64 bits, and text if it does not; as a count it is taken if it has no sign and fits in 32 bits, and
refused if not. Leading zeros make no difference to either. An integer literal is written with the
digits of its value, and these are read as the same literal.
-/

namespace TableDdl

open Text (IsSign IsDigits)

/-! ## Values of digits -/

namespace Number

/-- The number that decimal digits write, the last of which counts the ones. -/
def decimalValue (digits : List Char) : Nat :=
  Nat.ofDigits 10 (digits.reverse.map fun digit => digit.toNat - '0'.toNat)

/-- The integer that decimal digits write after a minus sign or without one. -/
def signedValue : List Char → Int
  | '-' :: digits => -decimalValue digits
  | digits => decimalValue digits

theorem ofDigits_eq_decimalValue (digits : List Char) : ofDigits digits = decimalValue digits := by
  induction digits using List.reverseRecOn with
  | nil => rfl
  | append_singleton digits digit ih =>
      have last : ofDigits (digits ++ [digit]) =
          10 * ofDigits digits + (digit.toNat - '0'.toNat) := by
        simp [ofDigits]
      rw [last, ih, decimalValue, decimalValue, List.reverse_append, List.reverse_singleton,
        List.singleton_append, List.map_cons, Nat.ofDigits_cons, Nat.add_comm]

variable {digits : List Char}

theorem natural?_of_isDigits (whole : IsDigits digits) :
    natural? digits = some (decimalValue digits) := by
  rw [natural?, if_pos ⟨whole.1, List.all_eq_true.mpr whole.2⟩, ofDigits_eq_decimalValue]

theorem minus_not_mem (whole : IsDigits digits) : '-' ∉ digits :=
  fun member => absurd (whole.2 _ member) (by decide)

theorem signedValue_of_isDigits (whole : IsDigits digits) :
    signedValue digits = decimalValue digits := by
  unfold signedValue
  split
  · exact absurd List.mem_cons_self (minus_not_mem whole)
  · rfl

theorem signedValue_nonneg {text : List Char} (noSign : '-' ∉ text) : 0 ≤ signedValue text := by
  unfold signedValue
  split
  · exact absurd List.mem_cons_self noSign
  · exact Int.natCast_nonneg _

end Number

/-- The text of an integer is its digits, with a minus sign before them or without one. -/
theorem Token.Kind.Writes.exists_digits {text : List Char} (writes : Kind.Writes .integer text) :
    ∃ digits, IsDigits digits ∧ (text = digits ∨ text = '-' :: digits) := by
  cases writes with
  | @integer sign digits signed whole =>
      rcases signed with rfl | rfl
      · exact ⟨digits, whole, .inl rfl⟩
      · exact ⟨digits, whole, .inr rfl⟩

namespace Number

variable {text : String}

theorem integer?_of_writes (writes : Token.Kind.Writes .integer text.toList) :
    integer? text.toList = some (signedValue text.toList) := by
  obtain ⟨digits, whole, same | same⟩ := writes.exists_digits
  · rw [same, integer?, splitSign_of_digits whole.2, signedValue_of_isDigits whole]
    simp [natural?_of_isDigits whole]
  · rw [same, integer?, splitSign, signedValue]
    simp [natural?_of_isDigits whole]

theorem int64?_of_writes (writes : Token.Kind.Writes .integer text.toList) :
    int64? text =
      if -2 ^ 63 ≤ signedValue text.toList ∧ signedValue text.toList ≤ 2 ^ 63 - 1 then
        some (Int64.ofInt (signedValue text.toList))
      else none := by
  rw [int64?, integer?_of_writes writes, Option.bind_some]
  exact if_congr (by omega) rfl rfl

theorem uint32?_of_writes (writes : Token.Kind.Writes .integer text.toList) :
    uint32? text =
      if '-' ∉ text.toList ∧ signedValue text.toList ≤ 2 ^ 32 - 1 then
        some (UInt32.ofNat (signedValue text.toList).toNat)
      else none := by
  obtain ⟨digits, whole, same | same⟩ := writes.exists_digits
  · rw [uint32?, same, signedValue_of_isDigits whole]
    split
    · exact absurd (whole.2 '+' List.mem_cons_self) (by decide)
    · rw [natural?_of_isDigits whole, Option.bind_some, Int.toNat_natCast]
      refine if_congr ?_ rfl rfl
      simp only [minus_not_mem whole, not_false_eq_true, true_and]
      omega
  · rw [uint32?, same, if_neg (by simp)]
    simp [natural?]

end Number

/-! ## Reading an integer -/

/-- An integer that fits in 64 bits is that literal, and any other one its text. -/
theorem Literal.ofNumber_of_writes {token : Token} (isInteger : token.kind = .integer)
    (writes : Token.Kind.Writes .integer token.text.toList) :
    ofNumber token =
      if -2 ^ 63 ≤ Number.signedValue token.text.toList ∧
          Number.signedValue token.text.toList ≤ 2 ^ 63 - 1 then
        integer (Int64.ofInt (Number.signedValue token.text.toList))
      else raw token.text := by
  rw [ofNumber, if_pos isInteger, Number.int64?_of_writes writes]
  split
  · rfl
  · rfl

namespace Grammar

variable {scope : Scope} {cursor : Cursor}

theorem finds_literal_of_integer (isInteger : cursor.current.kind = .integer) :
    Literal.grammar.Finds scope cursor (Literal.ofNumber cursor.current) cursor.advance := by
  rw [Literal.grammar, current, finds_look_bind_iff, isInteger]
  simp

/-- A count is read from one token, and where it is refused nothing is read. -/
theorem unsigned_of_integer (what : String) (isInteger : cursor.current.kind = .integer) :
    unsigned what scope cursor =
      match Number.uint32? cursor.current.text with
      | some value => ⟨.ok value, cursor.advance, .advance cursor⟩
      | none => refuse (.invalid what) scope cursor := by
  simp only [unsigned, seesKind, current, look, bind, Grammar.bind, isInteger, decide_true, if_true]
  cases Number.uint32? cursor.current.text with
  | some value => rfl
  | none => rfl

theorem exists_finds_unsigned (what : String) (isInteger : cursor.current.kind = .integer)
    (writes : Token.Kind.Writes .integer cursor.current.text.toList)
    (noSign : '-' ∉ cursor.current.text.toList)
    (fits : Number.signedValue cursor.current.text.toList ≤ 2 ^ 32 - 1) :
    ∃ number : UInt32, (number.toNat : Int) = Number.signedValue cursor.current.text.toList ∧
      (unsigned what).Finds scope cursor number cursor.advance := by
  have low := Number.signedValue_nonneg noSign
  have high : (Number.signedValue cursor.current.text.toList).toNat < 2 ^ 32 := by omega
  refine ⟨.ofNat (Number.signedValue cursor.current.text.toList).toNat, ?_, ?_⟩
  · rw [UInt32.toNat_ofNat_of_lt' high, Int.toNat_of_nonneg low]
  · rw [Finds, unsigned_of_integer what isInteger, Number.uint32?_of_writes writes,
      if_pos ⟨noSign, fits⟩]
    exact ⟨rfl, rfl⟩

theorem unsigned_eq_refuse (what : String) (isInteger : cursor.current.kind = .integer)
    (writes : Token.Kind.Writes .integer cursor.current.text.toList)
    (large : ¬ ('-' ∉ cursor.current.text.toList ∧
      Number.signedValue cursor.current.text.toList ≤ 2 ^ 32 - 1)) :
    unsigned what scope cursor = refuse (.invalid what) scope cursor := by
  rw [unsigned_of_integer what isInteger, Number.uint32?_of_writes writes, if_neg large]

end Grammar

/-! ## Lexing an integer -/

namespace Lexer

variable {rest sign digits : List Char}

/-- An integer is read as one token at every place, with a sign where no operand has ended. -/
theorem emits_integer {previous : Option Token} (location : Location) (signed : IsSign sign)
    (whole : IsDigits digits) (noOperand : sign ≠ [] → previous.any endsOperand = false)
    (ends : Scan.EndsInteger rest) :
    Emits previous location (sign ++ digits) rest
      [⟨.integer, String.ofList (sign ++ digits), location⟩] := by
  have noBreak : '\n' ∉ sign ++ digits := by
    have noDigit : '\n' ∉ digits := Scan.noBreak_of_all (by decide) whole.2
    rcases signed with rfl | rfl <;> simp [noDigit]
  refine emits_of_step (step_integer signed whole noOperand ends) fun read after traces same => ?_
  obtain ⟨tokens, place⟩ := traces.of_singleton same
  rw [Text.flattened_of_noBreak noBreak] at place
  exact ⟨tokens, place⟩

end Lexer

namespace Token

/-- The token is one after which literals stand: an opening parenthesis, a comma, an equals sign or
the word `DEFAULT`. -/
def PrecedesLiteral (mark : Token) : Prop :=
  mark.kind ∈ [.leftParen, .comma, .equals] ∨ mark.isKeyword "DEFAULT" = true

theorem PrecedesLiteral.endsOperand {mark : Token} (precedes : mark.PrecedesLiteral) :
    Lexer.endsOperand mark = false := by
  rcases precedes with marks | keyword
  · have kinds : mark.kind = .leftParen ∨ mark.kind = .comma ∨ mark.kind = .equals := by
      simpa using marks
    rcases kinds with kind | kind | kind <;> simp [Lexer.endsOperand, kind]
  · simp [Lexer.endsOperand, keyword]

end Token

namespace Literal

/-- Wherever literals stand, the text of the literal is one token, from which the same literal is
read, as long as what follows does not go on with it. -/
def Rereads (literal : Literal) : Prop :=
  ∀ (mark : Token) (location : Location) (rest : List Char), mark.PrecedesLiteral →
    Scan.EndsInteger rest →
      ∃ again, Lexer.Emits (some mark) location literal.render.toList rest [again] ∧
        ofNumber again = literal ∧
          ∀ scope cursor, cursor.current = again → grammar.Finds scope cursor literal cursor.advance

theorem rereads_integer (number : Int64) : (integer number).Rereads := by
  intro mark location rest precedes ends
  obtain ⟨sign, digits, signed, whole, same⟩ := Lexer.exists_writeInt number.toInt
  have text : String.ofList (sign ++ digits) = Number.writeInt number.toInt := by
    rw [← same, String.ofList_toList]
  have noOperand : sign ≠ [] → (some mark).any Lexer.endsOperand = false :=
    fun _ => precedes.endsOperand
  have emits := Lexer.emits_integer location signed whole noOperand ends
  rw [text, ← same] at emits
  have typed : ofNumber ⟨.integer, Number.writeInt number.toInt, location⟩ = integer number :=
    ofNumber_writeInt number
  refine ⟨_, emits, typed, fun scope cursor current => ?_⟩
  have found : grammar.Finds scope cursor (ofNumber cursor.current) cursor.advance :=
    Grammar.finds_literal_of_integer (by rw [current])
  rwa [current, typed] at found

end Literal

/-- What is made of an integer of the given value, whatever its digits are. -/
structure Token.TypedByValue (token : Token) (value : Int) : Prop where
  /-- The text is digits, with a minus sign before them or without one. -/
  written : Kind.Writes .integer token.text.toList
  /-- A value that fits in 64 bits with a sign is the literal. -/
  inside : -2 ^ 63 ≤ value → value ≤ 2 ^ 63 - 1 →
    ∃ number : Int64, number.toInt = value ∧ Literal.ofNumber token = .integer number
  /-- For any other value the text is the literal. -/
  outside : ¬ (-2 ^ 63 ≤ value ∧ value ≤ 2 ^ 63 - 1) → Literal.ofNumber token = .raw token.text
  /-- Without a sign, a value that fits in 32 bits is read as a count, and nothing more is read. -/
  counted : '-' ∉ token.text.toList → value ≤ 2 ^ 32 - 1 →
    ∀ what scope cursor, cursor.current = token →
      ∃ (number : UInt32) (final : Cursor), (number.toNat : Int) = value ∧
        (Grammar.unsigned what).Finds scope cursor number final ∧
          cursor.ahead = token :: final.ahead
  /-- Any other integer is refused as a count, and nothing is read. -/
  uncounted : ¬ ('-' ∉ token.text.toList ∧ value ≤ 2 ^ 32 - 1) →
    ∀ what scope cursor, cursor.current = token →
      (Grammar.unsigned what scope cursor).result =
          .error ⟨.invalid what, token.text, some token.location.line⟩ ∧
        (Grammar.unsigned what scope cursor).cursor = cursor
  /-- A literal that is a number is read again from its own text. -/
  rereads : ∀ number, Literal.ofNumber token = .integer number → (Literal.integer number).Rereads

/-- Every integer of a text is typed by its value. -/
theorem Token.typedByValue_of_tokenize {text : String} {tokens : List Token} {token : Token}
    (read : tokenize text = .ok tokens) (member : token ∈ tokens)
    (isInteger : token.kind = .integer) :
    token.TypedByValue (Number.signedValue token.text.toList) := by
  have written : Kind.Writes .integer token.text.toList := by
    have writes := writes_of_tokenize read member (by simp [isInteger, runKinds])
    rwa [isInteger] at writes
  have literal := Literal.ofNumber_of_writes isInteger written
  refine ⟨written, ?_, ?_, ?_, ?_, fun number _ => Literal.rereads_integer number⟩
  · intro low high
    rw [literal, if_pos ⟨low, high⟩]
    exact ⟨_, Int64.toInt_ofInt_of_le low (by omega), rfl⟩
  · intro large
    rw [literal, if_neg large]
  · rintro noSign fits what scope cursor rfl
    obtain ⟨number, value, found⟩ :=
      Grammar.exists_finds_unsigned what isInteger written noSign fits
    have inside : cursor.ahead ≠ [] := Cursor.ahead_ne_nil_of_kind (by rw [isInteger]; decide)
    exact ⟨number, cursor.advance, value, found, Cursor.ahead_eq_cons inside⟩
  · rintro large what scope cursor rfl
    have named : cursor.current.described = cursor.current.text := by
      simp [described, isEnd, isInteger]
    rw [Grammar.unsigned_eq_refuse what isInteger written large, ← named]
    exact ⟨rfl, rfl⟩

/-- The least value of 64 bits with zeros before its digits, of which one more would be text, is a
number as a literal and no count. -/
theorem Token.typedByValue_of_tokenize_least :
    let token : Token := ⟨.integer, "-009223372036854775808", ⟨1, 9⟩⟩
    let tokens : List Token := [⟨.word, "DEFAULT", ⟨1, 1⟩⟩, token, finish ⟨1, 31⟩]
    tokenize "DEFAULT -009223372036854775808" = .ok tokens ∧ token ∈ tokens ∧
      token.kind = .integer ∧ token.TypedByValue (-9223372036854775808) := by
  intro token tokens
  have read : tokenize "DEFAULT -009223372036854775808" = .ok tokens := by decide +kernel
  have value : Number.signedValue token.text.toList = -9223372036854775808 := by decide +kernel
  have member : token ∈ tokens := by simp [tokens]
  refine ⟨read, member, rfl, ?_⟩
  rw [← value]
  exact typedByValue_of_tokenize read member rfl

end TableDdl
