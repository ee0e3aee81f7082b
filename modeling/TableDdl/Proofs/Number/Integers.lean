import TableDdl.Number.Reader
import TableDdl.Number.Writer

/-!
# Integers read back

An integer that is written with decimal digits is read back from them, as far as it fits the type
that is read.
-/

namespace TableDdl

namespace Number

theorem ofDigits_toDigits (value : Nat) : ofDigits (Nat.toDigits 10 value) = value :=
  Nat.ofDigitChars_ten_toDigits

theorem all_isDigit_toDigits (value : Nat) :
    ∀ digit ∈ Nat.toDigits 10 value, digit.isDigit = true :=
  fun _ member => Nat.isDigit_of_mem_toDigits (by decide) (by decide) member

theorem natural?_toDigits (value : Nat) : natural? (Nat.toDigits 10 value) = some value := by
  rw [natural?, if_pos ⟨Nat.toDigits_ne_nil, List.all_eq_true.mpr (all_isDigit_toDigits value)⟩,
    ofDigits_toDigits]

/-- The first of some digits is no sign. -/
theorem splitSign_of_digits {digits : List Char} (all : ∀ digit ∈ digits, digit.isDigit = true) :
    splitSign digits = (false, digits) := by
  unfold splitSign
  split
  · exact absurd (all '-' (by simp)) (by decide)
  · exact absurd (all '+' (by simp)) (by decide)
  · rfl

theorem integer?_writeInt (value : Int) : integer? (writeInt value).toList = some value := by
  cases value with
  | ofNat value =>
      have digits : (writeInt (.ofNat value)).toList = Nat.toDigits 10 value := by
        simp [writeInt, writeNat]
      rw [digits, integer?, splitSign_of_digits (all_isDigit_toDigits value)]
      simp [natural?_toDigits]
  | negSucc value =>
      have digits : (writeInt (.negSucc value)).toList = '-' :: Nat.toDigits 10 (value + 1) := by
        simp [writeInt, writeNat]
      rw [digits, integer?, splitSign]
      simp [natural?_toDigits, Int.negSucc_eq]

theorem int64?_writeInt (value : Int64) : int64? (writeInt value.toInt) = some value := by
  have low : -2 ^ 63 ≤ value.toInt := value.le_toInt
  have high : value.toInt < 2 ^ 63 := value.toInt_lt
  rw [int64?, integer?_writeInt, Option.bind_some, if_pos ⟨low, high⟩, Int64.ofInt_toInt]

theorem uint32?_writeNat (value : UInt32) : uint32? (writeNat value.toNat) = some value := by
  have digits : (writeNat value.toNat).toList = Nat.toDigits 10 value.toNat := by simp [writeNat]
  have fits : value.toNat < 4294967296 := value.toNat_lt
  unfold uint32?
  rw [digits]
  dsimp only
  split
  · rename_i rest plus
    have digit := all_isDigit_toDigits value.toNat '+' (by simp [plus])
    exact absurd digit (by decide)
  · rw [natural?_toDigits, Option.bind_some, if_pos fits, UInt32.ofNat_toNat]

end Number

end TableDdl
