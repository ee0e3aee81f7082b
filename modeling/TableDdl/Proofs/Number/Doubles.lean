import TableDdl.Number.Layout
import TableDdl.Number.Reader
import TableDdl.Proofs.Lexer.Numbers
import TableDdl.Proofs.Number.Integers
import TableDdl.Proofs.Number.Shortest

/-!
# Doubles read back

The digits of the shortest decimal are set out with a point, an exponent or both. However that is
done, the text is one number with a fraction or an exponent, and it is read as the double again.
-/

namespace TableDdl

namespace Number

variable {digits : List Char}

/-! ## The number of some digits -/

theorem toNat_sub_lt {digit : Char} (isDigit : digit.isDigit = true) :
    digit.toNat - '0'.toNat < 10 := by
  have bounds : 48 ≤ digit.toNat ∧ digit.toNat ≤ 57 := by
    simpa [Char.isDigit, UInt32.le_iff_toNat_le] using isDigit
  have zero : '0'.toNat = 48 := rfl
  omega

theorem ofDigitChars_bounds (all : ∀ digit ∈ digits, digit.isDigit = true) (start : Nat) :
    10 ^ digits.length * start ≤ Nat.ofDigitChars 10 digits start ∧
      Nat.ofDigitChars 10 digits start < 10 ^ digits.length * (start + 1) := by
  induction digits generalizing start with
  | nil => simp [Nat.ofDigitChars_nil]
  | cons digit digits induction =>
      have next := toNat_sub_lt (all digit (by simp))
      have rest := induction (fun other member => all other (by simp [member]))
        (10 * start + (digit.toNat - '0'.toNat))
      rw [Nat.ofDigitChars_cons, List.length_cons, pow_succ]
      constructor
      · nlinarith [Nat.pow_pos (n := digits.length) (show 0 < 10 by decide)]
      · nlinarith [Nat.pow_pos (n := digits.length) (show 0 < 10 by decide)]

theorem ofDigits_lt (all : ∀ digit ∈ digits, digit.isDigit = true) :
    ofDigits digits < 10 ^ digits.length := by
  have bound := (ofDigitChars_bounds all 0).2
  rwa [Nat.zero_add, mul_one] at bound

theorem pow_le_ofDigits {digit : Char} (all : ∀ other ∈ digit :: digits, other.isDigit = true)
    (nonzero : digit ≠ '0') : 10 ^ (digit :: digits).length ≤ 10 * ofDigits (digit :: digits) := by
  have rest : ∀ other ∈ digits, other.isDigit = true :=
    fun other member => all other (List.mem_cons_of_mem digit member)
  have bound := (ofDigitChars_bounds rest (10 * 0 + (digit.toNat - '0'.toNat))).1
  have positive : 1 ≤ 10 * 0 + (digit.toNat - '0'.toNat) := by
    have bounds : 48 ≤ digit.toNat ∧ digit.toNat ≤ 57 := by
      simpa [Char.isDigit, UInt32.le_iff_toNat_le] using all digit (by simp)
    have other : digit.toNat ≠ 48 := fun same => nonzero (Char.toNat_inj.mp same)
    have zero : '0'.toNat = 48 := rfl
    omega
  rw [← Nat.ofDigitChars_cons] at bound
  have scaled := Nat.mul_le_mul_left (10 ^ digits.length) positive
  rw [List.length_cons, pow_succ]
  have same : Nat.ofDigitChars 10 (digit :: digits) 0 = ofDigits (digit :: digits) := rfl
  omega

theorem ofDigits_append_replicate (count : Nat) :
    ofDigits (digits ++ List.replicate count '0') = ofDigits digits * 10 ^ count := by
  have append := Nat.ofDigitChars_append (b := 10) (l := digits) (m := List.replicate count '0') 0
  rw [Nat.ofDigitChars_replicate_zero] at append
  rw [mul_comm]
  exact append

/-- The digits of a positive number start with a digit that is not zero. -/
theorem toDigits_eq_cons {value : Nat} (positive : value ≠ 0) :
    ∃ digit digits, Nat.toDigits 10 value = digit :: digits ∧ digit ≠ '0' := by
  obtain ⟨digit, digits, found⟩ :=
    List.exists_cons_of_ne_nil (Nat.toDigits_ne_nil (b := 10) (n := value))
  refine ⟨digit, digits, found, ?_⟩
  rintro rfl
  have number : ofDigits digits = value := by
    rw [← ofDigits_toDigits value, found]
    rfl
  have all : ∀ digit ∈ digits, digit.isDigit = true := by
    intro digit member
    exact all_isDigit_toDigits value digit (by rw [found]; simp [member])
  have small := ofDigits_lt all
  rw [number] at small
  cases digits with
  | nil => exact positive number.symm
  | cons next rest =>
      have short := (Nat.length_toDigits_le_iff (by decide) (by simp)).mpr small
      rw [found] at short
      simp at short

end Number

namespace NumberLayout

open Number

/-! ## The digits that are set out -/

theorem toDigits_eq_significantDigits (value : Nat) :
    ∃ count, Nat.toDigits 10 value = significantDigits value ++ List.replicate count '0' := by
  let zeros := (Nat.toDigits 10 value).reverse.takeWhile (· == '0')
  have all : ∀ zero ∈ zeros.reverse, zero = '0' := by
    intro zero member
    have isZero := List.all_eq_true.mp List.all_takeWhile zero (List.mem_reverse.mp member)
    simpa using isZero
  have split : (Nat.toDigits 10 value).reverse = zeros ++ (significantDigits value).reverse := by
    rw [significantDigits, List.reverse_reverse, List.takeWhile_append_dropWhile]
  have reversed := congrArg List.reverse split
  rw [List.reverse_reverse, List.reverse_append, List.reverse_reverse,
    List.eq_replicate_of_mem all] at reversed
  exact ⟨_, reversed⟩

/-- Digits that stand for the shortest decimal of a double: the first is not zero, and with the
given exponent of the last one they read back. -/
structure Digits (value : Double) (digits : List Char) (exponent : Int) : Prop where
  all : ∀ digit ∈ digits, digit.isDigit = true
  nonzero : ∃ digit rest, digits = digit :: rest ∧ digit ≠ '0'
  reads : ∃ decimal, value.readsBack decimal = true ∧
    Double.Spells (ofDigits digits) exponent decimal

variable {value : Double} {digits : List Char} {exponent : Int}

/-- The digits of the shortest decimal, and the exponent of the first of them. -/
theorem digits_shortest (tie : Tie) (nonzero : value.significand ≠ 0) :
    ∃ exponent : Int, Digits value (significantDigits (value.shortest tie).digits) exponent ∧
      (value.shortest tie).exponent +
          ((Nat.toDigits 10 (value.shortest tie).digits).length - 1 : Nat) =
        exponent + ((significantDigits (value.shortest tie).digits).length - 1 : Nat) := by
  obtain ⟨decimal, reads, place, exponent_eq, decimal_eq⟩ := Double.shortest_spells tie nonzero
  obtain ⟨count, zeros⟩ := toDigits_eq_significantDigits (value.shortest tie).digits
  have positive : (value.shortest tie).digits ≠ 0 := by
    intro zero
    have least := Double.le_decimal reads nonzero
    rw [zero, Nat.zero_mul] at decimal_eq
    omega
  obtain ⟨digit, rest, first, digit_ne⟩ := toDigits_eq_cons positive
  have number : ofDigits (significantDigits (value.shortest tie).digits) * 10 ^ count =
      (value.shortest tie).digits := by
    rw [← ofDigits_append_replicate, ← zeros, ofDigits_toDigits]
  have all := all_isDigit_toDigits (value.shortest tie).digits
  rw [zeros] at all first ⊢
  have leading : ∃ rest, significantDigits (value.shortest tie).digits = digit :: rest := by
    cases found : significantDigits (value.shortest tie).digits with
    | nil =>
        rw [found, List.nil_append] at first
        have zero : digit ∈ List.replicate count '0' := by simp [first]
        exact absurd (List.eq_of_mem_replicate zero) digit_ne
    | cons other rest =>
        rw [found, List.cons_append] at first
        exact ⟨rest, by rw [(List.cons.inj first).1]⟩
  obtain ⟨rest, leading⟩ := leading
  refine ⟨(value.shortest tie).exponent + count, ⟨?_, ⟨digit, rest, leading, digit_ne⟩, decimal,
    reads, place + count, ?_, ?_⟩, ?_⟩
  · intro digit member
    exact all digit (List.mem_append_left _ member)
  · push_cast
    omega
  · rw [pow_add, mul_comm (10 ^ place), ← mul_assoc, number, decimal_eq]
  · rw [leading]
    simp only [List.length_append, List.length_cons, List.length_replicate]
    omega

/-- The digits are read as the double, also with zeros before them and after them. -/
theorem Digits.decimal? (spelled : Digits value digits exponent) (nonzero : value.significand ≠ 0)
    {whole fraction : List Char} {written : Int} (before after : Nat)
    (padded : whole ++ fraction = List.replicate before '0' ++ digits ++ List.replicate after '0')
    (moved : written - fraction.length = exponent - after)
    (fine : -(Double.finestPlace : Int) ≤ exponent - after) :
    Number.decimal? value.negative whole fraction written = some value := by
  obtain ⟨all, ⟨digit, rest, first, digit_ne⟩, decimal, reads, place, exponent_eq, decimal_eq⟩ :=
    spelled
  have stripped : (whole ++ fraction).dropWhile (· == '0') = digits ++ List.replicate after '0' := by
    rw [padded, List.append_assoc, List.dropWhile_append_of_pos (by simp), first, List.cons_append,
      List.dropWhile_cons_of_neg (by simpa using digit_ne)]
  have digitsAll : ∀ other ∈ digits ++ List.replicate after '0', other.isDigit = true := by
    intro other member
    rcases List.mem_append.mp member with member | zero
    · exact all other member
    · rw [List.eq_of_mem_replicate zero]
      decide
  rw [Number.decimal?, stripped, moved]
  apply Double.ofDecimal?_eq reads nonzero
  · refine ⟨place - after, by omega, ?_⟩
    rw [ofDigits_append_replicate, mul_assoc, ← pow_add, Nat.add_sub_cancel' (by omega), decimal_eq]
  · rw [first, List.cons_append] at digitsAll ⊢
    exact pow_le_ofDigits digitsAll digit_ne
  · exact ofDigits_lt digitsAll

end NumberLayout

namespace Number

/-! ## The text of a number -/

/-- A text with the given digits before and after its point and the given exponent; it has a point
or an exponent. It has no zero before its other digits, and a point only before digits. -/
structure Numeral (text whole fraction : List Char) (exponent : Int) : Prop where
  wholeDigits : ∀ digit ∈ whole, digit.isDigit = true
  fractionDigits : ∀ digit ∈ fraction, digit.isDigit = true
  leading : whole ≠ []
  leadingZero : whole.head? = some '0' → whole = ['0']
  parts : ∃ point power, text = whole ++ (point ++ power) ∧
    (point = '.' :: fraction ∧ fraction ≠ [] ∨ point = [] ∧ fraction = []) ∧
    (power = [] ∧ point ≠ [] ∧ exponent = 0 ∨
      ∃ sign digits, power = 'e' :: (sign ++ digits) ∧
        (sign = [] ∨ sign = ['-'] ∨ sign = ['+']) ∧ digits ≠ [] ∧
        (∀ digit ∈ digits, digit.isDigit = true) ∧ integer? (sign ++ digits) = some exponent)

/-- What stands after a number does not continue it. -/
def Ends (after : List Char) : Prop :=
  ∀ character ∈ after.head?, character.isDigit = false ∧ character ≠ '.' ∧ character ≠ 'e' ∧
    character ≠ 'E'

theorem Ends.digits {after run : List Char} (ends : Ends after)
    (all : ∀ digit ∈ run, digit.isDigit = true) : Scan.digits (run ++ after) = run :=
  Scan.digits_append_of_all all fun character first => (ends character first).1

theorem Ends.fraction {after : List Char} (ends : Ends after) : Scan.fraction after = [] := by
  unfold Scan.fraction
  split
  · exact absurd rfl (ends '.' (by simp)).2.1
  · rfl

theorem Ends.exponent {after : List Char} (ends : Ends after) : Scan.exponent after = [] := by
  cases after with
  | nil => rfl
  | cons first others =>
      have letter := (ends first (by simp)).2.2
      rw [Scan.exponent, if_neg (by simp [letter])]

namespace Numeral

variable {text whole fraction point power : List Char} {exponent : Int}

/-- Neither the point nor the letter of the exponent is a digit. -/
theorem stops (pointed : point = '.' :: fraction ∧ fraction ≠ [] ∨ point = [] ∧ fraction = [])
    (powered : power = [] ∧ point ≠ [] ∧ exponent = 0 ∨
      ∃ sign digits, power = 'e' :: (sign ++ digits) ∧
        (sign = [] ∨ sign = ['-'] ∨ sign = ['+']) ∧ digits ≠ [] ∧
        (∀ digit ∈ digits, digit.isDigit = true) ∧ integer? (sign ++ digits) = some exponent) :
    (∀ character ∈ (point ++ power).head?, character.isDigit = false) ∧
      ∀ character ∈ power.head?, character.isDigit = false := by
  rcases pointed with ⟨rfl, _⟩ | ⟨rfl, _⟩ <;>
    rcases powered with ⟨rfl, some, _⟩ | ⟨sign, digits, rfl, _⟩
  · simp
  · simp
  · exact absurd rfl some
  · simp

theorem exists_cons (numeral : Numeral text whole fraction exponent) :
    ∃ digit rest, text = digit :: rest ∧ digit.isDigit = true := by
  obtain ⟨point, power, rfl, _⟩ := numeral.parts
  obtain ⟨digit, rest, rfl⟩ := List.exists_cons_of_ne_nil numeral.leading
  exact ⟨digit, _, rfl, numeral.wholeDigits digit (by simp)⟩

theorem splitSign (numeral : Numeral text whole fraction exponent) (negative : Bool) :
    splitSign (if negative then '-' :: text else text) = (negative, text) := by
  cases negative with
  | true => rfl
  | false =>
      obtain ⟨digit, rest, rfl, isDigit⟩ := numeral.exists_cons
      unfold Number.splitSign
      split
      · rename_i minus
        rw [if_neg (by decide)] at minus
        rw [(List.cons.inj minus).1] at isDigit
        exact absurd isDigit (by decide)
      · rename_i plus
        rw [if_neg (by decide)] at plus
        rw [(List.cons.inj plus).1] at isDigit
        exact absurd isDigit (by decide)
      · rfl

theorem exponent?_power (powered : power = [] ∧ point ≠ [] ∧ exponent = 0 ∨
      ∃ sign digits, power = 'e' :: (sign ++ digits) ∧
        (sign = [] ∨ sign = ['-'] ∨ sign = ['+']) ∧ digits ≠ [] ∧
        (∀ digit ∈ digits, digit.isDigit = true) ∧ integer? (sign ++ digits) = some exponent) :
    exponent? power = some exponent := by
  rcases powered with ⟨rfl, _, rfl⟩ | ⟨sign, digits, rfl, _, _, _, read⟩
  · rfl
  · rw [exponent?, if_pos (.inl rfl), read]

theorem double? (numeral : Numeral text whole fraction exponent) (negative : Bool) :
    double? (String.ofList (if negative then '-' :: text else text)) =
      decimal? negative whole fraction exponent := by
  obtain ⟨point, power, rfl, pointed, powered⟩ := numeral.parts
  obtain ⟨stop, powerStop⟩ := stops pointed powered
  have wholeTake : (whole ++ (point ++ power)).takeWhile Char.isDigit = whole :=
    Scan.digits_append_of_all numeral.wholeDigits stop
  have wholeDrop : (whole ++ (point ++ power)).dropWhile Char.isDigit = point ++ power := by
    have split := List.takeWhile_append_dropWhile (p := Char.isDigit) (l := whole ++ (point ++ power))
    rw [wholeTake] at split
    exact List.append_cancel_left split
  have fractionTake : (fraction ++ power).takeWhile Char.isDigit = fraction :=
    Scan.digits_append_of_all numeral.fractionDigits powerStop
  have fractionDrop : (fraction ++ power).dropWhile Char.isDigit = power := by
    have split := List.takeWhile_append_dropWhile (p := Char.isDigit) (l := fraction ++ power)
    rw [fractionTake] at split
    exact List.append_cancel_left split
  have read : exponent? power = some exponent := exponent?_power powered
  unfold Number.double?
  rw [String.toList_ofList, numeral.splitSign negative]
  dsimp only
  rw [wholeTake, wholeDrop]
  rcases pointed with ⟨rfl, _⟩ | ⟨rfl, rfl⟩
  · simp only [List.cons_append, fractionTake, fractionDrop]
    rw [if_neg (by simp [numeral.leading]), read, Option.bind_some]
  · rcases powered with ⟨_, none, _⟩ | ⟨sign, digits, rfl, _⟩
    · exact absurd rfl none
    · change (if whole ++ [] = [] then none else (exponent? ('e' :: (sign ++ digits))).bind fun
        exponent => decimal? negative whole [] exponent) = _
      rw [if_neg (by simp [numeral.leading]), read, Option.bind_some]

/-- The parts of a numeral are scanned one after the other where nothing continues it. -/
theorem scans (numeral : Numeral text whole fraction exponent) :
    ∃ point power, text = whole ++ (point ++ power) ∧
      (point = '.' :: fraction ∧ fraction ≠ [] ∨ point = [] ∧ fraction = []) ∧
      ¬ (point = [] ∧ power = []) ∧ exponent? power = some exponent ∧
      ∀ after, Ends after → Scan.digits (whole ++ (point ++ (power ++ after))) = whole ∧
        Scan.fraction (point ++ (power ++ after)) = point ∧
        Scan.exponent (power ++ after) = power := by
  obtain ⟨point, power, rfl, pointed, powered⟩ := numeral.parts
  refine ⟨point, power, rfl, pointed, ?_, exponent?_power powered, fun after ends => ⟨?_, ?_, ?_⟩⟩
  · rintro ⟨rfl, rfl⟩
    rcases powered with ⟨_, none, _⟩ | ⟨sign, digits, same, _⟩
    · exact none rfl
    · exact absurd same (by simp)
  · refine Scan.digits_append_of_all numeral.wholeDigits ?_
    rcases pointed with ⟨rfl, _⟩ | ⟨rfl, rfl⟩
    · simp
    · rcases powered with ⟨_, none, _⟩ | ⟨sign, digits, rfl, _⟩
      · exact absurd rfl none
      · simp
  · rcases pointed with ⟨rfl, _⟩ | ⟨rfl, rfl⟩
    · rw [List.cons_append, Scan.fraction, Scan.digits_append_of_all numeral.fractionDigits]
      rcases powered with ⟨rfl, _⟩ | ⟨sign, digits, rfl, _⟩
      · exact fun character first => (ends character first).1
      · simp
    · rcases powered with ⟨_, none, _⟩ | ⟨sign, digits, rfl, _⟩
      · exact absurd rfl none
      · rfl
  · rcases powered with ⟨rfl, _⟩ | ⟨sign, digits, rfl, signed, nonempty, all, _⟩
    · exact ends.exponent
    · have scannedSign : Scan.exponentSign (sign ++ (digits ++ after)) = sign := by
        rcases signed with rfl | rfl | rfl
        · obtain ⟨digit, rest, rfl⟩ := List.exists_cons_of_ne_nil nonempty
          have isDigit := all digit (by simp)
          unfold Scan.exponentSign
          split
          · rename_i plus
            rw [(List.cons.inj plus).1] at isDigit
            exact absurd isDigit (by decide)
          · rename_i minus
            rw [(List.cons.inj minus).1] at isDigit
            exact absurd isDigit (by decide)
          · rfl
        · rfl
        · rfl
      have scanned : Scan.digits ((sign ++ (digits ++ after)).drop sign.length) = digits := by
        rw [List.drop_left, ends.digits all]
      rw [List.cons_append, List.append_assoc, Scan.exponent]
      simp only [scannedSign, scanned]
      rw [if_pos ⟨by simp, nonempty⟩]

theorem number (numeral : Numeral text whole fraction exponent) :
    Scan.number text = (.float, text) := by
  obtain ⟨point, power, rfl, _, some, _, scanned⟩ := numeral.scans
  obtain ⟨wholeScanned, pointScanned, powerScanned⟩ := scanned [] (by simp [Ends])
  rw [List.append_nil] at wholeScanned pointScanned powerScanned
  simp only [Scan.number]
  rw [wholeScanned, List.drop_left, pointScanned, List.drop_left, powerScanned, if_neg some,
    List.append_assoc]

end Numeral

theorem numeral_positional {whole fraction : List Char}
    (wholeDigits : ∀ digit ∈ whole, digit.isDigit = true)
    (fractionDigits : ∀ digit ∈ fraction, digit.isDigit = true) (leading : whole ≠ [])
    (leadingZero : whole.head? = some '0' → whole = ['0']) (nonempty : fraction ≠ []) :
    Numeral (whole ++ '.' :: fraction) whole fraction 0 :=
  ⟨wholeDigits, fractionDigits, leading, leadingZero, '.' :: fraction, [], by simp,
    .inl ⟨rfl, nonempty⟩, .inl ⟨rfl, by simp, rfl⟩⟩

end Number

namespace NumberLayout

open Number

variable {value : Double} {digits : List Char} {exponent : Int}

/-! ## The layouts -/

theorem Digits.positional (spelled : Digits value digits exponent)
    (nonzero : value.significand ≠ 0) :
    ∃ whole fraction, Numeral (positional digits (exponent + (digits.length - 1 : Nat))) whole
        fraction 0 ∧
      Number.decimal? value.negative whole fraction 0 = some value := by
  have all := spelled.all
  obtain ⟨digit, rest, first, notZero⟩ := spelled.nonzero
  have some : 1 ≤ digits.length := by simp [first]
  have fine : -(Double.finestPlace : Int) ≤ exponent := by
    obtain ⟨_, _, place, exponent_eq, _⟩ := spelled.reads
    omega
  generalize leading : exponent + (digits.length - 1 : Nat) = power
  cases power with
  | negSucc places =>
      have zero : ∀ digit ∈ ['0'], digit.isDigit = true :=
        Text.forall_mem_of_all (by decide)
      refine ⟨['0'], List.replicate places '0' ++ digits,
        numeral_positional zero ?_ (by simp) (by simp) (by simp [first]),
        spelled.decimal? nonzero (places + 1) 0 ?_ ?_ (by simpa using fine)⟩
      · intro digit member
        rcases List.mem_append.mp member with zero | member
        · rw [List.eq_of_mem_replicate zero]
          decide
        · exact all digit member
      · simp [List.replicate_succ]
      · simp only [List.length_append, List.length_replicate]
        omega
  | ofNat places =>
      by_cases long : places + 1 < digits.length
      · have fractionSome : (digits.drop (places + 1)).isEmpty = false := by
          simp [long]
        have noPad : places + 1 - (digits.take (places + 1)).length = 0 := by
          rw [List.length_take]
          omega
        simp only [NumberLayout.positional, fractionSome, noPad, List.replicate_zero,
          List.append_nil]
        refine ⟨digits.take (places + 1), digits.drop (places + 1), numeral_positional ?_ ?_ ?_ ?_ ?_,
          spelled.decimal? nonzero 0 0 ?_ ?_ (by simpa using fine)⟩
        · exact fun digit member => all digit (List.mem_of_mem_take member)
        · exact fun digit member => all digit (List.mem_of_mem_drop member)
        · simp [first]
        · simp [first, notZero]
        · simpa using long
        · simp
        · simp only [List.length_drop, Int.ofNat_eq_natCast] at leading ⊢
          omega
      · have whole : digits.take (places + 1) = digits := List.take_of_length_le (by omega)
        have fraction : digits.drop (places + 1) = [] := List.drop_of_length_le (by omega)
        simp only [NumberLayout.positional, whole, fraction, List.isEmpty_nil, if_true]
        refine ⟨digits ++ List.replicate (places + 1 - digits.length) '0', ['0'],
          numeral_positional ?_ (Text.forall_mem_of_all (by decide)) (by simp [first])
            (by simp [first, notZero]) (by simp),
          spelled.decimal? nonzero 0 (places + 2 - digits.length) ?_ ?_ ?_⟩
        · intro digit member
          rcases List.mem_append.mp member with member | zero
          · exact all digit member
          · rw [List.eq_of_mem_replicate zero]
            decide
        · rw [show places + 2 - digits.length = places + 1 - digits.length + 1 by omega,
            List.replicate_succ']
          simp
        · simp only [List.length_singleton, Int.ofNat_eq_natCast] at leading ⊢
          omega
        · simp only [Int.ofNat_eq_natCast] at leading
          have finest : (Double.finestPlace : Int) = 342 := rfl
          omega

theorem integer?_of_splitSign {text : List Char} (negative : Bool) {number : Nat}
    (split : splitSign text = (negative, Nat.toDigits 10 number)) :
    integer? text = some (if negative then -(number : Int) else number) := by
  simp [integer?, split, natural?_toDigits]

theorem integer?_exponent (layout : NumberLayout) (exponent : Int) :
    integer? ((if exponent < 0 then ['-'] else if layout.plusSign then ['+'] else []) ++
      Nat.toDigits 10 exponent.natAbs) = some exponent := by
  by_cases negative : exponent < 0
  · rw [if_pos negative, integer?_of_splitSign true rfl, if_pos rfl]
    congr 1
    omega
  · have same : (exponent.natAbs : Int) = exponent := by omega
    rw [if_neg negative]
    cases layout.plusSign with
    | true =>
        rw [if_pos rfl, integer?_of_splitSign false rfl, if_neg (by decide), same]
    | false =>
        have split := splitSign_of_digits (all_isDigit_toDigits exponent.natAbs)
        rw [if_neg (by decide), List.nil_append, integer?_of_splitSign false split, if_neg (by decide),
          same]

theorem Digits.scientific (layout : NumberLayout) (spelled : Digits value digits exponent)
    (nonzero : value.significand ≠ 0) :
    ∃ whole fraction, Numeral (scientific layout digits (exponent + (digits.length - 1 : Nat))) whole
        fraction (exponent + (digits.length - 1 : Nat)) ∧
      Number.decimal? value.negative whole fraction (exponent + (digits.length - 1 : Nat)) =
        some value := by
  have all := spelled.all
  obtain ⟨digit, rest, rfl, _⟩ := spelled.nonzero
  have fine : -(Double.finestPlace : Int) ≤ exponent := by
    obtain ⟨_, _, place, exponent_eq, _⟩ := spelled.reads
    omega
  generalize leading : exponent + ((digit :: rest).length - 1 : Nat) = power
  refine ⟨[digit], rest, ⟨?_, ?_, by simp, by simp, if rest.isEmpty then [] else '.' :: rest,
      'e' :: ((if power < 0 then ['-'] else if layout.plusSign then ['+'] else []) ++
        Nat.toDigits 10 power.natAbs), ?_, ?_, .inr ⟨_, _, rfl, ?_, Nat.toDigits_ne_nil,
        all_isDigit_toDigits _, integer?_exponent layout power⟩⟩,
    spelled.decimal? nonzero 0 0 (by simp) ?_ (by simpa using fine)⟩
  · intro other member
    exact all other (by simp_all)
  · intro other member
    exact all other (by simp [member])
  · simp [NumberLayout.scientific]
  · cases rest with
    | nil => exact .inr ⟨rfl, rfl⟩
    | cons next others => exact .inl ⟨rfl, by simp⟩
  · split
    · exact .inr (.inl rfl)
    · split
      · exact .inr (.inr rfl)
      · exact .inl rfl
  · simp only [List.length_cons, Nat.add_sub_cancel] at leading
    omega

/-- The text of the magnitude is one number, and with its sign it is read as the double. -/
theorem magnitude_numeral (layout : NumberLayout) (value : Double) :
    ∃ whole fraction exponent, Numeral (layout.magnitude value) whole fraction exponent ∧
      Number.decimal? value.negative whole fraction exponent = some value := by
  unfold magnitude
  by_cases zero : value.significand = 0
  · rw [if_pos zero]
    have isZero : ∀ digit ∈ ['0'], digit.isDigit = true :=
      Text.forall_mem_of_all (by decide)
    refine ⟨['0'], ['0'], 0, numeral_positional isZero isZero (by simp) (by simp) (by simp), ?_⟩
    have same : Double.zero value.negative = value := by
      obtain ⟨negative, significand, power, canonical⟩ := value
      obtain rfl : significand = 0 := zero
      obtain rfl : power = 0 := canonical.2.1.resolve_left (by decide)
      rfl
    change some (Double.zero value.negative) = some value
    rw [same]
  · rw [if_neg zero]
    obtain ⟨exponent, spelled, leading⟩ := digits_shortest layout.tie zero
    dsimp only
    rw [leading]
    split
    · obtain ⟨whole, fraction, numeral, read⟩ := spelled.positional zero
      exact ⟨whole, fraction, 0, numeral, read⟩
    · obtain ⟨whole, fraction, numeral, read⟩ := spelled.scientific layout zero
      exact ⟨whole, fraction, _, numeral, read⟩

/-- A double reads back from its text. -/
theorem double?_write (layout : NumberLayout) (value : Double) :
    Number.double? (layout.write value) = some value := by
  obtain ⟨whole, fraction, exponent, numeral, read⟩ := magnitude_numeral layout value
  rw [write, numeral.double? value.negative, read]

/-- The text of the magnitude of a double is a number with a fraction or an exponent. -/
theorem number_magnitude (layout : NumberLayout) (value : Double) :
    Scan.number (layout.magnitude value) = (.float, layout.magnitude value) ∧
      ∃ digit rest, layout.magnitude value = digit :: rest ∧ digit.isDigit = true := by
  obtain ⟨whole, fraction, exponent, numeral, _⟩ := magnitude_numeral layout value
  exact ⟨numeral.number, numeral.exists_cons⟩

end NumberLayout

end TableDdl
