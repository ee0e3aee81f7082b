import TableDdl.Text.Blank
import TableDdl.Text.Case
import TableDdl.Token.Scan

/-!
# Scanning a number and what follows it

A number ends where it does whatever follows it, as long as that starts with a character that
belongs to no number and no word. A point belongs to numbers, so that only what is known to be no
bare run of digits may stand before it.
-/

namespace TableDdl

/-- A finite check over given characters. -/
theorem Text.forall_mem_of_all {holds : Char → Prop} [DecidablePred holds] {characters : List Char}
    (all : characters.all (fun character => decide (holds character)) = true) :
    ∀ character ∈ characters, holds character := by
  simpa using all

namespace Text

/-- The characters of an interval of code points, one by one. -/
def interval (first last : Nat) : List Char := (List.range' first (last + 1 - first)).map Char.ofNat

theorem mem_interval {first last : Nat} {character : Char} (lower : first ≤ character.toNat)
    (upper : character.toNat ≤ last) : character ∈ interval first last := by
  refine List.mem_map.mpr ⟨character.toNat, ?_, Char.ofNat_toNat character⟩
  rw [List.mem_range'_1]
  omega

/-- Only capitals are the upper case of other characters. -/
theorem eq_of_toUpper_eq {character mark : Char} (noCapital : mark ∉ interval 65 90)
    (same : character.toUpper = mark) : character = mark := by
  by_cases small : character ∈ interval 97 122
  · have capitals : ∀ character ∈ interval 97 122, character.toUpper ∈ interval 65 90 :=
      forall_mem_of_all (by decide)
    exact absurd (same ▸ capitals character small) noCapital
  · have unchanged : character.toUpper = character :=
      dif_neg fun bounds => small (mem_interval bounds.1 bounds.2)
    rwa [unchanged] at same

theorem eq_singleton_of_upper_eq {mark : Char} {text : String} (noCapital : mark ∉ interval 65 90)
    (same : upper text = String.singleton mark) : text = String.singleton mark := by
  have letters : text.toList.map Char.toUpper = [mark] := by
    rw [← toList_upper, same, String.toList_singleton]
  obtain ⟨character, found, isMark⟩ := List.map_eq_singleton_iff.mp letters
  rw [eq_of_toUpper_eq noCapital isMark] at found
  exact String.toList_injective (by simpa using found)

/-- The ASCII digits, one by one. -/
def digits : List Char := interval 48 57

theorem mem_digits {character : Char} (digit : character.isDigit = true) : character ∈ digits := by
  simp only [Char.isDigit, Bool.and_eq_true, decide_eq_true_eq] at digit
  exact mem_interval digit.1 digit.2

/-- The blank characters, one by one. -/
def blanks : List Char := blankRanges.flatMap fun range => interval range.1 range.2

theorem mem_blanks {character : Char} (blank : isBlank character = true) : character ∈ blanks := by
  obtain ⟨range, member, lower, upper⟩ := (inRanges_iff _ _).mp blank
  exact List.mem_flatMap.mpr ⟨range, member, mem_interval lower upper⟩

/-- A character of one class is not in another one if all their intervals are apart. -/
theorem not_inRanges_of_apart {ranges others : List (Nat × Nat)} {character : Char}
    (apart : ranges.all (fun range => others.all fun other =>
      range.2 < other.1 || other.2 < range.1) = true)
    (inside : inRanges ranges character = true) : inRanges others character = false := by
  obtain ⟨range, member, lower, upper⟩ := (inRanges_iff _ _).mp inside
  rw [Bool.eq_false_iff]
  intro insideOther
  obtain ⟨other, memberOther, lowerOther, upperOther⟩ := (inRanges_iff _ _).mp insideOther
  have disjoint := List.all_eq_true.mp (List.all_eq_true.mp apart range member) other memberOther
  simp only [Bool.or_eq_true, decide_eq_true_eq] at disjoint
  omega

theorem continuesWord_of_isBlank {character : Char} (blank : isBlank character = true) :
    continuesWord character = false := by
  have plain : ∀ character ∈ blanks,
      (character.toNat < 128 → character.isAlpha = false ∧ character.isDigit = false) ∧
        character ≠ '_' ∧ character ≠ '$' := forall_mem_of_all (by decide)
  obtain ⟨ascii, notLine, notDollar⟩ := plain character (mem_blanks blank)
  have lettersApart : blankRanges.all (fun range => letterRanges.all fun other =>
      range.2 < other.1 || other.2 < range.1) = true := by decide +kernel
  have numeralsApart : blankRanges.all (fun range => numeralRanges.all fun other =>
      range.2 < other.1 || other.2 < range.1) = true := by decide +kernel
  have noLetter := not_inRanges_of_apart lettersApart blank
  have noNumeral := not_inRanges_of_apart numeralsApart blank
  by_cases small : character.toNat < 128
  · simp [continuesWord, isLetter, isNumeral, small, ascii small, notLine, notDollar]
  · simp [continuesWord, isLetter, isNumeral, small, noLetter, noNumeral, notLine, notDollar]

/-! ## The parts of numbers and words -/

/-- A minus sign that may be missing. -/
def IsSign (text : List Char) : Prop := text = [] ∨ text = ['-']

/-- Decimal digits, at least one. -/
def IsDigits (text : List Char) : Prop := text ≠ [] ∧ ∀ digit ∈ text, digit.isDigit = true

/-- A point and the digits after it, of which there may be none. -/
def IsFraction (text : List Char) : Prop :=
  ∃ run, (∀ digit ∈ run, digit.isDigit = true) ∧ text = '.' :: run

/-- The letter of an exponent, a sign that may be missing, and digits. -/
def IsExponent (text : List Char) : Prop :=
  ∃ mark sign power, (mark = 'e' ∨ mark = 'E') ∧ (sign = [] ∨ sign = ['+'] ∨ sign = ['-']) ∧
    IsDigits power ∧ text = mark :: (sign ++ power)

/-- A character that starts a word, and characters that continue it. -/
def IsWord (text : List Char) : Prop :=
  ∃ first others, startsWord first = true ∧ (∀ other ∈ others, continuesWord other = true) ∧
    text = first :: others

end Text

/-! ## What follows a token -/

namespace Scan

open Text (IsDigits IsFraction IsExponent)

/-- The characters that may follow a token without a blank between. -/
def boundaries : List Char := [' ', '\n', ',', '(', ')', '=', '.']

/-- The character ends numbers and words. -/
def endsRun (character : Char) : Bool := character ∈ boundaries || Text.isBlank character

/-- The text is empty or starts with a character that ends numbers and words. -/
def Boundary (more : List Char) : Prop := ∀ character ∈ more.head?, endsRun character = true

theorem boundary_nil : Boundary [] := by simp [Boundary]

theorem boundary_cons {character : Char} {rest : List Char} (member : character ∈ boundaries) :
    Boundary (character :: rest) := by
  simp [Boundary, endsRun, member]

theorem boundary_blank {character : Char} {rest : List Char}
    (blank : Text.isBlank character = true) : Boundary (character :: rest) := by
  simp [Boundary, endsRun, blank]

namespace Boundary

variable {more : List Char}

theorem continuesWord (boundary : Boundary more) :
    ∀ character ∈ more.head?, Text.continuesWord character = false := by
  intro character member
  have all : ∀ character ∈ boundaries, Text.continuesWord character = false :=
    Text.forall_mem_of_all (by decide)
  have ends := boundary character member
  rw [endsRun, Bool.or_eq_true, decide_eq_true_eq] at ends
  exact ends.elim (all character) Text.continuesWord_of_isBlank

theorem isDigit (boundary : Boundary more) :
    ∀ character ∈ more.head?, character.isDigit = false := by
  intro character member
  have all : ∀ character ∈ Text.digits, Text.continuesWord character = true :=
    Text.forall_mem_of_all (by decide)
  have noWord := boundary.continuesWord character member
  rw [Bool.eq_false_iff]
  intro digit
  rw [all character (Text.mem_digits digit)] at noWord
  cases noWord

theorem startsWord (boundary : Boundary more) :
    ∀ character ∈ more.head?, Text.startsWord character = false := by
  intro character member
  have noWord := boundary.continuesWord character member
  simp only [Text.continuesWord, Bool.or_eq_false_iff] at noWord
  simp [Text.startsWord, noWord]

theorem ne (boundary : Boundary more) (mark : Char) (other : endsRun mark = false) :
    more.head? ≠ some mark := by
  intro head
  have ends := boundary mark head
  rw [other] at ends
  cases ends

end Boundary

/-! ## Runs -/

theorem takeWhile_append_of_stop {α : Type} {holds : α → Bool} {list more : List α}
    (stop : ∀ item ∈ more.head?, holds item = false) :
    (list ++ more).takeWhile holds = list.takeWhile holds := by
  induction list with
  | nil =>
      cases more with
      | nil => rfl
      | cons item rest => simp [stop item (by simp)]
  | cons item rest ih =>
      by_cases held : holds item = true
      · simp [held, ih]
      · simp [held]

theorem all_digits (characters : List Char) : ∀ digit ∈ digits characters, digit.isDigit = true :=
  List.all_eq_true.mp List.all_takeWhile

theorem digits_append {characters more : List Char} (boundary : Boundary more) :
    digits (characters ++ more) = digits characters :=
  takeWhile_append_of_stop boundary.isDigit

theorem digits_append_of_all {run rest : List Char} (all : ∀ digit ∈ run, digit.isDigit = true)
    (stop : ∀ character ∈ rest.head?, character.isDigit = false) : digits (run ++ rest) = run := by
  have none : ([] ++ rest).takeWhile Char.isDigit = [] := takeWhile_append_of_stop stop
  rw [List.nil_append] at none
  rw [digits, List.takeWhile_append_of_pos all, none, List.append_nil]

theorem digits_of_all {run : List Char} (all : ∀ digit ∈ run, digit.isDigit = true) :
    digits run = run := by
  have same : digits (run ++ []) = run := digits_append_of_all all (by simp)
  rwa [List.append_nil] at same

theorem fraction_append {characters more : List Char} (boundary : Boundary more)
    (noPoint : characters = [] → more.head? ≠ some '.') :
    fraction (characters ++ more) = fraction characters := by
  cases characters with
  | nil =>
      cases more with
      | nil => rfl
      | cons character rest =>
          have other : character ≠ '.' := by simpa using noPoint rfl
          simp only [List.nil_append]
          unfold fraction
          split
          · rename_i same
            exact absurd (List.cons.inj same).1 other
          · rfl
  | cons character rest =>
      by_cases isPoint : character = '.'
      · subst isPoint
        simp [fraction, digits_append boundary]
      · simp [fraction, isPoint]

theorem exponentSign_append {characters more : List Char} (boundary : Boundary more) :
    exponentSign (characters ++ more) = exponentSign characters := by
  cases characters with
  | nil =>
      have noPlus := boundary.ne '+' (by decide)
      have noMinus := boundary.ne '-' (by decide)
      cases more with
      | nil => rfl
      | cons character rest =>
          simp only [List.head?_cons, ne_eq, Option.some.injEq] at noPlus noMinus
          simp [exponentSign, noPlus, noMinus]
  | cons character rest =>
      simp only [List.cons_append]
      unfold exponentSign
      split <;> simp_all

theorem prefix_exponentSign (characters : List Char) : exponentSign characters <+: characters := by
  unfold exponentSign
  split
  · simp
  · simp
  · exact List.nil_prefix

theorem exponent_append {characters more : List Char} (boundary : Boundary more) :
    exponent (characters ++ more) = exponent characters := by
  cases characters with
  | nil =>
      have noLower := boundary.ne 'e' (by decide)
      have noUpper := boundary.ne 'E' (by decide)
      cases more with
      | nil => rfl
      | cons character rest =>
          simp only [List.head?_cons, ne_eq, Option.some.injEq] at noLower noUpper
          simp [exponent, noLower, noUpper]
  | cons mark rest =>
      simp only [List.cons_append, exponent, exponentSign_append boundary]
      rw [List.drop_append_of_le_length (prefix_exponentSign rest).length_le,
        digits_append boundary]

theorem word_append {characters more : List Char} (boundary : Boundary more) :
    word (characters ++ more) = word characters :=
  takeWhile_append_of_stop boundary.continuesWord

/-! ## Where a number ends -/

theorem prefix_digits (characters : List Char) : digits characters <+: characters :=
  List.takeWhile_prefix _

theorem prefix_word (characters : List Char) : word characters <+: characters :=
  List.takeWhile_prefix _

theorem prefix_fraction (characters : List Char) : fraction characters <+: characters := by
  unfold fraction
  split
  · exact (List.prefix_cons_inj _).mpr (prefix_digits _)
  · exact List.nil_prefix

/-- Two runs, the second of which starts where the first ends. -/
theorem prefix_append {first second characters : List Char} (before : first <+: characters)
    (after : second <+: characters.drop first.length) : first ++ second <+: characters := by
  obtain ⟨rest, rfl⟩ := before
  rw [List.drop_left] at after
  exact (List.prefix_append_right_inj first).mpr after

theorem prefix_exponent (characters : List Char) : exponent characters <+: characters := by
  unfold exponent
  split
  · exact List.nil_prefix
  · dsimp only
    split
    · exact (List.prefix_cons_inj _).mpr (prefix_append (prefix_exponentSign _) (prefix_digits _))
    · exact List.nil_prefix

/-- The text of a number is where reading starts. -/
theorem prefix_number (characters : List Char) : (number characters).2 <+: characters := by
  simp only [number]
  split
  · split
    · split
      · exact prefix_append (prefix_digits _) (prefix_word _)
      · exact prefix_digits _
    · exact prefix_digits _
  · rw [List.append_assoc]
    exact prefix_append (prefix_digits _) (prefix_append (prefix_fraction _) (prefix_exponent _))

/-- What follows a number does not change it. -/
theorem number_append {characters more : List Char} (boundary : Boundary more)
    (noPoint : (number characters).1 = .integer → more.head? ≠ some '.') :
    number (characters ++ more) = number characters := by
  have wholeBound := (prefix_digits characters).length_le
  have pointBound := (prefix_fraction (characters.drop (digits characters).length)).length_le
  cases after : characters.drop (digits characters).length with
  | nil =>
      have isInteger : (number characters).1 = .integer := by
        simp [number, after, fraction, exponent]
      have noFraction : fraction ([] ++ more) = [] :=
        fraction_append boundary fun _ => noPoint isInteger
      have noExponent : exponent ([] ++ more) = [] := exponent_append boundary
      rw [List.nil_append] at noFraction noExponent
      simp only [number, digits_append boundary, List.drop_append_of_le_length wholeBound, after,
        List.nil_append, noFraction]
      cases more with
      | nil => rfl
      | cons next rest =>
          have notWord := boundary.startsWord next (by simp)
          simp [fraction, noExponent, show exponent [] = [] from rfl, notWord]
  | cons next rest =>
      have sameFraction : fraction (next :: rest ++ more) = fraction (next :: rest) :=
        fraction_append boundary (by simp)
      rw [after] at pointBound
      have sameExponent : exponent ((next :: rest).drop (fraction (next :: rest)).length ++ more) =
          exponent ((next :: rest).drop (fraction (next :: rest)).length) :=
        exponent_append boundary
      have sameWord : word (next :: rest ++ more) = word (next :: rest) := word_append boundary
      simp only [number, digits_append boundary, List.drop_append_of_le_length wholeBound, after,
        sameFraction, List.drop_append_of_le_length pointBound, sameExponent, sameWord]
      rfl

/-! ## A number by itself -/

/-- An exponent that is found is a letter, a sign and digits. -/
theorem exponent_cases (characters : List Char) :
    exponent characters = [] ∨ IsExponent (exponent characters) := by
  cases characters with
  | nil => exact .inl rfl
  | cons mark rest =>
      by_cases found : (mark = 'e' ∨ mark = 'E') ∧
          digits (rest.drop (exponentSign rest).length) ≠ []
      · refine .inr ⟨mark, exponentSign rest, _, found.1, ?_, ⟨found.2, all_digits _⟩, if_pos found⟩
        unfold exponentSign
        split <;> simp
      · exact .inl (if_neg found)

/-- An exponent is found again in its own text. -/
theorem exponent_exponent (characters : List Char) :
    exponent (exponent characters) = exponent characters := by
  rcases exponent_cases characters with
    none | ⟨mark, sign, power, letter, signed, ⟨some, all⟩, found⟩
  · rw [none]
    rfl
  · obtain ⟨first, others, rfl⟩ := List.exists_cons_of_ne_nil some
    have digit : first.isDigit = true := all first (by simp)
    have noPlus : first ≠ '+' := by rintro rfl; exact absurd digit (by decide)
    have noMinus : first ≠ '-' := by rintro rfl; exact absurd digit (by decide)
    have power : digits (first :: others) = first :: others := digits_of_all all
    have sign : exponentSign (sign ++ first :: others) = sign := by
      rcases signed with rfl | rfl | rfl
      · simp [exponentSign, noPlus, noMinus]
      · rfl
      · rfl
    rw [found, exponent]
    simp [sign, power, letter]

/-- A fraction that is found is a point and digits. -/
theorem fraction_cases (characters : List Char) :
    fraction characters = [] ∨ IsFraction (fraction characters) := by
  unfold fraction
  split
  · exact .inr ⟨_, all_digits _, rfl⟩
  · exact .inl rfl

/-- What an exponent starts with is no digit. -/
theorem isDigit_head_exponent (characters : List Char) :
    ∀ character ∈ (exponent characters).head?, character.isDigit = false := by
  rcases exponent_cases characters with none | ⟨mark, sign, power, letter, _, _, found⟩
  · simp [none]
  · rcases letter with rfl | rfl <;> simp [found]

theorem fraction_fraction_exponent (characters others : List Char) :
    fraction (fraction characters ++ exponent others) = fraction characters := by
  rcases fraction_cases characters with none | ⟨run, all, found⟩
  · rw [none, List.nil_append]
    rcases exponent_cases others with noExponent | ⟨mark, sign, power, letter, _, _, exponent⟩
    · rw [noExponent]
      rfl
    · rcases letter with rfl | rfl <;> rw [exponent] <;> rfl
  · rw [found, List.cons_append, fraction]
    rw [digits_append_of_all all (isDigit_head_exponent others)]

/-- The three forms of a number. -/
inductive NumberForm (characters : List Char) : Token.Kind × List Char → Prop where
  /-- Digits. -/
  | integer : NumberForm characters (.integer, digits characters)
  /-- Digits and a word after them. -/
  | word {next : Char} {rest : List Char}
      (after : characters.drop (digits characters).length = next :: rest)
      (starts : Text.startsWord next = true) (noExponent : exponent (next :: rest) = []) :
      NumberForm characters (.word, digits characters ++ Scan.word (next :: rest))
  /-- Digits and a fraction or an exponent after them. -/
  | float {fractional others : List Char}
      (some : fraction fractional ≠ [] ∨ exponent others ≠ []) :
      NumberForm characters (.float, digits characters ++ fraction fractional ++ exponent others)

theorem number_form (characters : List Char) : NumberForm characters (number characters) := by
  simp only [number]
  split
  · rename_i none
    split
    · rename_i next rest after
      split
      · rename_i starts
        rw [after] at none
        have noExponent : exponent (next :: rest) = [] := by
          have noFraction := none.1
          rw [noFraction] at none
          exact none.2
        rw [after]
        exact .word after starts noExponent
      · exact .integer
    · exact .integer
  · rename_i some
    exact .float (by simpa [Classical.or_iff_not_imp_left] using some)

theorem isDigit_of_startsWord {character : Char} (starts : Text.startsWord character = true) :
    character.isDigit = false := by
  have all : ∀ character ∈ Text.digits, Text.startsWord character = false :=
    Text.forall_mem_of_all (by decide)
  rw [Bool.eq_false_iff]
  intro digit
  rw [all character (Text.mem_digits digit)] at starts
  cases starts

theorem continuesWord_of_startsWord {character : Char}
    (starts : Text.startsWord character = true) : Text.continuesWord character = true := by
  simp only [Text.startsWord, Text.continuesWord, Bool.or_eq_true] at starts ⊢
  rcases starts with (letter | underscore) | dollar
  · exact .inl (.inl (.inl letter))
  · exact .inl (.inr underscore)
  · exact .inr dollar

theorem word_of_all {run : List Char} (all : ∀ other ∈ run, Text.continuesWord other = true) :
    word run = run := by
  have same : (run ++ []).takeWhile Text.continuesWord = run ++ [] :=
    List.takeWhile_append_of_pos all
  rwa [List.append_nil] at same

theorem word_word (characters : List Char) : word (word characters) = word characters :=
  word_of_all (List.all_eq_true.mp List.all_takeWhile)

theorem exponent_word {mark : Char} {rest : List Char} (noExponent : exponent (mark :: rest) = []) :
    exponent (mark :: word rest) = [] := by
  by_cases letter : mark = 'e' ∨ mark = 'E'
  · cases rest with
    | nil => exact noExponent
    | cons next others =>
        by_cases continues : Text.continuesWord next = true
        · have noPlus : next ≠ '+' := by rintro rfl; exact absurd continues (by decide)
          have noMinus : next ≠ '-' := by rintro rfl; exact absurd continues (by decide)
          have notDigit : next.isDigit = false := by
            simp only [exponent, exponentSign] at noExponent
            simpa [letter, noPlus, noMinus, digits, List.takeWhile_cons] using noExponent
          simp [exponent, exponentSign, word, continues, noPlus, noMinus, digits, notDigit]
        · simp [exponent, exponentSign, word, continues, digits]
  · simp [exponent, letter]

/-- A number is found again in its own text. -/
theorem number_number {characters text : List Char} {kind : Token.Kind}
    (found : number characters = (kind, text)) : number text = (kind, text) := by
  have form := number_form characters
  rw [found] at form
  have all := all_digits characters
  cases form with
  | integer =>
      have same : digits (digits characters) = digits characters := digits_of_all all
      simp [number, same, fraction, exponent]
  | @word next rest after starts noExponent =>
      have word : Scan.word (next :: rest) = next :: Scan.word rest := by
        simp [Scan.word, continuesWord_of_startsWord starts]
      have whole : digits (digits characters ++ next :: Scan.word rest) = digits characters :=
        digits_append_of_all all (by simpa using isDigit_of_startsWord starts)
      have noPoint : next ≠ '.' := by rintro rfl; exact absurd starts (by decide)
      have again : Scan.word (next :: Scan.word rest) = next :: Scan.word rest := by
        rw [← word, word_word]
      rw [word]
      simp [number, whole, fraction, noPoint, exponent_word noExponent, starts, again]
  | @float fractional others some =>
      have stop : ∀ character ∈ (fraction fractional ++ exponent others).head?,
          character.isDigit = false := by
        rcases fraction_cases fractional with none | ⟨run, _, point⟩
        · rw [none, List.nil_append]
          exact isDigit_head_exponent others
        · simp [point]
      have whole : digits (digits characters ++ (fraction fractional ++ exponent others)) =
          digits characters := digits_append_of_all all stop
      have point := fraction_fraction_exponent fractional others
      have power := exponent_exponent others
      rw [List.append_assoc]
      have notBoth : ¬ (fraction fractional = [] ∧ exponent others = []) := by
        rintro ⟨noFraction, noExponent⟩
        exact some.elim (· noFraction) (· noExponent)
      simp [number, whole, point, power, notBoth]

/-! ## Integers -/

/-- What follows goes on with no integer: it starts with no digit, no point and no letter. -/
def EndsInteger (rest : List Char) : Prop :=
  ∀ next ∈ rest.head?, next.isDigit = false ∧ next ≠ '.' ∧ Text.startsWord next = false

theorem Boundary.endsInteger {more : List Char} (boundary : Boundary more)
    (noPoint : more.head? ≠ some '.') : EndsInteger more := by
  intro next first
  refine ⟨boundary.isDigit next first, ?_, boundary.startsWord next first⟩
  rintro rfl
  exact noPoint first

/-- Digits are an integer if what follows does not go on with it. -/
theorem number_of_digits {run rest : List Char} (whole : IsDigits run) (ends : EndsInteger rest) :
    number (run ++ rest) = (.integer, run) := by
  have same : digits (run ++ rest) = run :=
    digits_append_of_all whole.2 fun next first => (ends next first).1
  simp only [number, same, List.drop_left]
  cases rest with
  | nil => simp [fraction, exponent]
  | cons next rest =>
      obtain ⟨-, noPoint, noWord⟩ := ends next rfl
      have noExponent : exponent (next :: rest) = [] := by
        refine if_neg fun found => ?_
        rcases found.1 with rfl | rfl <;> exact absurd noWord (by decide)
      simp [fraction, noPoint, noExponent, noWord]

end Scan

end TableDdl
