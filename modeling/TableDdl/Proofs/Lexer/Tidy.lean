import TableDdl.Proofs.Lexer.Raw
import TableDdl.Proofs.Script.Layout

/-!
# Texts without blanks beside line breaks

A text is tidied by removing blanks at its ends and beside its line breaks, and line breaks beside
others. Blanks only separate tokens, so that a tidied text has the same tokens, unless a token
itself is written with a line break that has another blank beside it: there the blank is part of the
token.
-/

namespace TableDdl

namespace Text

/-- No line break among the characters stands beside another blank. -/
def isFirm : List Char → Bool
  | first :: second :: rest =>
      !(isBlank first && isBlank second && (first == '\n' || second == '\n')) &&
        isFirm (second :: rest)
  | _ => true

theorem isFirm_tail {first : Char} {rest : List Char} (firm : isFirm (first :: rest) = true) :
    isFirm rest = true := by
  cases rest with
  | nil => rfl
  | cons second rest =>
      rw [isFirm, Bool.and_eq_true] at firm
      exact firm.2

/-- Beside a line break there is no other blank. -/
theorem ne_break_of_isFirm {first second : Char} {rest : List Char}
    (firm : isFirm (first :: second :: rest) = true) (blank : isBlank first = true)
    (blankNext : isBlank second = true) : first ≠ '\n' ∧ second ≠ '\n' := by
  rw [isFirm, Bool.and_eq_true] at firm
  simpa [blank, blankNext] using firm.1

theorem isBlank_break : isBlank '\n' = true := by decide

theorem ne_break_of_solid {character : Char} (solid : isBlank character = false) :
    character ≠ '\n' := by
  rintro rfl
  rw [isBlank_break] at solid
  cases solid

end Text

namespace Lexer

open Text

variable {operand after : Bool} {character : Char} {raw tidy piece : List Char}

/-! ## Tidied texts -/

/-- The second text is the first one, up to blanks that are removed at its start, after a line
break, before a line break and at its end. The flag says whether the text stands at a start or after
a line break. -/
inductive Tidied : Bool → List Char → List Char → Prop where
  /-- The end. -/
  | nil {after : Bool} : Tidied after [] []
  /-- A character that stays. -/
  | keep {after : Bool} (character : Char) {raw tidy : List Char}
      (others : Tidied (character == '\n') raw tidy) :
      Tidied after (character :: raw) (character :: tidy)
  /-- A blank that is removed at the start of a line. -/
  | leading {character : Char} {raw tidy : List Char} (blank : isBlank character = true)
      (others : Tidied true raw tidy) : Tidied true (character :: raw) tidy
  /-- A blank that is removed at the end of a line. -/
  | trailing {after : Bool} {character : Char} {raw tidy : List Char}
      (blank : isBlank character = true) (ends : ∀ next ∈ tidy.head?, next = '\n')
      (others : Tidied after raw tidy) : Tidied after (character :: raw) tidy

namespace Tidied

theorem eq_nil (tidied : Tidied after [] tidy) : tidy = [] := by
  cases tidied
  rfl

/-- Only blanks are removed. -/
theorem solid (tidied : Tidied after (character :: raw) tidy)
    (solid : isBlank character = false) :
    ∃ others, tidy = character :: others ∧ Tidied false raw others := by
  cases tidied with
  | keep _ others =>
      rw [beq_false_of_ne (ne_break_of_solid solid)] at others
      exact ⟨_, rfl, others⟩
  | leading blank others => simp [solid] at blank
  | trailing blank ends others => simp [solid] at blank

/-- The text is empty or starts with a blank. -/
def Gap (more : List Char) : Prop := ∀ next ∈ more.head?, isBlank next = true

theorem Gap.boundary {more : List Char} (gap : Gap more) : Scan.Boundary more :=
  fun next first => by simp [Scan.endsRun, gap next first]

theorem Gap.head?_ne {more : List Char} {mark : Char} (gap : Gap more)
    (solid : isBlank mark = false) : more.head? ≠ some mark :=
  fun first => by simp [gap mark first] at solid

/-- Up to the next blank both texts are the same. -/
theorem run (tidied : Tidied false raw tidy) :
    ∃ run more moreTidy, raw = run ++ more ∧ tidy = run ++ moreTidy ∧
      (∀ character ∈ run, isBlank character = false) ∧ Gap more ∧ Gap moreTidy ∧
      Tidied false more moreTidy := by
  induction raw generalizing tidy with
  | nil =>
      obtain rfl := tidied.eq_nil
      exact ⟨[], [], [], rfl, rfl, by simp, by simp [Gap], by simp [Gap], .nil⟩
  | cons character raw ih =>
      cases isBlank : Text.isBlank character with
      | false =>
          obtain ⟨others, rfl, tidiedOthers⟩ := tidied.solid isBlank
          obtain ⟨run, more, moreTidy, rfl, rfl, solidRun, gap, gapTidy, rest⟩ := ih tidiedOthers
          exact ⟨character :: run, more, moreTidy, rfl, rfl,
            List.forall_mem_cons.mpr ⟨isBlank, solidRun⟩, gap, gapTidy, rest⟩
      | true =>
          have gapTidy : Gap tidy := by
            intro next first
            cases tidied with
            | keep _ others =>
                obtain rfl : character = next := by simpa using first
                exact isBlank
            | trailing blank ends others =>
                rw [ends next first]
                exact isBlank_break
          exact ⟨[], character :: raw, tidy, rfl, rfl, by simp, by simpa [Gap] using isBlank,
            gapTidy, tidied⟩

theorem run_append {run : List Char} (solid : ∀ character ∈ run, isBlank character = false)
    (tidied : Tidied false raw tidy) : Tidied false (run ++ raw) (run ++ tidy) := by
  induction run with
  | nil => exact tidied
  | cons character run ih =>
      obtain ⟨here, there⟩ := List.forall_mem_cons.mp solid
      have others := ih there
      rw [← beq_false_of_ne (ne_break_of_solid here)] at others
      exact .keep character others

/-- Where a solid character follows blanks none of which is a line break, none of them is the last
of its line. -/
theorem head?_of_firm {rest : List Char} {last : Char}
    (tidied : Tidied after (rest ++ last :: raw) tidy) (solid : isBlank last = false)
    (blank : isBlank character = true) (firm : isFirm (character :: (rest ++ [last])) = true) :
    ∃ next ∈ tidy.head?, next ≠ '\n' := by
  induction rest generalizing after character with
  | nil =>
      obtain ⟨others, rfl, -⟩ := tidied.solid solid
      exact ⟨last, rfl, ne_break_of_solid solid⟩
  | cons next rest ih =>
      cases isBlank : Text.isBlank next with
      | false =>
          obtain ⟨others, rfl, -⟩ := tidied.solid isBlank
          exact ⟨next, rfl, ne_break_of_solid isBlank⟩
      | true =>
          have notBreak := (ne_break_of_isFirm firm blank isBlank).2
          cases tidied with
          | keep _ others => exact ⟨next, rfl, notBreak⟩
          | leading _ others => exact ih others isBlank (isFirm_tail firm)
          | trailing _ _ others => exact ih others isBlank (isFirm_tail firm)

/-- A piece that starts and ends with a solid character stays as it is, if no line break in it has
another blank beside it. -/
theorem firm {last : Char} (tidied : Tidied after (piece ++ last :: raw) tidy)
    (solid : isBlank last = false) (firm : isFirm (piece ++ [last]) = true)
    (starts : after = true → ∀ first ∈ (piece ++ [last]).head?, isBlank first = false) :
    ∃ others, tidy = piece ++ last :: others ∧ Tidied false raw others := by
  induction piece generalizing after tidy with
  | nil => exact tidied.solid solid
  | cons character piece ih =>
      have firmTail := isFirm_tail firm
      cases isBlank : Text.isBlank character with
      | false =>
          obtain ⟨kept, rfl, tidiedKept⟩ := tidied.solid isBlank
          obtain ⟨others, rfl, rest⟩ := ih tidiedKept firmTail (by simp)
          exact ⟨others, rfl, rest⟩
      | true =>
          cases tidied with
          | keep _ kept =>
              obtain ⟨others, rfl, rest⟩ := ih kept firmTail fun isBreak first member => by
                obtain ⟨more, split⟩ := List.head?_eq_some_iff.mp member
                rw [List.cons_append, split] at firm
                by_contra blank
                exact (ne_break_of_isFirm firm isBlank (by simpa using blank)).1
                  (eq_of_beq isBreak)
              exact ⟨others, rfl, rest⟩
          | leading _ others => simp [isBlank] at starts
          | trailing _ ends others =>
              obtain ⟨next, first, notBreak⟩ := others.head?_of_firm solid isBlank firm
              exact absurd (ends next first) notBreak

/-! ## Lines -/

theorem refl (characters : List Char) (after : Bool) : Tidied after characters characters := by
  induction characters generalizing after with
  | nil => exact .nil
  | cons character rest ih => exact .keep character (ih _)

theorem of_blanks {blanks : List Char} (blank : ∀ character ∈ blanks, isBlank character = true)
    (tidied : Tidied true raw tidy) : Tidied true (blanks ++ raw) tidy := by
  induction blanks with
  | nil => exact tidied
  | cons character blanks ih =>
      obtain ⟨here, there⟩ := List.forall_mem_cons.mp blank
      exact .leading here (ih there)

theorem append_blanks {blanks : List Char} (tidied : Tidied after raw tidy)
    (blank : ∀ character ∈ blanks, isBlank character = true) :
    Tidied after (raw ++ blanks) tidy := by
  induction tidied with
  | @nil after =>
      induction blanks with
      | nil => exact .nil
      | cons character blanks ih =>
          obtain ⟨here, there⟩ := List.forall_mem_cons.mp blank
          exact .trailing here (by simp) (ih there)
  | keep character others ih => exact .keep character ih
  | leading blank others ih => exact .leading blank ih
  | trailing blank ends others ih => exact .trailing blank ends ih

/-- A line without the blanks at its ends. -/
theorem trimmed (characters : List Char) : Tidied true characters (trimChars characters) := by
  have front := List.takeWhile_append_dropWhile (p := isBlank) (l := characters)
  have back := List.takeWhile_append_dropWhile (p := isBlank)
    (l := (characters.dropWhile isBlank).reverse)
  have split : characters.dropWhile isBlank = trimChars characters ++
      ((characters.dropWhile isBlank).reverse.takeWhile isBlank).reverse := by
    rw [trimChars, ← List.reverse_append, back, List.reverse_reverse]
  have tidied : Tidied true (characters.takeWhile isBlank ++ characters.dropWhile isBlank)
      (trimChars characters) := by
    refine of_blanks (fun _ => List.mem_takeWhile_imp) ?_
    rw [split]
    exact (refl _ true).append_blanks fun _ member =>
      List.mem_takeWhile_imp (List.mem_reverse.mp member)
  rwa [front] at tidied

/-- What follows blanks only stands at the start. -/
theorem append_start {more moreTidy : List Char} (tidied : Tidied true raw [])
    (others : Tidied true more moreTidy) : Tidied true (raw ++ more) moreTidy := by
  generalize flag : true = after at tidied
  generalize none : ([] : List Char) = tidy at tidied
  induction tidied with
  | nil => exact flag ▸ others
  | keep => cases none
  | leading blank _ ih => exact .leading blank (ih rfl none)
  | trailing blank _ _ ih =>
      subst flag
      exact .leading blank (ih rfl none)

theorem append_line {more moreTidy : List Char} (tidied : Tidied after raw tidy)
    (others : Tidied true more moreTidy) :
    Tidied after (raw ++ '\n' :: more) (tidy ++ '\n' :: moreTidy) := by
  induction tidied with
  | nil => exact .keep '\n' others
  | keep character _ ih => exact .keep character ih
  | leading blank _ ih => exact .leading blank ih
  | @trailing _ _ _ tidy blank ends _ ih =>
      refine .trailing blank ?_ ih
      cases tidy with
      | nil => simp
      | cons next rest => simpa using ends

/-! ## Comments -/

/-- The rests of a line are tidied alike. -/
theorem line (tidied : Tidied false raw tidy) :
    Tidied false (raw.dropWhile (· ≠ '\n')) (tidy.dropWhile (· ≠ '\n')) := by
  generalize flag : false = after at tidied
  induction tidied with
  | nil => exact .nil
  | @keep after character raw tidy others ih =>
      by_cases isBreak : character = '\n'
      · subst isBreak
        exact .keep '\n' others
      · have others := ih (beq_false_of_ne isBreak).symm
        rw [beq_false_of_ne isBreak] at others
        subst flag
        simpa [isBreak] using others
  | leading blank others ih => cases flag
  | @trailing after character raw tidy blank ends others ih =>
      have stays : tidy.dropWhile (· ≠ '\n') = tidy := by
        cases tidy with
        | nil => rfl
        | cons next rest => simp [ends next rfl]
      subst flag
      by_cases isBreak : character = '\n'
      · subst isBreak
        rw [stays]
        exact .trailing blank ends others
      · simpa [isBreak] using ih rfl

theorem comment {location ended : Location} {left : List Char} (tidied : Tidied after raw tidy)
    (closed : Scan.comment location raw = some (ended, left)) (place : Location) :
    ∃ endedTidy leftTidy, Scan.comment place tidy = some (endedTidy, leftTidy) ∧
      Tidied false left leftTidy := by
  fun_induction Scan.comment location raw generalizing after tidy place with
  | case1 => simp at closed
  | case2 => simp at closed
  | case3 location character next rest marks =>
      obtain ⟨-, rfl⟩ : location.right 2 = ended ∧ rest = left := by simpa using closed
      obtain ⟨rfl, rfl⟩ := marks
      obtain ⟨others, rfl, tidiedOthers⟩ := tidied.solid (by decide)
      obtain ⟨leftTidy, rfl, rest⟩ := tidiedOthers.solid (by decide)
      exact ⟨place.right 2, leftTidy, rfl, rest⟩
  | case4 location character next rest noMarks ih =>
      cases tidied with
      | @keep _ _ _ others tidiedOthers =>
          obtain ⟨endedTidy, leftTidy, found, rest⟩ :=
            ih tidiedOthers closed (place.after character)
          refine ⟨endedTidy, leftTidy, ?_, rest⟩
          obtain ⟨first, more, rfl⟩ : ∃ first more, others = first :: more := by
            cases others with
            | nil => simp [Scan.comment] at found
            | cons first more => exact ⟨first, more, rfl⟩
          rw [Scan.comment, if_neg ?_, found]
          rintro ⟨rfl, rfl⟩
          -- What follows the star in the tidied text follows it in the other one.
          cases tidiedOthers with
          | keep => exact noMarks ⟨rfl, rfl⟩
          | trailing _ ends => exact absurd (ends '/' rfl) (by decide)
      | leading _ others => exact ih others closed place
      | trailing _ _ others => exact ih others closed place

end Tidied

/-! ## Lexemes -/

/-- A quoted text ends with its mark, and is read in the same way whatever follows, unless that is
the mark once more. -/
theorem Closes.exists_inner {mark : Char} {escapes : Bool} {characters text left : List Char}
    (closes : Closes mark escapes characters text left) :
    left.head? ≠ some mark ∧ ∃ inner, characters = inner ++ mark :: left ∧ ∀ other,
      other.head? ≠ some mark → Closes mark escapes (inner ++ mark :: other) text other := by
  induction closes with
  | close single => exact ⟨single, [], rfl, fun other apart => .close apart⟩
  | doubled after ih =>
      obtain ⟨single, inner, rfl, swap⟩ := ih
      exact ⟨single, mark :: mark :: inner, rfl, fun other apart => .doubled (swap other apart)⟩
  | @escape character _ _ _ isEscape after ih =>
      obtain ⟨single, inner, rfl, swap⟩ := ih
      exact ⟨single, Text.backslash :: character :: inner, rfl,
        fun other apart => .escape isEscape (swap other apart)⟩
  | @plain character _ _ _ isOther noEscape after ih =>
      obtain ⟨single, inner, rfl, swap⟩ := ih
      exact ⟨single, character :: inner, rfl,
        fun other apart => .plain isOther noEscape (swap other apart)⟩

/-! Lexemes that end at a blank are read in the same way from a tidied text. -/

namespace Tidied

theorem drop_run {run more moreTidy : List Char} {count : Nat} (tidied : Tidied false more moreTidy)
    (solid : ∀ character ∈ run, isBlank character = false) (bound : count ≤ run.length) :
    Tidied false ((run ++ more).drop count) ((run ++ moreTidy).drop count) := by
  rw [List.drop_append_of_le_length bound, List.drop_append_of_le_length bound]
  exact run_append (fun character member => solid character (List.mem_of_mem_drop member)) tidied

theorem head?_iff {mark : Char} (tidied : Tidied false raw tidy) (solid : isBlank mark = false) :
    tidy.head? = some mark ↔ raw.head? = some mark := by
  obtain ⟨run, more, moreTidy, rfl, rfl, -, gap, gapTidy, -⟩ := tidied.run
  rw [head?_append_iff (gap.head?_ne solid), head?_append_iff (gapTidy.head?_ne solid)]

theorem any_isDigit (tidied : Tidied false raw tidy) :
    tidy.head?.any Char.isDigit = raw.head?.any Char.isDigit := by
  obtain ⟨run, more, moreTidy, rfl, rfl, -, gap, gapTidy, -⟩ := tidied.run
  rw [any_isDigit_append gap.boundary, any_isDigit_append gapTidy.boundary]

theorem number (tidied : Tidied false raw tidy) :
    Scan.number tidy = Scan.number raw ∧ Tidied false
      (raw.drop (Scan.number raw).2.length) (tidy.drop (Scan.number raw).2.length) := by
  obtain ⟨run, more, moreTidy, rfl, rfl, solid, gap, gapTidy, others⟩ := tidied.run
  rw [Scan.number_append gap.boundary fun _ => gap.head?_ne (by decide),
    Scan.number_append gapTidy.boundary fun _ => gapTidy.head?_ne (by decide)]
  exact ⟨rfl, others.drop_run solid (Scan.prefix_number run).length_le⟩

theorem word (tidied : Tidied false raw tidy) :
    Scan.word tidy = Scan.word raw ∧ Tidied false
      (raw.drop (Scan.word raw).length) (tidy.drop (Scan.word raw).length) := by
  obtain ⟨run, more, moreTidy, rfl, rfl, solid, gap, gapTidy, others⟩ := tidied.run
  rw [Scan.word_append gap.boundary, Scan.word_append gapTidy.boundary]
  exact ⟨rfl, others.drop_run solid (Scan.prefix_word run).length_le⟩

end Tidied

/-- What lies between marks is read in the same way from a tidied text. -/
theorem Closes.tidied {mark : Char} {escapes : Bool} {rest text left : List Char}
    (closes : Closes mark escapes rest text left) (opening : List Char)
    (solid : isBlank mark = false)
    (split : opening ++ rest = piece ++ left) (firm : isFirm piece = true)
    (starts : ∃ first ∈ opening.head?, isBlank first = false)
    (tidied : Tidied after (opening ++ rest) tidy) :
    ∃ restTidy leftTidy, tidy = opening ++ restTidy ∧
      Closes mark escapes restTidy text leftTidy ∧ Tidied false left leftTidy := by
  obtain ⟨single, inner, rfl, swap⟩ := closes.exists_inner
  obtain rfl : piece = opening ++ inner ++ [mark] := by
    refine List.append_cancel_right (split.symm.trans ?_)
    simp
  obtain ⟨first, head, solidFirst⟩ := starts
  rw [← List.append_assoc] at tidied
  obtain ⟨leftTidy, rfl, others⟩ := tidied.firm solid firm fun _ other member => by
    obtain ⟨more, rfl⟩ := List.head?_eq_some_iff.mp head
    obtain rfl : first = other := by simpa using member
    exact solidFirst
  exact ⟨inner ++ mark :: leftTidy, leftTidy, by simp,
    swap _ (mt (others.head?_iff solid).mp single), others⟩

/-- A lexeme with tokens is read in the same way from a tidied text. -/
theorem Step.tidied {middle : List Char} {tokens : List Token}
    (step : Step operand (piece ++ middle) tokens middle) (nonempty : tokens ≠ [])
    (firm : isFirm piece = true) (tidied : Tidied after (piece ++ middle) tidy) :
    ∃ middleTidy, Step operand tidy tokens middleTidy ∧ Tidied false middle middleTidy := by
  generalize whole : piece ++ middle = characters at step tidied
  cases step with
  | blank isBlank => exact absurd rfl nonempty
  | line mark => exact absurd rfl nonempty
  | comment closed => exact absurd rfl nonempty
  | @string quote rest text left mark closes =>
      have solid : isBlank quote = false := by rcases mark with rfl | rfl <;> decide
      obtain ⟨restTidy, leftTidy, rfl, closesTidy, others⟩ :=
        closes.tidied [quote] solid whole.symm firm ⟨quote, rfl, solid⟩ tidied
      exact ⟨leftTidy, .string mark closesTidy, others⟩
  | @name rest text left closes =>
      obtain ⟨restTidy, leftTidy, rfl, closesTidy, others⟩ :=
        closes.tidied [Text.backtick] (by decide) whole.symm firm
          ⟨Text.backtick, rfl, by decide⟩ tidied
      exact ⟨leftTidy, .name closesTidy, others⟩
  | @number character rest text kind digit scanned =>
      have solid := isBlank_of_isDigit digit
      obtain ⟨restTidy, rfl, others⟩ := tidied.solid solid
      rw [← beq_false_of_ne (ne_break_of_solid solid)] at others
      obtain ⟨same, left⟩ := (Tidied.keep character others : Tidied false _ _).number
      rw [scanned] at same left
      obtain ⟨digits, rfl⟩ := number_starts digit scanned
      exact ⟨_, .number digit same, left⟩
  | @signed rest text kind noOperand digit scanned =>
      obtain ⟨restTidy, rfl, others⟩ := tidied.solid (by decide)
      obtain ⟨same, left⟩ := others.number
      rw [scanned] at same left
      exact ⟨_, .signed noOperand (others.any_isDigit.trans digit) same, left⟩
  | @mark character rest kind known noLine noComment noSign =>
      obtain ⟨notBlank, -⟩ := plain_of_mem_marks (mem_marks_of_punctuation? known)
      obtain ⟨restTidy, rfl, others⟩ := tidied.solid notBlank
      refine ⟨restTidy, .mark known ?_ ?_ ?_, others⟩
      · rwa [others.head?_iff (by decide)]
      · rwa [others.head?_iff (by decide)]
      · rwa [others.any_isDigit]
  | @binary character rest text left letter closes =>
      obtain ⟨restTidy, leftTidy, rfl, closesTidy, others⟩ :=
        closes.tidied [character, Text.singleQuote] (by decide) whole.symm firm
          ⟨character, rfl, (plain_of_mem_binaryMarks letter).1⟩ tidied
      exact ⟨leftTidy, .binary letter closesTidy, others⟩
  | @word character rest notBlank starts noBinary =>
      obtain ⟨restTidy, rfl, others⟩ := tidied.solid notBlank
      obtain ⟨same, left⟩ := others.word
      rw [← others.head?_iff (by decide)] at noBinary
      refine ⟨_, ?_, left⟩
      rw [← same]
      exact .word notBlank starts noBinary

/-- A lexeme without tokens is removed, or read in the same way from a tidied text. -/
theorem Step.tidied_gap {middle : List Char} (step : Step operand raw [] middle)
    (tidied : Tidied after raw tidy) :
    ∃ flag middleTidy, Lexes operand tidy [] middleTidy ∧ Tidied flag middle middleTidy := by
  generalize none : ([] : List Token) = tokens at step
  cases step with
  | blank isBlank =>
      cases tidied with
      | keep _ others => exact ⟨_, _, .single (.blank isBlank), others⟩
      | leading _ others => exact ⟨_, _, .done, others⟩
      | trailing _ _ others => exact ⟨_, _, .done, others⟩
  | @line character rest mark =>
      have solid : isBlank character = false := by rcases mark with rfl | ⟨rfl, -⟩ <;> decide
      obtain ⟨restTidy, rfl, others⟩ := tidied.solid solid
      refine ⟨_, _, .single (.line (mark.imp id fun both => ⟨both.1, ?_⟩)), others.line⟩
      obtain ⟨more, rfl⟩ := List.head?_eq_some_iff.mp both.2
      obtain ⟨moreTidy, rfl, -⟩ := others.solid (by decide)
      rfl
  | comment closed =>
      obtain ⟨starTidy, rfl, starOthers⟩ := tidied.solid (by decide)
      obtain ⟨restTidy, rfl, others⟩ := starOthers.solid (by decide)
      obtain ⟨ended, leftTidy, found, rest⟩ := others.comment closed .start
      exact ⟨_, _, .single (.comment found), rest⟩
  | string | number | signed | mark | binary | word => cases none
  | name => cases none

/-! ## Pieces -/

/-- What is read from a text as several lexemes, the pieces of the text that give tokens, and what
is left of the text. -/
inductive Cuts : Bool → List Char → List (List Char) → List Token → List Char → Prop where
  /-- Nothing is read. -/
  | done {operand : Bool} {rest : List Char} : Cuts operand rest [] [] rest
  /-- A blank or a comment, and what follows it. -/
  | gap {operand : Bool} {characters middle left : List Char} {pieces : List (List Char)}
      {tokens : List Token} (first : Step operand characters [] middle)
      (others : Cuts operand middle pieces tokens left) :
      Cuts operand characters pieces tokens left
  /-- A piece that gives tokens, and what follows it. -/
  | piece {operand : Bool} {piece middle left : List Char} {pieces : List (List Char)}
      {tokens more : List Token} (first : Step operand (piece ++ middle) tokens middle)
      (nonempty : tokens ≠ [])
      (others : Cuts (operandAfter operand tokens) middle pieces more left) :
      Cuts operand (piece ++ middle) (piece :: pieces) (tokens ++ more) left

namespace Cuts

variable {characters middle left : List Char} {pieces : List (List Char)} {tokens : List Token}

theorem lexes (cuts : Cuts operand characters pieces tokens left) :
    Lexes operand characters tokens left := by
  induction cuts with
  | done => exact .done
  | gap first others ih => exact .step first ih
  | piece first nonempty others ih => exact .step first ih

theorem of_step {more : List Token} (first : Step operand characters tokens middle)
    (others : Cuts (operandAfter operand tokens) middle pieces more left) :
    ∃ all, Cuts operand characters all (tokens ++ more) left := by
  cases tokens with
  | nil => exact ⟨pieces, .gap first others⟩
  | cons token tokens =>
      obtain ⟨piece, rfl⟩ := first.suffix
      exact ⟨piece :: pieces, .piece first (List.cons_ne_nil _ _) others⟩

theorem of_lexes (lexes : Lexes operand characters tokens left) :
    ∃ pieces, Cuts operand characters pieces tokens left := by
  induction lexes with
  | done => exact ⟨[], .done⟩
  | step first others ih =>
      obtain ⟨pieces, cuts⟩ := ih
      exact of_step first cuts

/-- A tidied text has the same tokens, if no piece that gives tokens changes. -/
theorem tidied (cuts : Cuts operand raw pieces tokens [])
    (firm : ∀ piece ∈ pieces, isFirm piece = true) (tidied : Tidied after raw tidy) :
    Lexes operand tidy tokens [] := by
  generalize ended : ([] : List Char) = left at cuts
  induction cuts generalizing after tidy with
  | done =>
      subst ended
      obtain rfl := tidied.eq_nil
      exact .done
  | gap first others ih =>
      obtain ⟨flag, middleTidy, gap, middleTidied⟩ := first.tidied_gap tidied
      exact gap.append (ih firm middleTidied ended)
  | piece first nonempty others ih =>
      obtain ⟨here, there⟩ := List.forall_mem_cons.mp firm
      obtain ⟨middleTidy, step, middleTidied⟩ := first.tidied nonempty here tidied
      exact .step step (ih there middleTidied ended)

end Cuts

theorem Step.exists_cons {characters left : List Char} {tokens : List Token}
    (step : Step operand characters tokens left) : ∃ first rest, characters = first :: rest := by
  cases step <;> exact ⟨_, _, rfl⟩

/-- Whether an operand may have ended is all that a text needs to know of what precedes it. -/
theorem exists_previous (operand : Bool) :
    ∃ previous : Option Token, previous.any endsOperand = operand := by
  cases operand with
  | false => exact ⟨none, rfl⟩
  | true => exact ⟨some (.bare .integer ""), by decide⟩

theorem Step.functional {characters left otherLeft : List Char} {tokens otherTokens : List Token}
    (step : Step operand characters tokens left)
    (other : Step operand characters otherTokens otherLeft) :
    tokens = otherTokens ∧ left = otherLeft := by
  obtain ⟨first, rest, rfl⟩ := step.exists_cons
  obtain ⟨previous, same⟩ := exists_previous operand
  obtain ⟨read, found, rfl, rfl⟩ := lexeme_of_step step same .start
  obtain ⟨_, foundAgain, rfl, rfl⟩ := lexeme_of_step other same .start
  obtain rfl := Except.ok.inj (found.symm.trans foundAgain)
  exact ⟨rfl, rfl⟩

namespace Cuts

variable {characters middle left : List Char} {pieces allPieces : List (List Char)}
  {tokens allTokens : List Token}

theorem tokens_eq_nil (cuts : Cuts operand [] pieces tokens left) : tokens = [] := by
  generalize empty : ([] : List Char) = characters at cuts
  cases cuts with
  | done => rfl
  | gap first others =>
      obtain ⟨_, _, rfl⟩ := first.exists_cons
      cases empty
  | piece first nonempty others =>
      obtain ⟨_, _, split⟩ := first.exists_cons
      rw [← empty] at split
      cases split

/-- What is read first from a text is read first from all of it. -/
theorem split (cuts : Cuts operand characters pieces tokens middle)
    (whole : Cuts operand characters allPieces allTokens []) :
    ∃ morePieces more, allPieces = pieces ++ morePieces ∧ allTokens = tokens ++ more ∧
      Cuts (operandAfter operand tokens) middle morePieces more [] := by
  induction cuts generalizing allPieces allTokens with
  | done => exact ⟨allPieces, allTokens, rfl, rfl, whole⟩
  | gap first others ih =>
      cases whole with
      | done => cases first
      | gap firstWhole othersWhole =>
          obtain ⟨-, rfl⟩ := first.functional firstWhole
          exact ih othersWhole
      | piece firstWhole nonempty othersWhole =>
          exact absurd (first.functional firstWhole).1.symm nonempty
  | @piece operand piece middle left pieces tokens more first nonempty others ih =>
      generalize same : piece ++ middle = characters at first whole
      cases whole with
      | done => cases first
      | gap firstWhole othersWhole => exact absurd (first.functional firstWhole).1 nonempty
      | piece firstWhole _ othersWhole =>
          obtain ⟨rfl, rfl⟩ := first.functional firstWhole
          obtain rfl := List.append_cancel_right same
          obtain ⟨morePieces, rest, rfl, rfl, after⟩ := ih othersWhole
          refine ⟨morePieces, rest, rfl, by rw [List.append_assoc], ?_⟩
          rwa [operandAfter_append]

theorem append_line (cuts : Cuts operand characters pieces tokens left) (more : List Char) :
    Cuts operand (characters ++ '\n' :: more) pieces tokens (left ++ '\n' :: more) := by
  have append {operand : Bool} {characters left : List Char} {tokens : List Token}
      (step : Step operand characters tokens left) :
      Step operand (characters ++ '\n' :: more) tokens (left ++ '\n' :: more) :=
    step.append (Scan.boundary_cons (by decide)) (by simp) fun _ => rfl
  induction cuts with
  | done => exact .done
  | gap first others ih => exact .gap (append first) ih
  | @piece operand piece middle left pieces tokens others first nonempty after ih =>
      have here := append first
      rw [List.append_assoc] at here ⊢
      exact .piece here nonempty ih

end Cuts

/-- A piece is what a lexeme takes from the text. -/
theorem Cuts.of_suffix {characters middle left : List Char} {pieces : List (List Char)}
    {tokens more : List Token} (first : Step operand characters tokens middle)
    (nonempty : tokens ≠ []) (others : Cuts (operandAfter operand tokens) middle pieces more left) :
    Cuts operand characters (characters.take (characters.length - middle.length) :: pieces)
      (tokens ++ more) left := by
  obtain ⟨piece, rfl⟩ := first.suffix
  rw [List.length_append, Nat.add_sub_cancel, List.take_left]
  exact .piece first nonempty others

/-- The pieces of the characters that give tokens, as they are written, after the given last
token. -/
def piecesFrom (previous : Option Token) (location : Location) : List Char → List (List Char)
  | [] => []
  | character :: rest =>
      match lexeme previous location character rest with
      | .error _ => []
      | .ok read =>
          let others := piecesFrom (read.tokens.getLast?.or previous) read.location read.rest
          if read.tokens.isEmpty then others
          else (character :: rest).take (rest.length + 1 - read.rest.length) :: others
termination_by characters => characters.length
decreasing_by exact read.shorter

/-- A text that has tokens is cut into the pieces that give them. -/
theorem cuts_of_tokensFrom {previous : Option Token} {location : Location}
    {characters : List Char} {tokens : List Token}
    (read : tokensFrom previous location characters = .ok tokens) :
    ∃ body last, tokens = body ++ [Token.finish last] ∧
      Cuts (previous.any endsOperand) characters (piecesFrom previous location characters)
        (body.map Token.placeless) [] := by
  have run := tokenizes_of_tokensFrom read
  clear read
  induction run with
  | @done previous location =>
      refine ⟨[], location, rfl, ?_⟩
      rw [piecesFrom]
      exact .done
  | @more previous location character rest first others found after ih =>
      obtain ⟨body, last, rfl, cuts⟩ := ih
      refine ⟨first.tokens ++ body, last, by rw [List.append_assoc], ?_⟩
      rw [any_endsOperand_or] at cuts
      rw [List.map_append, piecesFrom, found]
      have step := step_of_lexeme found
      dsimp only
      split
      · rename_i empty
        have none : first.tokens = [] := List.isEmpty_iff.mp empty
        rw [none, List.map_nil] at step cuts ⊢
        exact .gap step cuts
      · rename_i some
        have nonempty : first.tokens.map Token.placeless ≠ [] := by simpa using some
        exact .of_suffix step nonempty cuts

end Lexer

/-- The pieces of the text that give its tokens, as they are written. -/
def Token.pieces (text : String) : List (List Char) :=
  Lexer.piecesFrom none .start text.toList

end TableDdl
