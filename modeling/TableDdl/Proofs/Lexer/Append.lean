import TableDdl.Proofs.Lexer.Steps

/-!
# Texts that are followed by a blank

A text that can be read as tokens by itself is read as the same tokens where a blank and anything
else follow it: no lexeme of it goes on past the blank. The exception is a comment at its end that
lacks the end of its line, which only a line break ends.
-/

namespace TableDdl

namespace Lexer

theorem Closes.append {mark : Char} {escapes : Bool} {characters text left more : List Char}
    (closes : Closes mark escapes characters text left) (other : more.head? ≠ some mark) :
    Closes mark escapes (characters ++ more) text (left ++ more) := by
  induction closes with
  | @close left single =>
      refine .close ?_
      cases left with
      | nil => exact other
      | cons next rest => exact single
  | doubled after ih => exact .doubled ih
  | escape isEscape after ih => exact .escape isEscape ih
  | plain isOther noEscape after ih => exact .plain isOther noEscape ih

theorem comment_append {location after : Location} {characters left more : List Char}
    (closed : Scan.comment location characters = some (after, left)) :
    Scan.comment location (characters ++ more) = some (after, left ++ more) := by
  fun_induction Scan.comment location characters with
  | case1 => simp at closed
  | case2 => simp at closed
  | case3 location character next rest ended =>
      obtain ⟨rfl, rfl⟩ : location.right 2 = after ∧ rest = left := by simpa using closed
      simp [Scan.comment, ended]
  | case4 location character next rest other ih =>
      have found := ih closed
      simp only [List.cons_append] at found
      simp only [List.cons_append, Scan.comment, if_neg other, found]

/-- The first character of a text is not changed by what follows, unless the text is empty. -/
theorem head?_append_iff {rest more : List Char} {character : Char}
    (other : more.head? ≠ some character) :
    (rest ++ more).head? = some character ↔ rest.head? = some character := by
  cases rest with
  | nil => simp [other]
  | cons next others => simp

theorem any_isDigit_append {rest more : List Char} (boundary : Scan.Boundary more) :
    (rest ++ more).head?.any Char.isDigit = rest.head?.any Char.isDigit := by
  cases rest with
  | cons next others => simp
  | nil =>
      cases more with
      | nil => rfl
      | cons next others => simpa using boundary.isDigit next

/-- All of the text is a comment up to the end of its line, and the line does not end in it. -/
def OpenLine (characters : List Char) : Prop :=
  (['#'] <+: characters ∨ ['-', '-'] <+: characters) ∧ '\n' ∉ characters

theorem dropWhile_append_line {rest more : List Char}
    (ended : '\n' ∉ rest → more.head? = some '\n') :
    (rest ++ more).dropWhile (· ≠ '\n') = rest.dropWhile (· ≠ '\n') ++ more := by
  induction rest with
  | nil =>
      obtain ⟨others, rfl⟩ := List.head?_eq_some_iff.mp (ended (by simp))
      simp
  | cons next others ih =>
      by_cases isBreak : next = '\n'
      · simp [isBreak]
      · have endedLater : '\n' ∉ others → more.head? = some '\n' := fun none =>
          ended (by simpa [Ne.symm isBreak] using none)
        simpa [isBreak] using ih endedLater

/-- A lexeme ends before a blank or another boundary that follows the text. -/
theorem Step.append {operand : Bool} {characters left more : List Char} {tokens : List Token}
    (step : Step operand characters tokens left) (boundary : Scan.Boundary more)
    (noPoint : more.head? ≠ some '.') (ended : OpenLine characters → more.head? = some '\n') :
    Step operand (characters ++ more) tokens (left ++ more) := by
  cases step with
  | blank isBlank => exact .blank isBlank
  | @line character rest mark =>
      rw [← dropWhile_append_line]
      · exact .line (mark.imp id fun both =>
          ⟨both.1, (head?_append_iff (boundary.ne _ (by decide))).mpr both.2⟩)
      · intro noBreak
        refine ended ⟨?_, ?_⟩
        · rcases mark with rfl | ⟨rfl, second⟩
          · exact .inl ⟨rest, rfl⟩
          · obtain ⟨others, rfl⟩ := List.head?_eq_some_iff.mp second
            exact .inr ⟨others, rfl⟩
        · rcases mark with rfl | ⟨rfl, -⟩ <;> simpa using noBreak
  | comment closed => exact .comment (comment_append closed)
  | string mark closes =>
      refine .string mark (closes.append ?_)
      rcases mark with rfl | rfl <;> exact boundary.ne _ (by decide)
  | name closes => exact .name (closes.append (boundary.ne _ (by decide)))
  | @number character rest text kind digit scanned =>
      have bound := (Scan.prefix_number (character :: rest)).length_le
      simp only [scanned, List.length_cons] at bound
      rw [← List.drop_append_of_le_length (by omega), List.cons_append]
      refine .number digit ?_
      rw [← scanned, ← List.cons_append]
      exact Scan.number_append boundary fun _ => noPoint
  | @signed rest text kind noOperand digit scanned =>
      have bound := (Scan.prefix_number rest).length_le
      rw [scanned] at bound
      rw [← List.drop_append_of_le_length bound]
      refine .signed noOperand ((any_isDigit_append boundary).trans digit) ?_
      rw [← scanned]
      exact Scan.number_append boundary fun _ => noPoint
  | mark known noLine noComment noSign =>
      rw [List.cons_append]
      refine .mark known ?_ ?_ ?_
      · rwa [head?_append_iff (boundary.ne _ (by decide))]
      · rwa [head?_append_iff (boundary.ne _ (by decide))]
      · rwa [any_isDigit_append boundary]
  | binary letter closes => exact .binary letter (closes.append (boundary.ne _ (by decide)))
  | @word character rest notBlank starts noBinary =>
      rw [← List.drop_append_of_le_length (Scan.prefix_word rest).length_le,
        ← Scan.word_append boundary, List.cons_append]
      refine .word notBlank starts ?_
      rwa [head?_append_iff (boundary.ne _ (by decide))]

/-- A text is read as the same tokens where a boundary follows, unless that continues a comment with
which the text ends. -/
theorem Lexes.append_boundary {operand : Bool} {characters left more : List Char}
    {tokens : List Token} (lexes : Lexes operand characters tokens left)
    (boundary : Scan.Boundary more) (noPoint : more.head? ≠ some '.')
    (ended : ∀ before middle, Lexes operand characters before middle → OpenLine middle →
      more.head? = some '\n') :
    Lexes operand (characters ++ more) tokens (left ++ more) := by
  induction lexes with
  | done => exact .done
  | step first others ih =>
      refine .step (first.append boundary noPoint (ended _ _ .done)) (ih ?_)
      exact fun before middle lexes => ended _ _ (.step first lexes)

/-- A text is read as the same tokens where a line break and anything else follow. -/
theorem Lexes.append_line {operand : Bool} {characters left : List Char} {tokens : List Token}
    (lexes : Lexes operand characters tokens left) (more : List Char) :
    Lexes operand (characters ++ '\n' :: more) tokens (left ++ '\n' :: more) :=
  lexes.append_boundary (Scan.boundary_cons (by decide)) (by simp) fun _ _ _ _ => rfl

end Lexer

end TableDdl
