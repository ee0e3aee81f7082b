import TableDdl.Proofs.Lexer.Raw

/-!
# Marks and words

A token is compared with a mark or a keyword by its text, whatever its kind. In a text that was
lexed, the kind follows: a mark is one character that has its kind, and a word is no mark. So a
token that spells a mark is the mark, and one that spells anything longer is a word.
-/

namespace TableDdl

namespace Lexer

variable {operand : Bool} {characters left : List Char} {tokens : List Token} {token : Token}

/-- A punctuation mark is one character that has its kind, and a word is no such character. -/
structure Marked (token : Token) : Prop where
  /-- A punctuation mark. -/
  mark : token.isPunctuation = true → ∃ character, token.text = String.singleton character ∧
    (punctuation? character = some token.kind ∨ character = Text.backtick)
  /-- A word. -/
  word : token.kind = .word → ∀ character ∈ marks, token.text ≠ String.singleton character

theorem marked_of_kind (noMark : token.isPunctuation = false) (noWord : token.kind ≠ .word) :
    Marked token :=
  ⟨fun isMark => absurd isMark (by simp [noMark]), fun isWord => absurd isWord noWord⟩

/-- A word that starts with a character that is no mark, or that has more characters, is no mark. -/
theorem marked_of_word {kind : Token.Kind} {first : Char} {others : List Char}
    (noMark : kind.isPunctuation = false) (other : first ∉ marks ∨ others ≠ []) :
    Marked (.bare kind (String.ofList (first :: others))) := by
  refine ⟨fun isMark => absurd isMark (by simp [Token.isPunctuation, noMark]), ?_⟩
  intro _ character member same
  obtain ⟨rfl, rfl⟩ : first = character ∧ others = [] := by
    simpa using congrArg String.toList same
  simp [member] at other

theorem punctuation?_ne_word (character : Char) : punctuation? character ≠ some .word := by
  intro known
  have all : ∀ character ∈ marks, punctuation? character ≠ some .word :=
    Text.forall_mem_of_all (by decide)
  exact all character (mem_marks_of_punctuation? known) known

theorem Step.marked (step : Step operand characters tokens left) :
    ∀ token ∈ tokens, Marked token := by
  have number {character : Char} {rest text : List Char} {kind : Token.Kind}
      (digit : character.isDigit = true)
      (scanned : Scan.number (character :: rest) = (kind, text)) :
      kind.isPunctuation = false ∧ ∃ others, text = character :: others := by
    refine ⟨?_, number_starts digit scanned⟩
    rcases kind_of_number scanned with rfl | rfl | rfl <;> rfl
  cases step with
  | blank isBlank => simp
  | line mark => simp
  | comment closed => simp
  | string mark closes => exact List.forall_mem_singleton.mpr (marked_of_kind rfl (by simp))
  | @name rest text left closes =>
      have backtick : Marked backtickToken := ⟨fun _ => ⟨Text.backtick, rfl, .inr rfl⟩, nofun⟩
      by_cases empty : text = []
      · simpa [nameTokens, empty] using backtick
      · have name : Marked (.bare .identifier (String.ofList text)) :=
          marked_of_kind rfl (by simp)
        simpa [nameTokens, empty, backtick] using name
  | @number character rest text kind digit scanned =>
      obtain ⟨noMark, others, rfl⟩ := number digit scanned
      have noDigit : character ∉ marks := fun member => by
        simp [(plain_of_mem_marks member).2.2.2.2.2] at digit
      exact List.forall_mem_singleton.mpr (marked_of_word noMark (.inl noDigit))
  | @signed rest text kind noOperand digit scanned =>
      cases rest with
      | nil => simp at digit
      | cons character rest =>
          obtain ⟨noMark, others, rfl⟩ := number (by simpa using digit) scanned
          exact List.forall_mem_singleton.mpr
            (marked_of_word noMark (.inr (List.cons_ne_nil _ _)))
  | @mark character rest kind known noLine noComment noSign =>
      refine List.forall_mem_singleton.mpr
        ⟨fun _ => ⟨character, rfl, .inl known⟩, fun isWord => ?_⟩
      exact absurd (isWord ▸ known) (punctuation?_ne_word character)
  | binary letter closes => exact List.forall_mem_singleton.mpr (marked_of_kind rfl (by simp))
  | @word character rest notBlank starts noBinary =>
      have noMark : character ∉ marks := fun member => by
        simp [startsWord_of_mem_marks (List.mem_cons_of_mem _ (List.mem_cons_of_mem _
          (List.mem_cons_of_mem _ (List.mem_cons_of_mem _ member))))] at starts
      exact List.forall_mem_singleton.mpr (marked_of_word rfl (.inl noMark))

/-- A token that spells a mark is the mark. -/
theorem Marked.kind_of_spells {character : Char} (marked : Marked token)
    (member : character ∈ marks) (spelled : token.spells (String.singleton character) = true) :
    punctuation? character = some token.kind := by
  have plain : ∀ character ∈ marks, character ∉ Text.interval 65 90 ∧
      Text.upper (String.singleton character) = String.singleton character :=
    Text.forall_mem_of_all (by decide)
  obtain ⟨noCapital, upper⟩ := plain character member
  by_cases isWord : token.kind = .word
  · simp only [Token.spells, isWord, if_true, Text.sameWord, beq_iff_eq, upper] at spelled
    exact absurd (Text.eq_singleton_of_upper_eq noCapital spelled)
      (marked.word isWord character member)
  · simp only [Token.spells, isWord, if_false, Bool.and_eq_true, beq_iff_eq] at spelled
    obtain ⟨same, text, kind⟩ := marked.mark spelled.1
    obtain rfl : same = character := by
      simpa using congrArg String.toList (text.symm.trans spelled.2)
    exact kind.resolve_right (plain_of_mem_marks member).2.2.2.2.1

/-- A word spells no mark. -/
theorem Marked.spells_of_word {character : Char} (marked : Marked token)
    (isWord : token.kind = .word) (member : character ∈ marks) :
    token.spells (String.singleton character) = false := by
  rw [Bool.eq_false_iff]
  intro spelled
  have kind := marked.kind_of_spells member spelled
  rw [isWord] at kind
  exact punctuation?_ne_word character kind

/-- A token that spells more than one character is a word. -/
theorem Marked.kind_of_spells_keyword {keyword : String} (marked : Marked token)
    (long : keyword.length ≠ 1) (spelled : token.spells keyword = true) : token.kind = .word := by
  by_cases isWord : token.kind = .word
  · exact isWord
  · simp only [Token.spells, isWord, if_false, Bool.and_eq_true, beq_iff_eq] at spelled
    obtain ⟨character, text, -⟩ := marked.mark spelled.1
    rw [← spelled.2, text] at long
    simp at long

/-- What starts with a word without a sign is read in the same way wherever it stands. -/
theorem Lexes.of_word {text : String} {more : List Token}
    (lexes : Lexes operand characters (.bare .word text :: more) left)
    (noSign : text.toList.head? ≠ some '-') (other : Bool) :
    Lexes other characters (.bare .word text :: more) left := by
  generalize all : Token.bare .word text :: more = tokens at lexes
  induction lexes with
  | done => cases all
  | @step operand characters middle left tokens others first after ih =>
      -- A lexeme with a token leaves the same operand, whatever there was before.
      have one {token : Token} (step : Step other characters [token] middle)
          (only : tokens = [token]) : Lexes other characters (tokens ++ others) left := by
        subst only
        exact .step step after
      cases first with
      | blank isBlank => exact .step (.blank isBlank) (ih all)
      | line mark => exact .step (.line mark) (ih all)
      | comment closed => exact .step (.comment closed) (ih all)
      | string mark closes => cases all
      | name closes => cases all
      | number digit scanned => exact one (.number digit scanned) rfl
      | signed noOperand digit scanned =>
          obtain ⟨⟨rfl, rfl⟩, rfl⟩ := by simpa [Token.bare] using all
          simp at noSign
      | mark known noLine noComment noSign =>
          obtain ⟨⟨rfl, rfl⟩, rfl⟩ := by simpa [Token.bare] using all
          exact absurd known (punctuation?_ne_word _)
      | binary letter closes => cases all
      | word notBlank starts noBinary => exact one (.word notBlank starts noBinary) rfl

end Lexer

end TableDdl
