import TableDdl.Proofs.Grammar.Finds
import TableDdl.Proofs.Lexer.Steps
import TableDdl.Statement.Grammar

/-!
# Reading a text

Reading a text is lexing it and reading its tokens from the first one on. What is found depends on
the tokens only up to their places.
-/

namespace TableDdl

namespace Lexer

/-- No lexeme is an end of input. -/
theorem Step.isEnd_eq_false {operand : Bool} {characters left : List Char} {tokens : List Token}
    (step : Step operand characters tokens left) : ∀ token ∈ tokens, token.isEnd = false := by
  have number {digits text : List Char} {kind : Token.Kind}
      (scanned : Scan.number digits = (kind, text)) : kind ≠ .endOfInput := by
    have form := Scan.number_form digits
    rw [scanned] at form
    cases form <;> decide
  cases step with
  | blank isBlank => simp
  | line mark => simp
  | comment closed => simp
  | string mark closes => simp [Token.isEnd]
  | @name rest text left closes =>
      by_cases empty : text = []
      · simp [nameTokens, empty, backtickToken, Token.isEnd]
      · simp [nameTokens, empty, backtickToken, Token.isEnd]
  | number digit scanned => simpa [Token.isEnd] using number scanned
  | signed noOperand digit scanned => simpa [Token.isEnd] using number scanned
  | mark known noLine noComment noSign =>
      have kinds : ∀ character ∈ marks, punctuation? character ≠ some .endOfInput := by
        exact Text.forall_mem_of_all (by decide)
      have notEnd := kinds _ (mem_marks_of_punctuation? known)
      simpa [known, Token.isEnd] using notEnd
  | binary letter closes => simp [Token.isEnd]
  | word notBlank starts noBinary => simp [Token.isEnd]

theorem Lexes.isEnd_eq_false {operand : Bool} {characters left : List Char} {tokens : List Token}
    (lexes : Lexes operand characters tokens left) : ∀ token ∈ tokens, token.isEnd = false :=
  lexes.forall_mem Step.isEnd_eq_false

end Lexer

/-- What is read can be compared where refusals cannot. -/
theorem eq_ok_of_toOption {ε α : Type} {result : Except ε α} {value : α}
    (found : result.toOption = some value) : result = .ok value := by
  cases result with
  | error error => simp [Except.toOption] at found
  | ok read => simpa [Except.toOption] using found

theorem eq_error_of_refusal {ε α : Type} {result : Except ε α} {error : ε}
    (refused : (match result with | .error other => some other | .ok _ => none) = some error) :
    result = .error error := by
  cases result with
  | error other => simpa using refused
  | ok read => simp at refused

theorem Cursor.ofTokens_append_finish (body : List Token) (last : Location) :
    Cursor.ofTokens (body ++ [Token.finish last]) = ⟨body, Token.finish last, rfl⟩ := by
  simp [Cursor.ofTokens, show (Token.finish last).isEnd = true from rfl]

namespace Grammar

variable {α : Type} {grammar : Grammar α} {settings : Settings} {text : String} {value : α}

/-- A value is read from a text exactly if it is found from the first of its tokens on. -/
theorem parse_eq_ok_iff : grammar.parse settings text = .ok value ↔
    ∃ tokens final, Token.tokenize text = .ok tokens ∧
      grammar.Finds ⟨settings, .none⟩ (Cursor.ofTokens tokens) value final := by
  cases lexed : Token.tokenize text with
  | error error => simp [parse, lexed, bind, Except.bind]
  | ok tokens => simp [parse, lexed, bind, Except.bind, run, Finds]

/-- A value that is read from a text is found from its first token on. -/
theorem exists_finds_of_parse (read : grammar.parse settings text = .ok value) :
    ∃ start final, Lexer.Lexes false text.toList start.view [] ∧
      grammar.Finds ⟨settings, .none⟩ start value final := by
  cases lexed : Token.tokenize text with
  | error error => simp [parse, lexed, bind, Except.bind] at read
  | ok tokens =>
      obtain ⟨body, last, rfl, lexes⟩ := Lexer.lexes_of_tokensFrom lexed
      have result : (grammar.run settings (body ++ [Token.finish last])).result = .ok value := by
        simpa [parse, lexed, bind, Except.bind] using read
      rw [run, Cursor.ofTokens_append_finish] at result
      exact ⟨⟨body, Token.finish last, rfl⟩, _, lexes, result, rfl⟩

/-- A value that is found wherever the tokens of the text lie ahead is read from the text. -/
theorem parse_of_finds {tokens : List Token} (lexes : Lexer.Lexes false text.toList tokens [])
    (found : ∀ start : Cursor, start.view = tokens →
      ∃ final, grammar.Finds ⟨settings, .none⟩ start value final) :
    grammar.parse settings text = .ok value := by
  obtain ⟨body, last, lexed, rfl⟩ := Lexer.tokenize_iff.mpr lexes
  obtain ⟨final, finds⟩ := found ⟨body, Token.finish last, rfl⟩ rfl
  have result : (grammar.run settings (body ++ [Token.finish last])).result = .ok value := by
    rw [run, Cursor.ofTokens_append_finish]
    exact finds.1
  simp [parse, lexed, bind, Except.bind, result]

end Grammar

end TableDdl
