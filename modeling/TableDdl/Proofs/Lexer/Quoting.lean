import TableDdl.Proofs.Lexer.Locations
import TableDdl.Proofs.Lexer.Pieces

/-!
# Quoted texts are read back

A quoted string or name is one lexeme wherever it stands, and its tokens hold the text that was
quoted, whatever that text contains. What follows must only not start with the closing mark, which
would then be a doubled one.
-/

namespace TableDdl

/-- A backslash that was doubled escapes no line break. -/
theorem Text.flattened_doubling {isDoubled : Char → Bool}
    (doublesEscape : isDoubled Text.backslash = true) (text rest : List Char) :
    Text.flattened (Text.doubling isDoubled text ++ rest) =
      Text.doubling isDoubled text ++ Text.flattened rest := by
  induction text with
  | nil => rfl
  | cons character text ih =>
      rw [Text.doubling]
      by_cases isEscape : character = Text.backslash
      · subst isEscape
        rw [if_pos doublesEscape, List.cons_append, List.cons_append, Text.flattened, if_pos rfl,
          if_neg (by decide), ih]
        rfl
      · split
        · rw [List.cons_append, List.cons_append, Text.flattened_cons isEscape,
            Text.flattened_cons isEscape, ih]
          rfl
        · rw [List.cons_append, Text.flattened_cons isEscape, ih]
          rfl

theorem Text.flattened_quoteString (text : String) :
    Text.flattened (Text.quoteString text).toList = (Text.quoteString text).toList := by
  simp only [Text.quoteString, String.toList_ofList]
  rw [Text.flattened_cons (by decide), Text.flattened_doubling (by decide)]
  rfl

namespace Lexer

/-- At the place, after the last token, the piece and nothing more is read as one lexeme, which
gives the tokens; reading goes on after it. -/
def Emits (previous : Option Token) (location : Location) (piece rest : List Char)
    (tokens : List Token) : Prop :=
  ∃ first others read, piece ++ rest = first :: others ∧
    lexeme previous location first others = .ok read ∧ read.tokens = tokens ∧
      read.location = location.past piece ∧ read.rest = rest

variable {location after : Location} {piece rest : List Char} {tokens : List Token}

theorem Traces.of_singleton {kind : Token.Kind} {text : String}
    (traces : Traces location (piece ++ rest) tokens after rest)
    (same : tokens.map Token.placeless = [.bare kind text]) :
    tokens = [⟨kind, text, location⟩] ∧ after = location.past (Text.flattened piece) := by
  generalize whole : piece ++ rest = characters at traces
  cases traces with
  | gap => cases same
  | @token written _ kind text =>
      obtain rfl : piece = written := List.append_cancel_right whole
      cases same
      exact ⟨rfl, rfl⟩
  | @name inner _ name closes =>
      have size := congrArg List.length same
      simp at size

theorem Traces.of_name {inner : List Char} {name : String} (nonempty : name ≠ "")
    (traces : Traces location (Text.backtick :: (inner ++ Text.backtick :: rest)) tokens after rest)
    (same : tokens.map Token.placeless = Grammar.nameTokens name) :
    tokens = [⟨.backtick, String.ofList [Text.backtick], location⟩,
        ⟨.identifier, name, location.past [Text.backtick]⟩,
        ⟨.backtick, String.ofList [Text.backtick], location.past (Text.backtick :: inner)⟩] ∧
      after = location.past (Text.backtick :: (inner ++ [Text.backtick])) := by
  generalize whole : Text.backtick :: (inner ++ Text.backtick :: rest) = characters at traces
  rw [Grammar.nameTokens_eq nonempty] at same
  cases traces with
  | gap => cases same
  | token =>
      have size := congrArg List.length same
      simp at size
  | @name written _ text closes =>
      obtain rfl : inner = written := List.append_cancel_right (List.cons.inj whole).2
      by_cases empty : text = []
      · have size := congrArg List.length same
        simp [empty] at size
      · obtain rfl : String.ofList text = name := by
          simpa [empty, Token.placeless, Token.bare, backtickToken] using same
        rw [if_neg empty]
        exact ⟨rfl, rfl⟩

/-- A lexeme is emitted once its tokens have their places. -/
theorem emits_of_step {previous : Option Token} {bare : List Token}
    (step : Step (previous.any endsOperand) (piece ++ rest) bare rest)
    (places : ∀ read after, Traces location (piece ++ rest) read after rest →
      read.map Token.placeless = bare → read = tokens ∧ after = location.past piece) :
    Emits previous location piece rest tokens := by
  obtain ⟨first, others, whole⟩ := step.exists_cons
  rw [whole] at step
  obtain ⟨read, found, same, left⟩ := lexeme_of_step step rfl location
  have traces : Traces location (piece ++ rest) read.tokens read.location rest := by
    rw [whole, ← left]
    exact traced_of_lexeme found
  obtain ⟨sameTokens, place⟩ := places read.tokens read.location traces same
  exact ⟨first, others, read, whole, found, sameTokens, place, left⟩

theorem emits_quoteString (previous : Option Token) (location : Location) (value : String)
    (single : rest.head? ≠ some Text.singleQuote) :
    Emits previous location (Text.quoteString value).toList rest
      [⟨.quotedString, value, location⟩] := by
  apply emits_of_step (step_quoteString value single)
  intro read after traces same
  obtain ⟨tokens, place⟩ := traces.of_singleton same
  rw [Text.flattened_quoteString] at place
  exact ⟨tokens, place⟩

theorem emits_quoteName (previous : Option Token) (location : Location) {name : String}
    (nonempty : name ≠ "") (single : rest.head? ≠ some Text.backtick) :
    Emits previous location (Text.quoteName name).toList rest
      [⟨.backtick, String.ofList [Text.backtick], location⟩,
        ⟨.identifier, name, location.right 1⟩,
        ⟨.backtick, String.ofList [Text.backtick],
          location.past (Text.quoteName name).toList.dropLast⟩] := by
  have quoted : (Text.quoteName name).toList =
      Text.backtick :: (Text.doubling (· == Text.backtick) name.toList ++ [Text.backtick]) := by
    rw [Text.quoteName, String.toList_ofList]
  have whole : (Text.quoteName name).toList ++ rest = Text.backtick ::
      (Text.doubling (· == Text.backtick) name.toList ++ Text.backtick :: rest) := by
    simp [quoted]
  have inside : (Text.quoteName name).toList.dropLast =
      Text.backtick :: Text.doubling (· == Text.backtick) name.toList := by
    rw [quoted, ← List.cons_append, List.dropLast_concat]
  have opening : location.past [Text.backtick] = location.right 1 := by
    rw [Location.past_cons, Location.past_nil, Location.after_of_ne (by decide)]
  apply emits_of_step (step_quoteName name single)
  intro read after traces same
  rw [whole] at traces
  obtain ⟨tokens, place⟩ := traces.of_name nonempty same
  rw [opening, ← inside] at tokens
  rw [← quoted] at place
  exact ⟨tokens, place⟩

/-- Quoting is undone by lexing, at every place, after every token and whatever the text contains:
from a quoted string that no further quote follows exactly that string is read, and from a quoted
name that no further backtick follows exactly that name between its backticks. -/
theorem emits_quoted (previous : Option Token) (location : Location) (rest : List Char) :
    (∀ value : String, rest.head? ≠ some Text.singleQuote →
      Emits previous location (Text.quoteString value).toList rest
        [⟨.quotedString, value, location⟩]) ∧
    ∀ name : String, name ≠ "" → rest.head? ≠ some Text.backtick →
      Emits previous location (Text.quoteName name).toList rest
        [⟨.backtick, String.ofList [Text.backtick], location⟩,
          ⟨.identifier, name, location.right 1⟩,
          ⟨.backtick, String.ofList [Text.backtick],
            location.past (Text.quoteName name).toList.dropLast⟩] :=
  ⟨fun value single => emits_quoteString previous location value single,
    fun _ nonempty single => emits_quoteName previous location nonempty single⟩

/-- Quotes, backslashes and backticks at the ends of a text, a line break, a character without a
glyph and an opened comment are all part of what is quoted. -/
theorem emits_quoted_marks :
    Emits none .start (Text.quoteString "'\\'\n\x00/*\\").toList "`-- x".toList
        [⟨.quotedString, "'\\'\n\x00/*\\", .start⟩] ∧
      Emits none .start (Text.quoteName "`a'\n--`").toList "'x".toList
        [⟨.backtick, "`", ⟨1, 1⟩⟩, ⟨.identifier, "`a'\n--`", ⟨1, 2⟩⟩,
          ⟨.backtick, "`", ⟨2, 5⟩⟩] :=
  ⟨(emits_quoted none .start _).1 _ (by decide),
    (emits_quoted none .start _).2 _ (by decide) (by decide)⟩

end Lexer

end TableDdl
