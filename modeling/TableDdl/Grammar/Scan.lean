import TableDdl.Grammar.Basic

/-!
# Passing over tokens

Parts of a statement that are not modelled are passed over up to a stop word outside all
parentheses, a parenthesis that closes what surrounds the part, or the end of input. On the way a
visitor is shown every token that is no parenthesis, together with the depth at which it lies. The
visitor may read from there and say so; otherwise the scan moves past the token itself.
-/

namespace TableDdl

namespace Grammar

variable {σ : Type}

/-- What a scan does at a token: from the depth and what was gathered so far, it says whether it
has read the token itself, and what is gathered now. -/
abbrev Visitor (σ : Type) : Type := Nat → σ → Grammar (Bool × σ)

/-- The scan from a cursor on, at a depth and with what was gathered so far. -/
def scanFrom (stops : Stops) (visit : Visitor σ) (unclosed : ParseError) (scope : Scope)
    (depth : Nat) (gathered : σ) (start : Cursor) : Outcome σ start :=
  if inside : start.atEnd = false then
    have := Cursor.remaining_pos_of_not_atEnd inside
    have := Cursor.remaining_advance start
    if start.current.kind = .leftParen then
      (scanFrom stops visit unclosed scope (depth + 1) gathered start.advance).since
        (.advance start)
    else if start.current.kind = .rightParen then
      if depth = 0 then ⟨.ok gathered, start, .refl start⟩
      else
        (scanFrom stops visit unclosed scope (depth - 1) gathered start.advance).since
          (.advance start)
    else if depth = 0 ∧ stops.stopAt start.current then ⟨.ok gathered, start, .refl start⟩
    else
      match visit depth gathered scope start with
      | ⟨.error error, cursor, reaches⟩ => ⟨.error error, cursor, reaches⟩
      | ⟨.ok (taken, gatheredNow), cursor, reaches⟩ =>
          have := reaches.remaining_le
          if taken ∧ cursor.remaining < start.remaining then
            (scanFrom stops visit unclosed scope depth gatheredNow cursor).since reaches
          else
            have := Cursor.remaining_advance cursor
            (scanFrom stops visit unclosed scope depth gatheredNow cursor.advance).since
              (reaches.trans (.advance cursor))
  else if depth = 0 then ⟨.ok gathered, start, .refl start⟩
  else ⟨.error unclosed, start, .refl start⟩
termination_by start.remaining
decreasing_by all_goals omega

/-- Passes over tokens up to one of the stop words of the scope or one of the given words, and
gathers what the visitor finds. -/
def scan (words : List String) (initial : σ) (visit : Visitor σ) : Grammar σ := fun scope start =>
  scanFrom (scope.stops.adding words) visit
    ⟨.unclosedParenthesis, "(", some start.current.location.line⟩ scope 0 initial start

/-- Passes over tokens up to one of the stop words of the scope or one of the given words. -/
def skipTo (words : List String) : Grammar Unit :=
  scan words () fun _ _ => return (false, ())

end Grammar

end TableDdl
