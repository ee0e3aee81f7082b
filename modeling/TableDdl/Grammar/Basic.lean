import TableDdl.Cursor.Basic
import TableDdl.Cursor.Stops
import TableDdl.Fault
import TableDdl.Settings.Basic

/-!
# Grammars

A grammar reads something from a cursor, under settings and stop words that it cannot change, and
either finds it or refuses the text. In both cases it says where it stopped, which is a place that
the cursor reaches: no grammar goes back, and none leaves the sequence of tokens.

The steps of this file look at the current token and the next one, and move past the current one.
-/

namespace TableDdl

/-- What holds while something is read. -/
structure Scope where
  /-- The settings. -/
  settings : Settings
  /-- The stop words. -/
  stops : Stops
deriving Repr

/-- What reading from a cursor gives. -/
structure Outcome (α : Type) (start : Cursor) where
  /-- What was found, or why the text is refused. -/
  result : Except ParseError α
  /-- Where reading stopped. -/
  cursor : Cursor
  /-- Reading only moves forward. -/
  reaches : start.Reaches cursor

/-- A way to read something from a cursor. -/
def Grammar (α : Type) : Type := Scope → (start : Cursor) → Outcome α start

namespace Outcome

variable {α β : Type} {first start : Cursor}

/-- The same outcome, seen from a cursor before its start. -/
def since (outcome : Outcome α start) (reaches : first.Reaches start) : Outcome α first :=
  ⟨outcome.result, outcome.cursor, reaches.trans outcome.reaches⟩

/-- The same outcome with another result. -/
def mapResult (outcome : Outcome α start) (change : Except ParseError α → Except ParseError β) :
    Outcome β start :=
  ⟨change outcome.result, outcome.cursor, outcome.reaches⟩

end Outcome

namespace Grammar

variable {α β : Type}

/-- Finds the value without reading anything. -/
protected def pure (value : α) : Grammar α := fun _ start => ⟨.ok value, start, .refl start⟩

/-- Reads one thing and then another that depends on it. -/
protected def bind (first : Grammar α) (second : α → Grammar β) : Grammar β := fun scope start =>
  match first scope start with
  | ⟨.error error, cursor, reaches⟩ => ⟨.error error, cursor, reaches⟩
  | ⟨.ok value, cursor, reaches⟩ => (second value scope cursor).since reaches

instance : Monad Grammar where
  pure := Grammar.pure
  bind := Grammar.bind

/-- Looks at the cursor and the scope without moving. -/
def look (view : Scope → Cursor → α) : Grammar α := fun scope start =>
  ⟨.ok (view scope start), start, .refl start⟩

/-- The current token. -/
def current : Grammar Token := look fun _ cursor => cursor.current

/-- The token after the current one. -/
def next : Grammar Token := look fun _ cursor => cursor.next

/-- The settings. -/
def settings : Grammar Settings := look fun scope _ => scope.settings

/-- The current token is an end of input. -/
def atEnd : Grammar Bool := look fun _ cursor => cursor.atEnd

/-- The current token is a stop word. -/
def atStop : Grammar Bool := look fun scope cursor => scope.stops.stopAt cursor.current

/-- The current token spells the keyword or punctuation mark. -/
def sees (text : String) : Grammar Bool := look fun _ cursor => cursor.current.spells text

/-- The current token spells one of the keywords and punctuation marks. -/
def seesAny (texts : List String) : Grammar Bool :=
  look fun _ cursor => texts.any cursor.current.spells

/-- The token after the current one spells the keyword or punctuation mark. -/
def nextSees (text : String) : Grammar Bool := look fun _ cursor => cursor.next.spells text

/-- The current token has the kind. -/
def seesKind (kind : Token.Kind) : Grammar Bool :=
  look fun _ cursor => cursor.current.kind = kind

/-- The text of the current token in upper case, if it is a bare word. -/
def keyword? : Grammar (Option String) := look fun _ cursor => cursor.current.keyword?

/-- The current token ends the statement. -/
def atTerminator : Grammar Bool :=
  look fun scope cursor => cursor.atEnd || cursor.current.spells scope.settings.terminator

/-- Moves past the current token. -/
def advance : Grammar Unit := fun _ start => ⟨.ok (), start.advance, .advance start⟩

/-- Refuses the text at the current token. -/
def refuse (fault : Fault) : Grammar α := fun _ start =>
  ⟨.error ⟨fault, start.current.described, some start.current.location.line⟩, start, .refl start⟩

/-- Moves past the current token if it spells the keyword or punctuation mark, and says whether it
did. -/
def consume (text : String) : Grammar Bool := do
  if ← sees text then
    advance
    return true
  else
    return false

/-- Moves past the current token if it spells one of the keywords and punctuation marks, and says
whether it did. -/
def consumeAny (texts : List String) : Grammar Bool := do
  if ← seesAny texts then
    advance
    return true
  else
    return false

/-- Moves past the keyword or punctuation mark, or refuses the text. -/
def expect (text : String) (fault : Fault) : Grammar Unit := do
  unless ← consume text do refuse fault

/-- Reads with further stop words. -/
def withStops (words : List String) (grammar : Grammar α) : Grammar α := fun scope start =>
  grammar { scope with stops := scope.stops.adding words } start

/-- Reads, and puts another fault at the place where reading stopped in place of a refusal. -/
def orRefuse (grammar : Grammar α) (fault : Fault) : Grammar α := fun scope start =>
  match grammar scope start with
  | ⟨.ok value, cursor, reaches⟩ => ⟨.ok value, cursor, reaches⟩
  | ⟨.error _, cursor, reaches⟩ => (refuse fault scope cursor).since reaches

/-- Reads, and gives the tokens that were read. -/
def consumed (grammar : Grammar α) : Grammar (List Token) := fun scope start =>
  let outcome := grammar scope start
  outcome.mapResult (·.map fun _ => start.between outcome.cursor)

end Grammar

end TableDdl
