import TableDdl.Proofs.Extension.Definitions
import TableDdl.Proofs.Extension.Resumption
import TableDdl.Proofs.RoundTrip.Columns

/-!
# Inline references

The definition of a column may go on with an inline reference. The scan over the attributes does not
read the reference: it passes over the words of it and takes those among them for attributes that
are attributes elsewhere. So a reference leaves the column as it is, unless a bare word that names
its table, or a word of one of its actions, is an attribute.
-/

namespace TableDdl

open Grammar

/-! ## Columns in a text that goes on -/

namespace Column

variable {scope : Scope} {sequel : Sequel} {shorter final longer : Cursor} {column : Column}

/-- What a column that is being read is when the scan over its attributes goes on from a point. -/
def Resumes (scope : Scope) (draft : Draft) (rest : Cursor) {start : Cursor}
    (outcome : Outcome Column start) : Prop :=
  ∃ unclosed,
    let scanned := scanFrom (scope.stops.adding [","]) attributeVisitor unclosed scope 0 draft rest
    outcome.result = scanned.result.map Draft.column ∧ outcome.cursor = scanned.cursor

theorem resume_withAttributes {parameters : Column}
    (found : (withAttributes parameters).Finds scope shorter column final)
    (extension : Cursor.Extends sequel shorter longer) :
    ∃ draft rest, draft.column = column ∧ Cursor.Extends sequel final rest ∧
      Resumes scope draft rest (withAttributes parameters scope longer) := by
  obtain ⟨draft, middle, scanned, reading⟩ := finds_bind_iff.mp found
  obtain ⟨same, rfl⟩ := finds_pure_iff.mp reading
  obtain ⟨rest, leads, last⟩ := (finds_scan_iff.mp scanned).resume honest_attributes
    (fun depth draft _ _ => carries_attributes depth draft) extension
  let unclosed : ParseError := ⟨.unclosedParenthesis, "(", some longer.current.location.line⟩
  obtain ⟨result, cursor⟩ := leads unclosed
  obtain ⟨mapped, ended⟩ := outcome_map (scan [","] ⟨parameters, false⟩ attributeVisitor)
    Draft.column scope longer
  exact ⟨draft, rest, same, last, unclosed, mapped.trans (congrArg _ result), ended.trans cursor⟩

/-- A column is read on the longer sequence up to the place where it ends on the shorter one, and
the scan over its attributes goes on from there. -/
theorem resume_afterName {name : String} (found : (afterName name).Finds scope shorter column final)
    (extension : Cursor.Extends sequel shorter longer) :
    ∃ draft rest, draft.column = column ∧ Cursor.Extends sequel final rest ∧
      Resumes scope draft rest (afterName name scope longer) := by
  rw [afterName, keyword?, finds_look_bind_iff] at found
  cases keyword : shorter.current.keyword? with
  | none => simp [keyword] at found
  | some typeName =>
      have more : shorter.ahead ≠ [] := by
        intro ended
        simp [Token.keyword?_of_isEnd (Cursor.isEnd_current_of_ahead_eq_nil ended)] at keyword
      simp only [keyword, finds_advance_bind_iff] at found
      obtain ⟨parameters, middle, before, after⟩ := finds_bind_iff.mp found
      obtain ⟨sets, last, between, attributes⟩ := finds_bind_iff.mp after
      obtain ⟨middleLonger, beforeLonger, extended⟩ :=
        stable_withParameters _ _ _ (extension.advance more) _ _ before (.inl trivial)
      obtain ⟨lastLonger, betweenLonger, extendedLast⟩ :=
        stable_many stable_characterSet? _ _ extended _ _ between (.inl trivial)
      obtain ⟨draft, rest, same, ends, unclosed, result, cursor⟩ :=
        resume_withAttributes attributes extendedLast
      have word : keyword?.Finds scope longer (some typeName) longer :=
        finds_look_iff.mpr ⟨(extension.keyword? more).trans keyword, rfl⟩
      have moved : advance.Finds scope longer () longer.advance := finds_advance_iff.mpr rfl
      refine ⟨draft, rest, same, ends, unclosed, ?_, ?_⟩
      · rw [afterName, word.outcome_bind.1, moved.outcome_bind.1, beforeLonger.outcome_bind.1,
          betweenLonger.outcome_bind.1, result]
      · rw [afterName, word.outcome_bind.2, moved.outcome_bind.2, beforeLonger.outcome_bind.2,
          betweenLonger.outcome_bind.2, cursor]

theorem resume_column (found : Column.grammar.Finds scope shorter column final)
    (extension : Cursor.Extends sequel shorter longer) :
    ∃ draft rest, draft.column = column ∧ Cursor.Extends sequel final rest ∧
      Resumes scope draft rest (Column.grammar scope longer) := by
  obtain ⟨name, middle, before, after⟩ := finds_bind_iff.mp found
  obtain ⟨middleLonger, beforeLonger, extended⟩ :=
    stable_name _ _ extension _ _ before (.inl trivial)
  obtain ⟨draft, rest, same, ends, unclosed, result, cursor⟩ := resume_afterName after extended
  refine ⟨draft, rest, same, ends, unclosed, ?_, ?_⟩
  · rw [Column.grammar, beforeLonger.outcome_bind.1, result]
  · rw [Column.grammar, beforeLonger.outcome_bind.2, cursor]

/-- The words that are attributes of a column wherever they stand. -/
def attributes : List String := ["NOT", "COMMENT", "NULL", "DEFAULT", "AUTO_INCREMENT"]

/-- A token that is no attribute is left to the scan. Inside a reference, `ON` is none. -/
theorem reads_idle {draft : Draft} {token : Token} {rest : List Token}
    (idle : ∀ text ∈ "REFERENCES" :: attributes, token.spells text = false)
    (noUpdate : draft.inReference = true ∨ token.spells "ON" = false) :
    (readAttribute draft).Reads scope (token :: rest) (false, draft) (token :: rest) := by
  have unseen {text : String} (member : text ∈ "REFERENCES" :: attributes) :
      Unseen text (token :: rest) := unseen_cons (idle text member)
  refine reads_sees_bind_unseen (unseen (by decide)) ?_
  refine reads_consume_ite_unseen (unseen (by decide)) ?_
  refine reads_consume_ite_unseen (unseen (by decide)) ?_
  refine reads_consume_ite_unseen (unseen (by decide)) ?_
  obtain ⟨column, inReference⟩ := draft
  cases inReference with
  | true =>
      refine reads_look_bind_any fun seen => reads_look_bind_any fun seenNext => ?_
      refine reads_consume_ite_unseen (unseen (by decide)) ?_
      exact reads_sees_bind_unseen (unseen (by decide)) (reads_pure _)
  | false =>
      have noOn : token.spells "ON" = false := noUpdate.resolve_left nofun
      refine reads_sees_bind_unseen (unseen_cons noOn) (reads_nextSees_bind_any fun seen => ?_)
      rw [Bool.and_false, Bool.false_and]
      refine reads_consume_ite_unseen (unseen (by decide)) ?_
      exact reads_sees_bind_unseen (unseen (by decide)) (reads_pure _)

end Column

/-! ## How references are written -/

/-- One of the words, in any letter case. -/
structure Written (words : List String) where
  /-- The word as it is written. -/
  text : String
  /-- It is one of the words. -/
  known : Text.upper text ∈ words

namespace Written

variable {words : List String}

/-- The token of the word. -/
def token (word : Written words) : Token := .bare .word word.text

theorem spells_eq_false (word : Written words) {text : String} (other : Text.upper text ∉ words) :
    word.token.spells text = false := by
  refine Token.spells_word_of_ne fun same => other ?_
  rw [← same]
  exact word.known

end Written

/-- A name as it is written. -/
inductive WrittenName where
  /-- A bare word. A comma is none. -/
  | bare (word : String) (noComma : word ≠ ",")
  /-- A name in backticks. -/
  | quoted (name : String)

/-- The tokens of a name. -/
def WrittenName.tokens : WrittenName → List Token
  | bare word _ => [.bare .word word]
  | quoted name => [Lexer.backtickToken, .bare .identifier name, Lexer.backtickToken]

/-- What happens to a reference, as it is written. -/
inductive WrittenAction where
  /-- `RESTRICT`. -/
  | restrict (restrict : Written ["RESTRICT"])
  /-- `CASCADE`. -/
  | cascade (cascade : Written ["CASCADE"])
  /-- `SET NULL`. -/
  | setNull (set : Written ["SET"]) (null : Written ["NULL"])
  /-- `NO ACTION`. -/
  | noAction (no : Written ["NO"]) (action : Written ["ACTION"])
  /-- `SET DEFAULT`. -/
  | setDefault (set : Written ["SET"]) (default : Written ["DEFAULT"])

namespace WrittenAction

/-- The action that is meant. -/
def meant : WrittenAction → ReferentialAction
  | restrict .. => .restrict
  | cascade .. => .cascade
  | setNull .. => .setNull
  | noAction .. => .noAction
  | setDefault .. => .setDefault

/-- The tokens of an action. -/
def tokens : WrittenAction → List Token
  | restrict word | cascade word => [word.token]
  | setNull first second | noAction first second | setDefault first second =>
      [first.token, second.token]

end WrittenAction

/-- An action on an event, as it is written. -/
structure WrittenEvent where
  /-- The word `ON`. -/
  on : Written ["ON"]
  /-- The word for the event. -/
  event : Written ["DELETE", "UPDATE"]
  /-- The action. -/
  action : WrittenAction

/-- The tokens of an event and its action. -/
def WrittenEvent.tokens (event : WrittenEvent) : List Token :=
  event.on.token :: event.event.token :: event.action.tokens

/-- An inline reference, as it is written. -/
structure InlineReference where
  /-- The word `REFERENCES`. -/
  references : Written ["REFERENCES"]
  /-- The table that is referred to. -/
  table : WrittenName
  /-- The columns that are referred to. -/
  columns : List WrittenName
  /-- How the columns are matched, if it is said. -/
  matching : Option (Written ["MATCH"] × Written ["FULL", "PARTIAL", "SIMPLE"])
  /-- The events with their actions. -/
  events : List WrittenEvent

namespace InlineReference

/-- The tokens of the words on how columns are matched. -/
def matchingTokens : Option (Written ["MATCH"] × Written ["FULL", "PARTIAL", "SIMPLE"]) → List Token
  | some (word, how) => [word.token, how.token]
  | none => []

/-- The tokens of a reference. -/
def tokens (reference : InlineReference) : List Token :=
  reference.references.token :: (reference.table.tokens ++
    (Token.enclosed WrittenName.tokens reference.columns ++
      (matchingTokens reference.matching ++ reference.events.flatMap WrittenEvent.tokens)))

/-! ## What a reference does to the column -/

/-- The column after the table of a reference was passed over, if it is not refused. -/
def afterTable (table : WrittenName) (columns : List WrittenName) (column : Column) :
    Option Column :=
  match table with
  | .quoted _ => some column
  | .bare word _ =>
      if Text.upper word ∈ ["NOT", "COMMENT"] then none
      else if Text.upper word = "NULL" then some { column with isNullable := true }
      else if Text.upper word = "DEFAULT" then
        let text := Token.renderRaw (Token.separated WrittenName.tokens columns)
        some { column with defaultValue := some (.raw ("(" ++ text ++ ")")) }
      else if Text.upper word = "AUTO_INCREMENT" then some { column with isAutoIncrement := true }
      else some column

/-- The column after the events of a reference were passed over, if they are not refused. The word
that follows `SET DEFAULT` is taken for a default. -/
def afterEvents : List WrittenEvent → Column → Option Column
  | [], column => some column
  | event :: others, column =>
      match event.action.meant with
      | .setNull => afterEvents others { column with isNullable := true }
      | .setDefault =>
          match others.head? with
          | none => none
          | some next =>
              afterEvents others { column with defaultValue := some (.raw next.on.text) }
      | .restrict | .cascade | .noAction => afterEvents others column

/-- The column after a reference was passed over, if it is not refused. -/
def leaves (reference : InlineReference) (column : Column) : Option Column :=
  (afterTable reference.table reference.columns column).bind (afterEvents reference.events)

/-- No word of the reference is an attribute that changes the column. -/
structure Harmless (reference : InlineReference) (column : Column) : Prop where
  /-- The table is not named by a bare attribute. -/
  table : ∀ word noComma, reference.table = .bare word noComma → Text.upper word ∉ Column.attributes
  /-- No action is `SET DEFAULT`, and `SET NULL` is one only if the column takes missing values. -/
  actions : ∀ event ∈ reference.events, event.action.meant ≠ .setDefault ∧
    (event.action.meant = .setNull → column.isNullable = true)

theorem leaves_of_harmless {reference : InlineReference} {column : Column}
    (harmless : reference.Harmless column) : reference.leaves column = some column := by
  have table : afterTable reference.table reference.columns column = some column := by
    cases written : reference.table with
    | quoted name => rfl
    | bare word noComma =>
        have other := harmless.table word noComma written
        simp only [Column.attributes, List.mem_cons, List.not_mem_nil, or_false, not_or] at other
        simp [afterTable, other]
  have events : ∀ events : List WrittenEvent,
      (∀ event ∈ events, event.action.meant ≠ .setDefault ∧
        (event.action.meant = .setNull → column.isNullable = true)) →
          afterEvents events column = some column := by
    intro events
    induction events with
    | nil => exact fun _ => rfl
    | cons event others ih =>
        intro all
        obtain ⟨⟨noDefault, nullable⟩, rest⟩ := List.forall_mem_cons.mp all
        cases meant : event.action.meant with
        | setDefault => exact absurd meant noDefault
        | setNull =>
            have same : { column with isNullable := true } = column := by
              rw [← nullable meant]
            simp only [afterEvents, meant, same]
            exact ih rest
        | restrict | cascade | noAction =>
            simp only [afterEvents, meant]
            exact ih rest
  rw [leaves, table, Option.bind_some, events _ harmless.actions]

/-! ## The scan over a reference -/

open Column

/-- The stop words while the attributes of a column by itself are read. -/
abbrev stops : Stops := Stops.none.adding [","]

variable {settings : Settings} {column : Column} {token : Token} {rest after : List Token}
  {expected : Option Draft}

/-- What the scan over the attributes of a column by itself gives inside a reference. -/
abbrev GivesIn (settings : Settings) (depth : Nat) (column : Column) (before : List Token)
    (expected : Option Draft) : Prop :=
  Gives stops attributeVisitor ⟨settings, .none⟩ depth ⟨column, true⟩ before expected

theorem shown_bare {word : String} (noComma : Text.upper word ≠ ",") :
    Shown stops 0 (.bare .word word) :=
  shown_word (by
    simpa [Stops.stopAt, Stops.adding, Stops.none, show Text.upper "," = "," by decide]
      using noComma)

theorem upper_ne_comma {word : String} (noComma : word ≠ ",") : Text.upper word ≠ "," :=
  fun same =>
    noComma (Text.eq_singleton_of_upper_eq (show ',' ∉ Text.interval 65 90 by decide) same)

/-- A token that is no attribute leaves the column as it is. -/
theorem gives_idle (shown : Shown stops 0 token)
    (idle : ∀ text ∈ "REFERENCES" :: attributes, token.spells text = false)
    (there : GivesIn settings 0 column rest expected) :
    GivesIn settings 0 column (token :: rest) expected :=
  gives_passed shown (reads_idle idle (.inl rfl)) there

theorem gives_written {words : List String} (word : Written words)
    (other : ∀ word ∈ words, word ∉ "," :: "REFERENCES" :: attributes)
    (there : GivesIn settings 0 column rest expected) :
    GivesIn settings 0 column (word.token :: rest) expected := by
  have known := other _ word.known
  refine gives_idle (shown_bare fun same => known (by simp [same])) (fun text member => ?_) there
  refine Token.spells_word_of_ne fun same => known ?_
  have upper : ∀ text ∈ "REFERENCES" :: attributes, Text.upper text = text := by decide
  rw [same, upper text member]
  exact List.mem_cons_of_mem _ member

/-- Inside parentheses nothing is an attribute. -/
theorem gives_inside {inner : List Token}
    (plain : ∀ token ∈ inner, token.kind ∉ [.endOfInput, .leftParen, .rightParen])
    (there : GivesIn settings 0 column after expected) :
    GivesIn settings 1 column (inner ++ Token.closing :: after) expected := by
  induction inner with
  | nil => exact gives_closed rfl there
  | cons token inner ih =>
      obtain ⟨here, others⟩ := List.forall_mem_cons.mp plain
      simp only [List.mem_cons, List.not_mem_nil, or_false, not_or] at here
      refine gives_passed ⟨by simp [Token.isEnd, here], here.2.1, here.2.2, by simp⟩
        (reads_pure _) (ih others)

theorem plain_separated (columns : List WrittenName) :
    ∀ token ∈ Token.separated WrittenName.tokens columns,
      token.kind ∉ [.endOfInput, .leftParen, .rightParen] := by
  have plain (name : WrittenName) : ∀ token ∈ name.tokens,
      token.kind ∉ [.endOfInput, .leftParen, .rightParen] := by
    cases name <;> simp [WrittenName.tokens, Lexer.backtickToken]
  induction columns with
  | nil => simp [Token.separated]
  | cons name others ih =>
      cases others with
      | nil => exact plain name
      | cons next others =>
          simp only [Token.separated, List.forall_mem_append, List.forall_mem_cons]
          exact ⟨plain name, by decide, ih⟩

theorem gives_columns (columns : List WrittenName)
    (there : GivesIn settings 0 column after expected) :
    GivesIn settings 0 column (Token.enclosed WrittenName.tokens columns ++ after) expected := by
  simp only [Token.enclosed, List.cons_append, List.append_assoc, List.nil_append]
  exact gives_opened rfl (gives_inside (plain_separated columns) there)

/-! ### The table -/

/-- A bare word is spelled as it is in upper case. -/
theorem spells_bare {word keyword : String} (same : Text.upper word = Text.upper keyword) :
    (Token.bare .word word).spells = (Token.bare .word keyword).spells := by
  funext text
  simp [Token.spells, Text.sameWord, same]

variable {draft : Draft} {scope : Scope} {word : String}

theorem reads_reference (same : Text.upper word = Text.upper "REFERENCES") :
    (readAttribute draft).Reads scope (.bare .word word :: rest)
      (false, { draft with inReference := true }) (.bare .word word :: rest) :=
  reads_sees_bind (by rw [spells_bare same]; decide) (reads_pure _)

/-- `NULL` has to follow `NOT`. -/
theorem refuses_not (same : Text.upper word = Text.upper "NOT") (noNull : Unseen "NULL" rest) :
    (readAttribute draft).Refuses scope (.bare .word word :: rest) := by
  refine refuses_of_not_finds fun start value final view found => ?_
  have spells (text : String) :
      start.current.spells text = (Token.bare .word "NOT").spells text := by
    rw [Cursor.spells_of_view view, spells_bare same]
  rw [readAttribute, finds_sees_ite_iff, if_neg (by rw [spells]; decide), finds_consume_ite_iff,
    if_pos (by rw [spells]; decide), finds_expect_bind_iff,
    Cursor.not_spells_of_unseen (Cursor.view_advance_of_view view) noNull] at found
  exact Bool.noConfusion found.1

/-- A literal has to follow `DEFAULT`. -/
theorem refuses_default (same : Text.upper word = Text.upper "DEFAULT") :
    (readAttribute draft).Refuses scope [.bare .word word] := by
  refine refuses_of_not_finds fun start value final view found => ?_
  have spells (text : String) :
      start.current.spells text = (Token.bare .word "DEFAULT").spells text := by
    rw [Cursor.spells_of_view view, spells_bare same]
  have ended := Token.kind_of_isEnd (Cursor.isEnd_of_view_nil (Cursor.view_advance_of_view view))
  rw [readAttribute, finds_sees_ite_iff, if_neg (by rw [spells]; decide), finds_consume_ite_iff,
    if_neg (by rw [spells]; decide), finds_consume_ite_iff, if_neg (by rw [spells]; decide),
    finds_consume_ite_iff, if_pos (by rw [spells]; decide), finds_bind_iff] at found
  obtain ⟨literal, middle, reading, -⟩ := found
  rw [Literal.grammar, current, finds_look_bind_iff, ended] at reading
  exact finds_refuse_iff.mp reading

/-- A string has to follow `COMMENT`. -/
theorem refuses_comment (same : Text.upper word = Text.upper "COMMENT")
    (noString : token.kind ≠ .quotedString) :
    (readAttribute ⟨column, true⟩).Refuses scope (.bare .word word :: token :: rest) := by
  refine refuses_of_not_finds fun start value final view found => ?_
  have spells (text : String) :
      start.current.spells text = (Token.bare .word "COMMENT").spells text := by
    rw [Cursor.spells_of_view view, spells_bare same]
  have kind := Cursor.kind_of_view (Cursor.view_advance_of_view view)
  rw [readAttribute, finds_sees_ite_iff, if_neg (by rw [spells]; decide), finds_consume_ite_iff,
    if_neg (by rw [spells]; decide), finds_consume_ite_iff, if_neg (by rw [spells]; decide),
    finds_consume_ite_iff, if_neg (by rw [spells]; decide), sees, finds_look_bind_iff, nextSees,
    finds_look_bind_iff, Bool.not_true, Bool.false_and, Bool.false_and, if_neg Bool.false_ne_true,
    finds_consume_ite_iff, if_pos (by rw [spells]; decide), seesKind, finds_look_bind_iff, kind,
    decide_eq_false noString, if_neg Bool.false_ne_true] at found
  exact finds_refuse_bind_iff.mp found

/-- A name in backticks is no attribute. -/
theorem gives_quoted (name : String) (there : GivesIn settings 0 column rest expected) :
    GivesIn settings 0 column ((WrittenName.quoted name).tokens ++ rest) expected := by
  have backtick {rest : List Token} (there : GivesIn settings 0 column rest expected) :
      GivesIn settings 0 column (Lexer.backtickToken :: rest) expected :=
    gives_idle ⟨by decide, by decide, by decide, by decide⟩ (by decide) there
  have noStop : stops.stopAt (.bare .identifier name) = false := by
    simp [Stops.stopAt, Token.isPunctuation, Token.Kind.isPunctuation]
  have shown : Shown stops 0 (.bare .identifier name) :=
    ⟨rfl, by simp, by simp, fun _ => noStop⟩
  refine backtick (gives_idle shown (fun text _ => ?_) (backtick there))
  simp [Token.spells, Token.isPunctuation, Token.Kind.isPunctuation]

/-- The columns in parentheses are a literal. -/
theorem reads_columns_literal (columns : List WrittenName) :
    Literal.grammar.Reads scope (Token.enclosed WrittenName.tokens columns ++ after)
      (.raw ("(" ++ Token.renderRaw (Token.separated WrittenName.tokens columns) ++ ")"))
      after := by
  have plain := plain_separated columns
  have balanced : ∀ inner : List Token,
      (∀ token ∈ inner, token.kind ∉ [.endOfInput, .leftParen, .rightParen]) →
        Token.depth? 0 inner = some 0 := by
    intro inner
    induction inner with
    | nil => exact fun _ => rfl
    | cons token inner ih =>
        intro all
        obtain ⟨here, others⟩ := List.forall_mem_cons.mp all
        simp only [List.mem_cons, List.not_mem_nil, or_false, not_or] at here
        cases kind : token.kind <;> simp_all [Token.depth?]
  simp only [Token.enclosed, List.cons_append, List.append_assoc, List.nil_append]
  refine reads_current_bind (fun _ => rfl) ((reads_group ?_ (balanced _ plain)).bind (reads_pure _))
  intro token member
  have kind := plain token member
  simp only [List.mem_cons, List.not_mem_nil, or_false, not_or] at kind
  simpa [Token.isEnd] using kind.1

/-- A table is passed over together with its columns. -/
theorem gives_table (table : WrittenName) (columns : List WrittenName)
    {expected : Column → Option Draft} (column : Column)
    (there : ∀ column, GivesIn settings 0 column after (expected column)) :
    GivesIn settings 0 column
      (table.tokens ++ (Token.enclosed WrittenName.tokens columns ++ after))
      ((afterTable table columns column).bind expected) := by
  have passed (column : Column) := gives_columns columns (there column)
  cases table with
  | quoted name => exact gives_quoted name (passed column)
  | bare word noComma =>
      have shown := shown_bare (upper_ne_comma noComma)
      simp only [WrittenName.tokens, List.singleton_append, afterTable]
      split
      · rename_i refused
        simp only [List.mem_cons, List.not_mem_nil, or_false] at refused
        rcases refused with isNot | isComment
        · exact gives_refused shown (refuses_not isNot (unseen_cons (by decide)))
        · exact gives_refused shown (refuses_comment isComment (by decide))
      rename_i accepted
      split
      · exact gives_taken shown (reads_null (spells_bare ‹_›)) (Nat.le_refl _) (passed _)
      split
      · refine gives_taken shown
          (reads_default (spells_bare ‹_›) (reads_columns_literal columns)) ?_ (there _)
        simp
      split
      · exact gives_passed shown (reads_autoIncrement (spells_bare ‹_›)) (passed _)
      by_cases isReference : Text.upper word = "REFERENCES"
      · exact gives_passed shown (reads_reference isReference) (passed column)
      · refine gives_idle shown (fun text member => Token.spells_word_of_ne fun same => ?_)
          (passed column)
        have upper : ∀ text ∈ "REFERENCES" :: attributes, Text.upper text = text := by decide
        rw [upper text member] at same
        subst same
        simp_all [attributes]

/-! ### The events -/

/-- The tokens of events. -/
abbrev eventTokens (events : List WrittenEvent) : List Token := events.flatMap WrittenEvent.tokens

/-- What the scan gives over events. -/
abbrev GivesEvents (settings : Settings) (before : List Token) (events : List WrittenEvent) :
    Prop :=
  ∀ column, GivesIn settings 0 column before ((afterEvents events column).map (⟨·, true⟩))

theorem reads_word_literal {words : List String} (literal : Written words)
    (noCall : Unseen "(" rest) :
    Literal.grammar.Reads scope (literal.token :: rest) (.raw literal.text) rest := by
  refine reads_current_bind (fun _ => rfl) (reads_advance_bind ?_)
  exact reads_sees_bind_unseen noCall (reads_pure _)

/-- An action is passed over, and what follows it is a default if its last word is `DEFAULT`. -/
theorem gives_action (event : WrittenEvent) (others : List WrittenEvent)
    (there : GivesEvents settings (eventTokens others) others)
    (afterOn : ∀ next rest, others = next :: rest →
      GivesEvents settings (next.event.token :: (next.action.tokens ++ eventTokens rest)) others) :
    GivesEvents settings (event.action.tokens ++ eventTokens others) (event :: others) := by
  intro column
  obtain ⟨on, word, action⟩ := event
  cases action with
  | restrict restrict => exact gives_written restrict (by decide) (there column)
  | cascade cascade => exact gives_written cascade (by decide) (there column)
  | noAction no action =>
      exact gives_written no (by decide) (gives_written action (by decide) (there column))
  | setNull set null =>
      have isNull : Text.upper null.text = "NULL" := by simpa using null.known
      refine gives_written set (by decide) ?_
      refine gives_taken (shown_bare (by rw [isNull]; decide)) (reads_null (spells_bare isNull))
        (Nat.le_refl _) (there _)
  | setDefault set default =>
      have isDefault : Text.upper default.text = "DEFAULT" := by simpa using default.known
      have shown := shown_bare (show Text.upper default.text ≠ "," by rw [isDefault]; decide)
      refine gives_written set (by decide) ?_
      cases others with
      | nil => exact gives_refused shown (refuses_default isDefault)
      | cons next rest =>
          let after := next.event.token :: (next.action.tokens ++ eventTokens rest)
          have noCall : Unseen "(" after := unseen_cons (next.event.spells_eq_false (by decide))
          have length : after.length ≤ (eventTokens (next :: rest)).length := by
            simp only [after, eventTokens, List.flatMap_cons, WrittenEvent.tokens, List.length_cons,
              List.cons_append]
            omega
          refine gives_taken shown (reads_default (spells_bare isDefault) ?_) length
            (afterOn next rest rfl _)
          exact reads_word_literal next.on noCall

theorem gives_events (events : List WrittenEvent) :
    GivesEvents settings (eventTokens events) events ∧
      ∀ event, GivesEvents settings
        (event.event.token :: (event.action.tokens ++ eventTokens events)) (event :: events) := by
  induction events with
  | nil =>
      have none : GivesEvents settings (eventTokens []) [] := fun column => gives_end
      refine ⟨none, fun event column => gives_written event.event (by decide) ?_⟩
      exact gives_action event [] none (fun _ _ same => nomatch same) column
  | cons next rest ih =>
      have events : GivesEvents settings (eventTokens (next :: rest)) (next :: rest) :=
        fun column => gives_written next.on (by decide) (ih.2 next column)
      refine ⟨events, fun event column => gives_written event.event (by decide) ?_⟩
      refine gives_action event (next :: rest) events (fun other others same => ?_) column
      obtain ⟨rfl, rfl⟩ := List.cons.inj same
      exact ih.2 next

/-- What the scan over the attributes gives over a reference. -/
theorem gives_reference (settings : Settings) (reference : InlineReference) (draft : Draft) :
    Gives stops attributeVisitor ⟨settings, .none⟩ 0 draft reference.tokens
      ((reference.leaves draft.column).map (⟨·, true⟩)) := by
  have isReference : Text.upper reference.references.text = "REFERENCES" := by
    simpa using reference.references.known
  have shown := shown_bare (show Text.upper reference.references.text ≠ "," by
    rw [isReference]; decide)
  refine gives_passed shown (reads_reference isReference) ?_
  rw [leaves, Option.map_bind]
  refine gives_table reference.table reference.columns draft.column fun column => ?_
  have events : GivesEvents settings (eventTokens reference.events) reference.events :=
    (gives_events reference.events).1
  cases reference.matching with
  | none => exact events column
  | some how =>
      exact gives_written how.1 (by decide) (gives_written how.2 (by decide) (events column))

end InlineReference

/-! ## Columns with a reference -/

/-- Tokens without an end of input lie ahead of a cursor on the first of them. -/
theorem Cursor.ahead_ofTokens {tokens : List Token}
    (inside : ∀ token ∈ tokens, token.isEnd = false) : (Cursor.ofTokens tokens).ahead = tokens := by
  unfold ofTokens
  cases last : tokens.getLast? with
  | none => simpa using (List.getLast?_eq_none_iff.mp last).symm
  | some token =>
      have notEnd := inside token (List.mem_of_getLast? last)
      simp [notEnd]

theorem InlineReference.isEnd_eq_false (reference : InlineReference) :
    ∀ token ∈ reference.tokens, token.isEnd = false := by
  have table : ∀ token ∈ reference.table.tokens, token.isEnd = false := by
    cases reference.table <;> simp [WrittenName.tokens, Lexer.backtickToken, Token.isEnd]
  have columns : ∀ token ∈ Token.enclosed WrittenName.tokens reference.columns,
      token.isEnd = false := by
    simp only [Token.enclosed, List.forall_mem_cons, List.forall_mem_append]
    refine ⟨by decide, fun token member => ?_, by decide⟩
    have kind := InlineReference.plain_separated reference.columns token member
    simp only [List.mem_cons, not_or] at kind
    simpa [Token.isEnd] using kind.1
  have matching : ∀ token ∈ matchingTokens reference.matching, token.isEnd = false := by
    cases reference.matching <;> simp [matchingTokens, Written.token, Token.isEnd]
  have action (action : WrittenAction) : ∀ token ∈ action.tokens, token.isEnd = false := by
    cases action <;> simp [WrittenAction.tokens, Written.token, Token.isEnd]
  have event (event : WrittenEvent) : ∀ token ∈ event.tokens, token.isEnd = false :=
    List.forall_mem_cons.mpr ⟨rfl, List.forall_mem_cons.mpr ⟨rfl, action event.action⟩⟩
  have events : ∀ token ∈ reference.events.flatMap WrittenEvent.tokens, token.isEnd = false := by
    intro token member
    obtain ⟨among, -, here⟩ := List.mem_flatMap.mp member
    exact event among token here
  simp only [tokens, List.forall_mem_cons, List.forall_mem_append]
  exact ⟨rfl, table, columns, matching, events⟩

namespace Column

/-- A definition that is followed by an inline reference gives what the reference leaves of the
column, at the end of input, or is refused where it leaves nothing. If no word of the reference is
an attribute that changes the column, the column is the same. -/
theorem run_inline_reference {settings : Settings} {definition clause : List Token}
    {column : Column} (reference : InlineReference)
    (inside : ∀ token ∈ definition, token.isEnd = false)
    (accepted : (Column.grammar.run settings definition).result = .ok column)
    (entire : (Column.grammar.run settings definition).cursor.ahead = [])
    (written : clause.map Token.placeless = reference.tokens) :
    let outcome := Column.grammar.run settings (definition ++ clause)
    outcome.result.toOption = reference.leaves column ∧
      (outcome.result.toOption.isSome → outcome.cursor.ahead = []) ∧
      (reference.Harmless column → outcome.result = .ok column) := by
  intro outcome
  let longer := Cursor.ofTokens (definition ++ clause)
  have clauseInside : ∀ token ∈ clause, token.isEnd = false := fun token member =>
    reference.isEnd_eq_false token.placeless (written ▸ List.mem_map_of_mem member)
  let sequel : Sequel := .continued reference.references.text
    (by simpa [Sequel.openers] using Or.inr (Or.inr (by simpa using reference.references.known)))
    reference.tokens.tail
  have extension : Cursor.Extends sequel (Cursor.ofTokens definition) longer := by
    constructor
    · rw [Cursor.view, Cursor.view, Cursor.ahead_ofTokens inside, Cursor.ahead_ofTokens,
        List.map_append, written]
      · rfl
      · exact List.forall_mem_append.mpr ⟨inside, clauseInside⟩
    · rw [Cursor.ahead_ofTokens inside]
      exact inside
  obtain ⟨draft, rest, rfl, last, unclosed, result, cursor⟩ :=
    resume_column ⟨accepted, rfl⟩ extension
  have view : rest.view = reference.tokens := last.view_at_end entire
  obtain ⟨given, ended⟩ := reference.gives_reference settings draft unclosed rest view
  have same : outcome.result.toOption = reference.leaves draft.column := by
    have mapped (result : Except ParseError Draft) :
        (result.map Draft.column).toOption = result.toOption.map Draft.column := by
      cases result <;> rfl
    calc outcome.result.toOption
      _ = ((reference.leaves draft.column).map (⟨·, true⟩)).map Draft.column := by
        rw [← given, ← mapped, ← result]
        rfl
      _ = reference.leaves draft.column := by cases reference.leaves draft.column <;> rfl
  refine ⟨same, fun found => ?_, fun harmless => ?_⟩
  · rw [same] at found
    exact (congrArg Cursor.ahead cursor).trans (ended (by simpa using found))
  · rw [InlineReference.leaves_of_harmless harmless] at same
    exact eq_ok_of_toOption same

/-- A reference keeps a column that takes no missing values with `ON UPDATE CASCADE`, and changes it
with `ON DELETE SET NULL`. -/
theorem run_inline_reference_notNull :
    let definition : List Token :=
      [.bare .word "a", .bare .word "INT", .bare .word "NOT", .bare .word "NULL"]
    let column : Column := { name := "a", typeName := "INT", isNullable := false }
    let reference (event : WrittenEvent) : InlineReference :=
      ⟨⟨"REFERENCES", by decide⟩, .bare "t" (by decide), [.quoted "id"], none, [event]⟩
    let cascades : WrittenEvent := ⟨⟨"on", by decide⟩, ⟨"update", by decide⟩,
      .cascade ⟨"cascade", by decide⟩⟩
    let clears : WrittenEvent := ⟨⟨"ON", by decide⟩, ⟨"DELETE", by decide⟩,
      .setNull ⟨"SET", by decide⟩ ⟨"NULL", by decide⟩⟩
    (Column.grammar.run .standard definition).result = .ok column ∧
      (Column.grammar.run .standard (definition ++ (reference cascades).tokens)).result =
        .ok column ∧
      (Column.grammar.run .standard (definition ++ (reference clears).tokens)).result =
        .ok { column with isNullable := true } := by
  intro definition column reference cascades clears
  have accepted : (Column.grammar.run .standard definition).result = .ok column :=
    eq_ok_of_toOption (by decide +kernel)
  have entire : (Column.grammar.run .standard definition).cursor.ahead = [] := by decide +kernel
  have inside : ∀ token ∈ definition, token.isEnd = false := by decide
  have placeless (event : WrittenEvent) (small : event = cascades ∨ event = clears) :
      (reference event).tokens.map Token.placeless = (reference event).tokens := by
    rcases small with rfl | rfl <;> rfl
  refine ⟨accepted, ?_, ?_⟩
  · refine (run_inline_reference (reference cascades) inside accepted entire
      (placeless cascades (.inl rfl))).2.2 ⟨fun word _ same => ?_, by simp [reference, cascades,
        WrittenAction.meant]⟩
    obtain rfl : "t" = word := by simpa [reference] using same
    decide
  · refine eq_ok_of_toOption ((run_inline_reference (reference clears) inside accepted entire
      (placeless clears (.inr rfl))).1.trans ?_)
    decide +kernel

end Column

end TableDdl
