import TableDdl.Proofs.Placement.Agreement

/-!
# Words that say where a column goes

Behind the definition of a column in a clause, the word `FIRST`, or the word `AFTER` and a name, say
where the column goes. Both words may also be names, types and literals. Yet they are read as such
only where they are part of a definition that ends later: behind a definition that is complete, they
end it as the end of input does.
-/

namespace TableDdl

open Grammar

/-! ## The end of a definition -/

namespace Grammar

variable {α β : Type} {more : List Token} {scope : Scope} {shorter longer middle : Cursor}

/-- Two words, the second of which is seen behind the first. -/
theorem persists_twoWords_ite {condition : Bool} {first second : String} {left right : Grammar β}
    (unseen : Unseen first more) (unseenSecond : Unseen second more)
    (after : Persists more scope left) (without : Persists more scope right) :
    Persists more scope (do
      if condition && (← sees first) && (← nextSees second) then
        advance
        advance
        left
      else
        right) := by
  intro shorter longer precedes
  refine persistsAt_look_bind (by rw [precedes.spells unseen]) ?_
  by_cases spelled : shorter.current.spells first = true
  · have inside := Cursor.ahead_ne_nil_of_spells spelled
    have next := precedes.advance inside
    refine persistsAt_look_bind (by rw [Cursor.next, next.spells unseenSecond]; rfl) ?_
    split
    · rename_i both
      simp only [Bool.and_eq_true] at both
      have insideNext : shorter.advance.ahead ≠ [] := Cursor.ahead_ne_nil_of_spells both.2
      intro value final found
      rw [finds_advance_bind_iff, finds_advance_bind_iff] at found
      obtain ⟨finalLonger, foundLonger, last⟩ :=
        after _ _ (next.advance insideNext) value final found
      refine ⟨finalLonger, ?_, last⟩
      rwa [finds_advance_bind_iff, finds_advance_bind_iff]
    · exact without _ _ precedes
  · rw [Bool.not_eq_true] at spelled
    simp only [spelled, Bool.and_false, Bool.false_and, Bool.false_eq_true, if_false]
    exact persistsAt_look_bind rfl (without _ _ precedes)

/-- What something has to follow is found before further tokens: as far as it looks, both sequences
are the same. -/
theorem exists_finds_of_precedes {first : Grammar α} {value : α} (margin : Nat)
    (matching : ∀ behind behindRight,
      Matches ⟨.exact, behind, behindRight, margin⟩ scope id first first)
    (precedes : Cursor.Precedes more shorter longer)
    (found : first.Finds scope shorter value middle) (inside : margin < middle.remaining) :
    ∃ middleLonger, first.Finds scope longer value middleLonger ∧
      Cursor.Precedes more middle middleLonger := by
  have shares : Cursor.Shares [] more shorter longer :=
    ⟨shorter.view, (List.append_nil _).symm, precedes⟩
  have moved := found.remaining_le
  obtain ⟨behind, behindRight, length, lengthRight, abreast⟩ :=
    shares.exists_abreast margin (by simp only [List.length_nil]; omega)
  obtain ⟨middleLonger, foundLonger, last⟩ := (matching behind behindRight).finds abreast found (by
    show behind.length + margin ≤ middle.remaining
    simp only [List.length_nil] at length
    omega)
  have remaining : middle.remaining + behindRight.length =
      middleLonger.remaining + behind.length := last.remaining
  simp only [List.length_nil] at length
  obtain ⟨shared, view, viewLonger⟩ := shares.of_reaches found.reaches foundLonger.reaches
    (Nat.zero_le _) (by simp only [List.length_nil]; omega)
  refine ⟨middleLonger, foundLonger, ?_⟩
  rw [Cursor.Precedes, viewLonger, view, List.append_nil]

end Grammar

namespace Column

variable {more : List Token} {scope : Scope}

/-- The words and marks that attributes of a column look for. -/
def attributeMarks : List String :=
  ["(", "REFERENCES", "NOT", "NULL", "DEFAULT", "ON", "UPDATE", "COMMENT", "AUTO_INCREMENT"]

theorem persists_readAttribute (draft : Draft)
    (unseen : ∀ text ∈ attributeMarks, Unseen text more) :
    Persists more scope (readAttribute draft) := by
  have literal (change : Literal → Bool × Draft) : Persists more scope (do
      return change (← Literal.grammar)) :=
    (persists_literal (unseen _ (by decide))).bind fun _ => persists_pure _
  refine persists_sees_ite (unseen _ (by decide)) (persists_pure _) ?_
  refine persists_consume_ite (unseen _ (by decide)) (persists_expect_bind (persists_pure _)) ?_
  refine persists_consume_ite (unseen _ (by decide)) (persists_pure _) ?_
  refine persists_consume_ite (unseen _ (by decide)) (literal _) ?_
  refine persists_twoWords_ite (unseen _ (by decide)) (unseen _ (by decide)) (literal _) ?_
  refine persists_consume_ite (unseen _ (by decide)) ?_ ?_
  · refine persists_seesKind_bind (by decide) (fun shorter longer precedes inside => ?_)
      persists_refuse_bind ((progresses_refuse _).bind _)
    refine persistsAt_current_bind precedes inside (fun _ => rfl) ?_
    exact persistsAt_advance_bind precedes inside (persists_pure _)
  · exact persists_sees_ite (unseen _ (by decide)) (persists_pure _) (persists_pure _)

/-- A definition that is complete is found before tokens that neither go on with it nor are passed
over. -/
theorem persists_afterName (name : String) (unseenHead : ∀ text ∈ headWords, Unseen text more)
    (unseen : ∀ text ∈ attributeMarks, Unseen text more)
    (ends : Ends (scope.stops.adding [","]) more) :
    Persists more scope (afterName name) := by
  have attributes (column : Column) : Persists more scope column.withAttributes := by
    refine (persists_scan honest_attributes (fun depth draft => ?_) ends).bind
      fun draft => persists_pure _
    exact persists_ite (persists_readAttribute draft unseen) (persists_pure _)
  refine persists_keyword?_bind (fun word => ⟨_, rfl, ?_⟩) ⟨_, rfl⟩
  refine (persists_withParameters _ unseenHead).bind fun column => ?_
  exact (persists_many (persists_characterSet? unseenHead)).bind fun _ => attributes column

end Column

/-! ## Places -/

/-- Where a column goes, as it is written behind its definition: at the front, or behind the column
with a name. -/
inductive WrittenPlace where
  /-- The word `FIRST`. -/
  | first (word : Token)
  /-- The word `AFTER` and a name between backticks. -/
  | after (word opening name closing : Token)

namespace WrittenPlace

/-- The tokens that say where the column goes. -/
def tokens : WrittenPlace → List Token
  | first word => [word]
  | after word opening name closing => [word, opening, name, closing]

/-- Where the column goes. -/
def meant : WrittenPlace → ColumnPosition
  | first _ => .first
  | after _ _ name _ => .after name.text

/-- The word is `FIRST` or `AFTER`, and the name is one between backticks. -/
def Written : WrittenPlace → Prop
  | first word => word.isKeyword "FIRST" = true
  | after word opening name closing =>
      word.isKeyword "AFTER" = true ∧ opening.placeless = Lexer.backtickToken ∧
        name.kind = .identifier ∧ name.text ≠ "" ∧ closing.placeless = Lexer.backtickToken

/-- The tokens without their places. -/
def view (place : WrittenPlace) : List Token := place.tokens.map Token.placeless

variable {place : WrittenPlace} {scope : Scope} {text : String}

theorem Written.exists_word (written : place.Written) :
    ∃ (word : Token) (rest : List Token), place.view = word.placeless :: rest ∧
      (word.isKeyword "FIRST" = true ∨ word.isKeyword "AFTER" = true) := by
  cases place with
  | first word => exact ⟨word, [], rfl, .inl written⟩
  | after word opening name closing => exact ⟨word, _, rfl, .inr written.1⟩

theorem Written.unseen (written : place.Written)
    (other : Text.upper text ≠ "FIRST" ∧ Text.upper text ≠ "AFTER") : Unseen text place.view := by
  obtain ⟨word, rest, view, spelled⟩ := written.exists_word
  rw [view]
  refine unseen_cons ?_
  rcases spelled with spelled | spelled
  · rw [Token.spells_of_isKeyword spelled]
    exact Token.spells_word_of_ne fun same => other.1 (same.symm.trans (by decide))
  · rw [Token.spells_of_isKeyword spelled]
    exact Token.spells_word_of_ne fun same => other.2 (same.symm.trans (by decide))

/-- A scan of the attributes ends at the word. -/
theorem Written.ends (written : place.Written) (stops : Stops) :
    Ends ((stops.adding ["FIRST", "AFTER"]).adding [","]) place.view := by
  obtain ⟨word, rest, view, spelled⟩ := written.exists_word
  rw [view]
  refine Ends.adding (fun token member => .inr ?_) [","]
  obtain rfl : word.placeless = token := by simpa using member
  have isWord : word.kind = .word := spelled.elim Token.kind_of_isKeyword Token.kind_of_isKeyword
  have stop : (Stops.ofList ["FIRST", "AFTER"]).stopAt word.placeless = true := by
    simp only [Token.isKeyword, isWord, Text.sameWord] at spelled
    simpa [Stops.stopAt, Stops.ofList, Stops.adding, Stops.none, isWord,
      show Text.upper "FIRST" = "FIRST" by decide, show Text.upper "AFTER" = "AFTER" by decide]
      using spelled
  refine ⟨by simp [Token.isEnd, isWord], by simp [isWord], ?_⟩
  exact (Stops.stopAt_adding _ _ _).mpr (.inl stop)

/-- What is read behind a definition. -/
theorem Written.reads (written : place.Written) (scope : Scope) (column : Column) :
    Reads (do
      if ← consume "FIRST" then
        return { column with position := some .first }
      else if ← consume "AFTER" then
        return { column with position := some (.after (← Grammar.name)) }
      else
        return column) scope place.view { column with position := some place.meant } [] := by
  cases place with
  | first word =>
      refine reads_consume_ite ?_ (reads_pure _)
      rw [Token.spells_of_isKeyword written]
      decide
  | after word opening name closing =>
      obtain ⟨isAfter, opens, isName, nonempty, closes⟩ := written
      have spells : word.placeless.spells = (Token.bare .word "AFTER").spells :=
        Token.spells_of_isKeyword isAfter
      have named : [opening, name, closing].map Token.placeless = nameTokens name.text ++ [] := by
        rw [nameTokens_eq nonempty, List.map_cons, List.map_cons, opens, Token.placeless, isName]
        simp [closes]
      refine reads_consume_ite_unseen (unseen_cons ?_) (reads_consume_ite ?_ ?_)
      · rw [spells]
        decide
      · rw [spells]
        decide
      · show Reads _ scope ([opening, name, closing].map Token.placeless) _ []
        rw [named]
        exact (reads_name nonempty).bind (reads_pure _)

end WrittenPlace

/-! ## Clauses -/

namespace AlterPayload

/-- The one column that the payload defines, if it is not a list. -/
def column? : AlterPayload → Option Column
  | column definition | changeColumn _ definition => some definition
  | columns _ | index _ | rename _ | name _ => none

/-- The payload with a place for the one column that it defines. -/
def placedAt (position : ColumnPosition) : AlterPayload → AlterPayload
  | column definition => column { definition with position := some position }
  | changeColumn oldName definition =>
      changeColumn oldName { definition with position := some position }
  | columns definitions => columns definitions
  | index definition => index definition
  | rename names => rename names
  | name text => name text

end AlterPayload

namespace AlterOption

/-- The clause with a place for the one column that it defines. -/
def placedAt (option : AlterOption) (position : ColumnPosition) : AlterOption :=
  { option with payload := option.payload.placedAt position }

variable {scope : Scope} {place : WrittenPlace} {shorter longer final : Cursor} {column : Column}
  {payload : AlterPayload} {option : AlterOption} {action : AlterAction} {target : AlterTarget}
  {role : Option IndexRole}

/-- A column whose definition is complete gets the place that is written behind it. -/
theorem exists_placed_of_positionedColumn (written : place.Written)
    (precedes : Cursor.Precedes place.view shorter longer)
    (found : positionedColumn.Finds scope shorter column final) (unplaced : column.position = none)
    (done : final.ahead = []) :
    ∃ finalLonger, positionedColumn.Finds scope longer
        { column with position := some place.meant } finalLonger ∧ finalLonger.ahead = [] := by
  obtain ⟨name, middle, named, defined, -, -⟩ := exists_of_finds_positionedColumn found unplaced
  obtain ⟨middleLonger, namedLonger, middles⟩ := persists_name _ _ precedes _ _ named
  -- No word of a definition is one of the words for a place.
  have unseen {texts : List String}
      (others : ∀ text ∈ texts, Text.upper text ≠ "FIRST" ∧ Text.upper text ≠ "AFTER") :
      ∀ text ∈ texts, Unseen text place.view :=
    fun text member => written.unseen (others text member)
  have head : ∀ text ∈ Column.headWords, Unseen text place.view := unseen (by decide)
  have attributes : ∀ text ∈ Column.attributeMarks, Unseen text place.view := unseen (by decide)
  obtain ⟨lastLonger, definedLonger, last⟩ :=
    Column.persists_afterName name head attributes (written.ends scope.stops) _ _ middles _ _
      defined
  have view : lastLonger.view = place.view := by
    rw [last, Cursor.view_eq_nil_iff.mpr done, List.nil_append]
  obtain ⟨finalLonger, placed, ended⟩ := written.reads scope column lastLonger view
  refine ⟨finalLonger, ?_, Cursor.view_eq_nil_iff.mp ended⟩
  refine finds_bind_iff.mpr ⟨name, middleLonger, namedLonger, ?_⟩
  exact finds_bind_iff.mpr ⟨column, lastLonger, definedLonger, placed⟩

theorem exists_placed_of_readPayload (written : place.Written)
    (precedes : Cursor.Precedes place.view shorter longer)
    (found : (readPayload action target role).Finds scope shorter payload final)
    (single : payload.column? = some column) (unplaced : column.position = none)
    (done : final.ahead = []) :
    ∃ finalLonger, (readPayload action target role).Finds scope longer
        (payload.placedAt place.meant) finalLonger ∧ finalLonger.ahead = [] := by
  cases suits_of_finds_readPayload found with
  | addColumns | addIndex | dropColumn | dropIndex | renameColumn | renameIndex | renameTable =>
      cases single
  | addColumn definition =>
      obtain rfl : definition = column := Option.some.inj single
      obtain ⟨noList, reading⟩ := finds_addColumn_iff.mp found
      have progresses : Progresses positionedColumn := progresses_name.bind _
      have inside := progresses.ahead_ne_nil reading
      obtain ⟨finalLonger, placed, ended⟩ :=
        exists_placed_of_positionedColumn written precedes reading unplaced done
      refine ⟨finalLonger, finds_addColumn_iff.mpr ⟨?_, placed⟩, ended⟩
      rw [precedes.spells_inside inside, noList]
  | changeColumn oldName definition =>
      obtain rfl : definition = column := Option.some.inj single
      obtain ⟨middle, named, reading⟩ := finds_changeColumn_iff.mp found
      obtain ⟨middleLonger, namedLonger, middles⟩ := persists_name _ _ precedes _ _ named
      obtain ⟨finalLonger, placed, ended⟩ :=
        exists_placed_of_positionedColumn written middles reading unplaced done
      exact ⟨finalLonger, finds_changeColumn_iff.mpr ⟨middleLonger, namedLonger, placed⟩, ended⟩
  | modifyColumn definition =>
      obtain rfl : definition = column := Option.some.inj single
      obtain ⟨finalLonger, placed, ended⟩ := exists_placed_of_positionedColumn written precedes
        (finds_modifyColumn_iff.mp found) unplaced done
      exact ⟨finalLonger, finds_modifyColumn_iff.mpr placed, ended⟩

/-- The options of the table are found before further tokens, if two tokens follow them. -/
theorem exists_options_of_precedes {more : List Token} {options : List TableOption}
    (precedes : Cursor.Precedes more shorter longer)
    (found : TableOption.options.Finds scope shorter options final) (inside : 1 < final.remaining) :
    ∃ finalLonger, TableOption.options.Finds scope longer options finalLonger ∧
      Cursor.Precedes more final finalLonger := by
  refine exists_finds_of_precedes 1 (fun behind behindRight => ?_) precedes found inside
  have options : Matches (Lockstep.further ⟨.exact, behind, behindRight, 0⟩) scope
      (List.map (TableOption.mapTexts id)) TableOption.options TableOption.options :=
    TableOption.matches_options fun _ _ abreast => abreast.next_of_further
  rwa [TableOption.mapTexts_id, List.map_id_fun] at options

/-- A clause that is complete gets the place that is written behind it. -/
theorem exists_placed_of_clause (written : place.Written)
    (precedes : Cursor.Precedes place.view shorter longer)
    (found : AlterOption.grammar.Finds scope shorter option final)
    (single : option.payload.column? = some column) (unplaced : column.position = none)
    (done : final.ahead = []) :
    ∃ finalLonger, AlterOption.grammar.Finds scope longer (option.placedAt place.meant)
        finalLonger ∧ finalLonger.ahead = [] := by
  obtain ⟨target, action, payload, options⟩ := option
  obtain ⟨start, behind, readOptions, acted, rest⟩ := finds_clause_iff.mp found
  split at rest
  · obtain ⟨-, text, rfl, -⟩ := rest
    cases single
  rename_i noName
  obtain ⟨role, middle, words, belongs⟩ := rest
  have noDrop : action ≠ .drop := by
    rintro rfl
    cases suits_of_finds_readPayload belongs <;> cases single
  -- The column is behind its words, these are behind the action, and that is behind the options.
  have payloadInside := progresses_readPayload noDrop target role _ _ _ _ belongs
  have actionInside := progresses_readAction _ _ _ _ acted
  have wordsInside := words.remaining_le
  obtain ⟨startLonger, readOptionsLonger, starts⟩ :=
    exists_options_of_precedes precedes readOptions (by omega)
  obtain ⟨behindLonger, actedLonger, behinds⟩ :=
    exists_finds_of_precedes 0 (fun _ _ => matches_readAction) starts acted (by omega)
  obtain ⟨middleLonger, wordsLonger, middles⟩ :=
    exists_finds_of_precedes 0 (fun _ _ => matches_readTarget action) behinds words (by omega)
  obtain ⟨finalLonger, placed, ended⟩ :=
    exists_placed_of_readPayload written middles belongs single unplaced done
  have sameNames : renameWords.any behindLonger.current.spells =
      renameWords.any behind.current.spells := by
    have inside : behind.ahead ≠ [] := List.ne_nil_of_length_pos (by
      show 0 < behind.remaining
      omega)
    exact congrArg (List.any _) (funext (behinds.spells_inside inside))
  refine ⟨finalLonger, finds_clause_iff.mpr ?_, ended⟩
  refine ⟨startLonger, behindLonger, readOptionsLonger, actedLonger, ?_⟩
  rw [sameNames]
  split
  · rename_i renames
    exact absurd renames noName
  · exact ⟨role, middleLonger, wordsLonger, placed⟩

/-- Where a column goes may be written behind every complete clause that adds, modifies or changes
one column and does not say so yet, whatever the stop words are. The clause is read as before, but
for the place of its column. -/
theorem exhausts_of_placed {tokens : List Token} {location : Location} (written : place.Written)
    (found : AlterOption.grammar.Finds scope (.ofTokens (tokens ++ [Token.finish location])) option
      (.ofTokens [Token.finish location]))
    (single : option.payload.column? = some column) (unplaced : column.position = none) :
    AlterOption.grammar.Exhausts scope (tokens ++ place.tokens) (option.placedAt place.meant) := by
  refine Reads.exhausts fun longer view => ?_
  have precedes : Cursor.Precedes place.view (.ofTokens (tokens ++ [Token.finish location]))
      longer := by
    rw [Cursor.Precedes, view, Cursor.ofTokens_append_finish, List.map_append]
    rfl
  obtain ⟨final, placed, done⟩ :=
    exists_placed_of_clause written precedes found single unplaced rfl
  exact ⟨final, placed, Cursor.view_eq_nil_iff.mpr done⟩

/-- The definition of a column that ends with the literal `FIRST`, with `FIRST` itself as a stop
word, before the words `AFTER` and a name. -/
theorem exhausts_of_placed_after_first :
    let scope : Scope := ⟨.standard, Stops.none.adding ["FIRST"]⟩
    let definition : List Token := [.bare .word "MODIFY", .bare .word "after", .bare .word "INT",
      .bare .word "DEFAULT", .bare .word "FIRST"]
    let place : WrittenPlace := .after (.bare .word "After") Lexer.backtickToken
      (.bare .identifier "a b") Lexer.backtickToken
    let column : Column :=
      { name := "after", typeName := "INT", defaultValue := some (.raw "FIRST") }
    AlterOption.grammar.Exhausts scope (definition ++ place.tokens)
      ⟨.column, .modify, .column { column with position := some (.after "a b") }, []⟩ := by
  intro scope definition place column
  have written : place.Written := ⟨by decide, rfl, rfl, by decide, rfl⟩
  have found : AlterOption.grammar.Finds scope (.ofTokens (definition ++ [Token.finish .start]))
      ⟨.column, .modify, .column column, []⟩ (.ofTokens [Token.finish .start]) :=
    ⟨eq_ok_of_toOption (by decide +kernel), Cursor.ext_of_tokens (by decide +kernel)⟩
  exact exhausts_of_placed written found rfl rfl

end AlterOption

end TableDdl
