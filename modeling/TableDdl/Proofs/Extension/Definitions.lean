import TableDdl.Column.Grammar
import TableDdl.Constraint.Grammar
import TableDdl.Index.Grammar
import TableDdl.Partition.Grammar
import TableDdl.Proofs.Extension.Runs
import TableDdl.Proofs.Grammar.Definitions
import TableDdl.TableOption.Grammar

/-!
# Definitions in a text that goes on

Columns, indexes, constraints, table options and partitionings carry over to a longer sequence.
Those that pass over tokens need the terminator among the stop words of their scope, unless
something that closes them is known to lie ahead.
-/

namespace TableDdl

theorem Sequel.StopsAt.adding {sequel : Sequel} {stops : Stops} (stopsAt : sequel.StopsAt stops)
    (words : List String) : sequel.StopsAt (stops.adding words) := by
  cases sequel with
  | nothing => trivial
  | terminated more =>
      have member : ";" ∈ stops.words := by
        simpa [Sequel.StopsAt, Stops.stopAt, Sequel.terminator, Token.isPunctuation,
          Token.Kind.isPunctuation] using stopsAt
      simp [Sequel.StopsAt, Stops.stopAt, Stops.adding, Sequel.terminator, Token.isPunctuation,
        Token.Kind.isPunctuation, member]
  | continued => exact stopsAt

open Grammar

variable {settled : Prop} {sequel : Sequel} {scope : Scope}

/-! ## Columns -/

namespace Column

theorem unseen_headWords (sequel : Sequel) : ∀ text ∈ headWords, Unseen text sequel.tokens := by
  have foreign : ∀ text ∈ headWords, Sequel.Foreign text := by decide
  exact fun text member => (foreign text member).unseen sequel

theorem stable_withParameters (column : Column) :
    Stable settled sequel scope column.withParameters :=
  (persists_withParameters column (unseen_headWords sequel)).stable

theorem stable_characterSet? : Stable settled sequel scope characterSet? :=
  (persists_characterSet? (unseen_headWords sequel)).stable

/-- A string that has to be there. -/
theorem stable_quotedString {β : Type} {fault : Fault} {second : Token → Grammar β}
    (placeless : ∀ token : Token, second token.placeless = second token)
    (there : ∀ token, Stable settled sequel scope (second token)) :
    Stable settled sequel scope (do
      unless ← seesKind .quotedString do refuse fault
      let token ← current
      advance
      second token) := by
  refine stable_seesKind_bind (by decide) (fun shorter longer extension more => ?_)
    stable_refuse_bind
  refine carries_current_bind extension more ?_ ?_
  · intro token
    rw [placeless]
  · exact carries_advance_bind extension more (there _)

theorem carries_readAttribute {shorter longer : Cursor}
    (extension : Cursor.Extends sequel shorter longer) (more : shorter.ahead ≠ [])
    (draft : Draft) : Carries settled sequel scope (readAttribute draft) shorter longer := by
  have afterUpdate : Stable settled sequel scope (do
      if ← consume "COMMENT" then
        unless ← seesKind .quotedString do refuse (.expected "quoted string after COMMENT")
        let token ← current
        advance
        return (true, { draft with column := { draft.column with comment := some token.text } })
      else if ← sees "AUTO_INCREMENT" then
        return (false, { draft with column := { draft.column with isAutoIncrement := true } })
      else
        return (false, draft)) := by
    refine stable_consume_ite (by decide) ?_ ?_
    · exact stable_quotedString (fun _ => rfl) fun _ => stable_pure _
    · exact stable_sees_ite (by decide) (stable_pure _) (stable_pure _)
  have notReference : Stable settled sequel scope (do
      if ← consume "NOT" then
        expect "NULL" (.expected "keyword NULL after NOT")
        return (true, { draft with column := { draft.column with isNullable := false } })
      else if ← consume "NULL" then
        return (true, { draft with column := { draft.column with isNullable := true } })
      else if ← consume "DEFAULT" then
        return (true, { draft with
          column := { draft.column with defaultValue := some (← Literal.grammar) } })
      else if !draft.inReference && (← sees "ON") && (← nextSees "UPDATE") then
        advance
        advance
        return (true, { draft with
          column := { draft.column with onUpdate := some (← Literal.grammar) } })
      else if ← consume "COMMENT" then
        unless ← seesKind .quotedString do refuse (.expected "quoted string after COMMENT")
        let token ← current
        advance
        return (true, { draft with column := { draft.column with comment := some token.text } })
      else if ← sees "AUTO_INCREMENT" then
        return (false, { draft with column := { draft.column with isAutoIncrement := true } })
      else
        return (false, draft)) := by
    refine stable_consume_ite (by decide) (stable_expect_bind (stable_pure _)) ?_
    refine stable_consume_ite (by decide) (stable_pure _) ?_
    refine stable_consume_ite (by decide) (stable_bind stable_literal fun _ => stable_pure _) ?_
    obtain ⟨column, inReference⟩ := draft
    cases inReference with
    | true =>
        intro shorter longer extension
        exact carries_look_bind rfl (carries_look_bind rfl (afterUpdate shorter longer extension))
    | false =>
        refine stable_sees_nextSees_ite (by decide) (by decide)
          (fun shorter longer extension more moreNext => ?_) afterUpdate
        exact carries_advance_twice_bind extension more moreNext
          (stable_bind stable_literal fun _ => stable_pure _)
  refine carries_look_bind (by rw [extension.spells_inside more]) ?_
  split
  · exact carries_pure extension _
  · exact notReference shorter longer extension

theorem honest_attributes : Honest fun depth draft =>
    if depth = 0 then readAttribute draft else pure (false, draft) := by
  refine honest_outside fun draft scope start changed final found => ?_
  cases readsAttribute_of_finds found <;> rfl

theorem carries_attributes (depth : Nat) (draft : Draft) {shorter longer : Cursor}
    (extension : Cursor.Extends sequel shorter longer) (more : shorter.ahead ≠ []) :
    Carries settled sequel scope
      (if depth = 0 then readAttribute draft else pure (false, draft)) shorter longer := by
  split
  · exact carries_readAttribute extension more draft
  · exact carries_pure extension _

theorem stable_withAttributes (stopsAt : settled → sequel.StopsAt scope.stops) (column : Column) :
    Stable settled sequel scope column.withAttributes := by
  refine stable_bind (stable_scan honest_attributes ?_ ?_) fun _ => stable_pure _
  · exact fun depth draft _ _ => carries_attributes depth draft
  · exact fun isSettled => (stopsAt isSettled).adding _

theorem stable_afterName (stopsAt : settled → sequel.StopsAt scope.stops) (name : String) :
    Stable settled sequel scope (afterName name) := by
  refine stable_keyword?_bind (fun word shorter longer extension more => ?_) ⟨_, rfl⟩
  refine carries_advance_bind extension more ?_
  refine stable_bind (stable_withParameters _) fun column => ?_
  exact stable_bind (stable_many stable_characterSet?) fun _ => stable_withAttributes stopsAt column

theorem stable_column (stopsAt : settled → sequel.StopsAt scope.stops) :
    Stable settled sequel scope Column.grammar :=
  stable_bind stable_name fun name => stable_afterName stopsAt name

end Column

/-! ## Indexes -/

namespace Index

theorem stable_indexType? : Stable settled sequel scope indexType? := by
  refine stable_consume_ite (by decide) ?_ (stable_pure none)
  refine stable_keyword?_bind (fun word shorter longer extension more => ?_) ⟨_, rfl⟩
  exact carries_advance_bind extension more (stable_pure _)

theorem stable_keyPart : Stable settled sequel scope keyPart := by
  refine stable_bind stable_name fun column => stable_consume_ite (by decide) ?_ ?_
  · refine stable_bind (stable_unsigned _) fun _ => stable_expect_bind ?_
    exact stable_consumeAny_bind (by decide) fun _ => stable_pure column
  · exact stable_consumeAny_bind (by decide) fun _ => stable_pure column

theorem stable_keyParts : Stable settled sequel scope keyParts :=
  stable_parenthesized stable_keyPart

/-- Reads what follows the name of an index. -/
def afterName (role : Option IndexRole) (name : Option String) : Grammar Index := do
  let typeBefore ← indexType?
  let columns ← keyParts
  let indexType ← match typeBefore with
    | some indexType => pure (some indexType)
    | none => indexType?
  skipTo [","]
  return { name, indexType, role, columns }

theorem progresses_afterName (role : Option IndexRole) (name : Option String) :
    Progresses (afterName role name) :=
  progresses_after fun _ => (progresses_parenthesized _ _ _).bind _

theorem stable_afterName (stopsAt : settled → sequel.StopsAt scope.stops)
    (role : Option IndexRole) (name : Option String) :
    Stable settled sequel scope (afterName role name) := by
  have afterColumns (indexType : Option String) (columns : List String) :
      Stable settled sequel scope (do
        skipTo [","]
        return { name, indexType, role, columns : Index }) :=
    stable_bind (stable_skipTo fun isSettled => (stopsAt isSettled).adding _) fun _ =>
      stable_pure _
  refine stable_bind stable_indexType? fun typeBefore => ?_
  refine stable_bind stable_keyParts fun columns => ?_
  cases typeBefore with
  | some indexType => exact stable_bind (stable_pure _) fun _ => afterColumns _ _
  | none => exact stable_bind stable_indexType? fun _ => afterColumns _ _

theorem stable_body (stopsAt : settled → sequel.StopsAt scope.stops) (role : Option IndexRole) :
    Stable settled sequel scope (body role) := by
  refine stable_sees_ite (by decide) ?_ ?_
  · exact stable_bind (stable_pure none) fun name => stable_afterName stopsAt role name
  · refine stable_bind (stable_name? fun isSettled => (stopsAt isSettled).ends) fun name => ?_
    exact stable_afterName stopsAt role name

theorem stable_index (stopsAt : settled → sequel.StopsAt scope.stops) :
    Stable settled sequel scope Index.grammar := by
  have afterRole (role : Option IndexRole) : Stable settled sequel scope (do
      unless (← consumeAny ["INDEX", "KEY"]) || role.any IndexRole.standsAlone do
        refuse (.expected "keyword INDEX or KEY")
      body role) := by
    refine stable_consumeAny_bind (by decide) fun seen => ?_
    exact stable_ite (stable_body stopsAt role) stable_refuse_bind
  intro shorter longer extension value final reading
  have more : shorter.ahead ≠ [] := progresses_index.ahead_ne_nil reading
  refine carries_look_bind (by rw [extension.keyword? more]) ?_ value final reading
  cases shorter.current.keyword?.bind IndexRole.ofKeyword? with
  | none => exact afterRole none shorter longer extension
  | some role => exact carries_advance_bind extension more (afterRole (some role))

end Index

/-! ## Constraints -/

namespace Constraint

theorem stable_referentialAction : Stable settled sequel scope referentialAction := by
  refine stable_consume_ite (by decide) (stable_pure _) ?_
  refine stable_consume_ite (by decide) (stable_pure _) ?_
  refine stable_consume_ite (by decide) ?_ (stable_consume_ite (by decide) ?_ (stable_refuse _))
  · refine stable_consume_ite (by decide) (stable_pure _) ?_
    exact stable_consume_ite (by decide) (stable_pure _) (stable_refuse _)
  · exact stable_expect_bind (stable_pure _)

theorem stable_eventAction? : Stable settled sequel scope eventAction? := by
  refine stable_consume_ite (by decide) ?_ (stable_pure none)
  refine stable_consume_ite (by decide) ?_ (stable_consume_ite (by decide) ?_ (stable_refuse _))
  · exact stable_bind stable_referentialAction fun _ => stable_pure _
  · exact stable_bind stable_referentialAction fun _ => stable_pure _

theorem stable_matchType? : Stable settled sequel scope matchType? := by
  refine stable_consume_ite (by decide) ?_ (stable_pure ())
  exact stable_consumeAny_ite (by decide) (stable_pure ()) (stable_refuse _)

theorem stable_foreignKey (ends : settled → sequel.Ends) :
    Stable settled sequel scope foreignKey := by
  refine stable_expect_bind (stable_expect_bind ?_)
  refine stable_bind (stable_name? ends) fun indexName => ?_
  refine stable_bind stable_names fun localColumns => ?_
  refine stable_expect_bind (stable_bind stable_name fun referencedTable => ?_)
  refine stable_bind stable_names fun referencedColumns => ?_
  refine stable_bind stable_matchType? fun _ => ?_
  exact stable_bind (stable_many stable_eventAction?) fun _ => stable_pure _

/-- The text of the tokens that were read does not depend on the places of the tokens. -/
theorem stable_consumed_bind {α β : Type} {grammar : Grammar α} {second : String → Grammar β}
    (here : Stable settled sequel scope grammar)
    (there : ∀ text, Stable settled sequel scope (second text)) :
    Stable settled sequel scope (do second (Token.renderRaw (← consumed grammar))) := by
  intro shorter longer extension value final reading stopped
  obtain ⟨tokens, middle, before, after⟩ := finds_bind_iff.mp reading
  obtain ⟨found, beforeFound, rfl⟩ := finds_consumed_iff.mp before
  obtain ⟨middleLonger, beforeLonger, extended⟩ := here shorter longer extension found middle
    beforeFound (stopped.imp id after.reaches.ahead_ne_nil)
  obtain ⟨finalLonger, afterLonger, last⟩ :=
    there _ middle middleLonger extended value final after stopped
  refine ⟨finalLonger, finds_bind_iff.mpr ⟨_, middleLonger,
    finds_consumed_iff.mpr ⟨found, beforeLonger, rfl⟩, ?_⟩, last⟩
  have same : (longer.between middleLonger).map Token.placeless =
      (shorter.between middle).map Token.placeless := by
    have bound := beforeFound.reaches.remaining_le
    have view : longer.ahead.map Token.placeless =
      shorter.ahead.map Token.placeless ++ sequel.tokens := extension.view
    rw [Cursor.between, Cursor.between, List.map_take, List.map_take, extension.remaining,
      extended.remaining, Nat.add_sub_add_right, view, List.take_append_of_le_length]
    rw [List.length_map]
    exact Nat.sub_le _ _
  rwa [← Token.renderRaw_map_placeless, same, Token.renderRaw_map_placeless]

theorem stable_clause (stopsAt : settled → sequel.StopsAt scope.stops) :
    Stable settled sequel scope clause := by
  have afterText (text : String) : Stable settled sequel scope
      (if text.isEmpty then refuse (.expected "constraint body") else return text) :=
    stable_ite (stable_refuse _) (stable_pure text)
  exact stable_consumed_bind (stable_skipTo fun isSettled => (stopsAt isSettled).adding _) afterText

theorem stable_constraintName? (ends : settled → sequel.Ends) :
    Stable settled sequel scope constraintName? := by
  refine stable_consume_ite (by decide) ?_ (stable_pure none)
  exact stable_seesAny_bind (by decide) fun _ => stable_ite (stable_pure none) (stable_name? ends)

theorem stable_constraint (stopsAt : settled → sequel.StopsAt scope.stops) :
    Stable settled sequel scope Constraint.grammar := by
  have ends (isSettled : settled) : sequel.Ends := (stopsAt isSettled).ends
  refine stable_bind (stable_constraintName? ends) fun name => stable_sees_ite (by decide) ?_ ?_
  · exact stable_bind (stable_foreignKey ends) fun _ => stable_pure _
  · refine stable_settings_bind (stable_ite (stable_refuse _) ?_)
    exact stable_bind (stable_clause stopsAt) fun _ => stable_pure _

end Constraint

/-! ## Table options -/

namespace TableOption

theorem startsAt_extends {shorter longer : Cursor}
    (extension : Cursor.Extends sequel shorter longer) :
    startsAt longer.current longer.next = startsAt shorter.current shorter.next := by
  by_cases done : shorter.ahead = []
  · -- No option starts with the end, nor with a word that begins something new.
    have ended := Token.keyword?_of_isEnd (Cursor.isEnd_current_of_ahead_eq_nil done)
    simp only [startsAt, ended]
    cases keyword : longer.current.keyword? with
    | none => rfl
    | some word =>
        have openers : ∀ word ∈ Sequel.openers, word ≠ "DEFAULT" ∧
            ¬ (word = "DATA" ∨ word = "INDEX") ∧ isKeyWord word = false := by decide +kernel
        obtain ⟨noDefault, noLead, noKey⟩ := openers word (extension.keyword?_at_end done keyword).1
        simp only [noDefault, noLead, noKey, if_false]
  · have next := extension.advance done
    simp only [startsAt, Cursor.next, extension.keyword? done]
    rw [next.spells_any (by decide), next.spells (by decide)]

theorem stable_scalar : Stable settled sequel scope scalar := by
  refine stable_consume_bind (by decide) fun _ => ?_
  refine stable_current_bind (fun _ => rfl) ?_ fun shorter longer extension more => ?_
  · intro token isEnd
    rw [Token.kind_of_isEnd isEnd]
    exact ⟨_, rfl⟩
  cases shorter.current.kind with
  | integer | float | word | quotedString =>
      exact carries_advance_bind extension more (stable_pure _)
  | binaryLiteral | leftParen | identifier | backtick | rightParen | comma | equals | semicolon
  | dot | symbol | endOfInput => exact carries_refuse _

theorem stable_nameValue : Stable settled sequel scope nameValue :=
  stable_consume_bind (by decide) fun _ => stable_bind stable_nameOrString fun _ => stable_pure _

theorem stable_storage? : Stable settled sequel scope storage? := by
  refine stable_consume_ite (by decide) ?_ (stable_pure none)
  refine stable_seesAny_advance (by decide) (fun shorter longer extension more => ?_)
    stable_refuse_bind
  refine carries_current_bind extension more (fun _ => rfl) ?_
  exact carries_advance_bind extension more (stable_pure _)

theorem stable_tablespaceValue : Stable settled sequel scope tablespaceValue :=
  stable_consume_bind (by decide) fun _ => stable_bind stable_name fun _ =>
    stable_bind stable_storage? fun _ => stable_pure _

theorem stable_tablesValue : Stable settled sequel scope tablesValue :=
  stable_consume_bind (by decide) fun _ => stable_bind stable_names fun _ => stable_pure _

theorem stable_keyText : Stable settled sequel scope keyText := by
  refine stable_keyword?_bind (fun word shorter longer extension more => ?_) ⟨_, rfl⟩
  dsimp only
  split
  · refine carries_advance_bind extension more ?_
    refine stable_keyword?_bind (fun next shorter longer extension more => ?_) ⟨_, rfl⟩
    exact carries_advance_bind extension more (stable_pure _)
  · exact carries_advance_bind extension more (stable_pure _)

theorem stable_tableOption : Stable settled sequel scope TableOption.grammar := by
  refine stable_bind stable_keyText fun key => stable_ite ?_ (stable_ite ?_ (stable_ite ?_ ?_))
  · exact stable_expect_bind (stable_bind stable_nameValue fun _ => stable_pure _)
  · exact stable_bind stable_nameValue fun _ => stable_pure _
  · exact stable_bind stable_tablespaceValue fun _ => stable_pure _
  · refine stable_ite (stable_bind stable_tablesValue fun _ => stable_pure _) ?_
    exact stable_ite (stable_bind stable_scalar fun _ => stable_pure _) (stable_refuse _)

theorem stable_options : Stable settled sequel scope options := by
  refine stable_many (stable_look_bind (fun _ _ => startsAt_extends) fun starts => ?_)
  refine stable_ite ?_ (stable_pure none)
  exact stable_bind stable_tableOption fun _ =>
    stable_consume_bind (by decide) fun _ => stable_pure _

end TableOption

/-! ## Partitionings -/

namespace PartitionDefinition

theorem stable_readBoundKind : Stable settled sequel scope readBoundKind := by
  refine stable_consume_ite (by decide) (stable_expect_bind (stable_pure _)) ?_
  exact stable_consume_ite (by decide) (stable_pure _) (stable_refuse _)

theorem stable_valueList : Stable settled sequel scope valueList :=
  stable_parenthesized stable_literal

theorem stable_boundValues (kind : BoundKind) :
    Stable settled sequel scope (boundValues kind) := by
  cases kind with
  | lessThan =>
      refine stable_sees_advance (by decide) (fun shorter longer extension more => ?_)
        stable_valueList
      exact carries_advance_bind extension more (stable_pure _)
  | within => exact fun shorter longer extension =>
      carries_look_bind rfl (stable_valueList shorter longer extension)

/-- A definition stands in parentheses, so that something lies ahead of it. -/
theorem stable_partitionDefinition :
    Stable False sequel scope PartitionDefinition.grammar := by
  refine stable_expect_bind (stable_bind stable_name fun name => ?_)
  refine stable_consume_ite (by decide) ?_ ?_
  · refine stable_bind stable_readBoundKind fun kind => ?_
    refine stable_bind (stable_boundValues kind) fun values => ?_
    exact stable_bind (stable_skipTo False.elim) fun _ => stable_pure _
  · exact stable_bind (stable_skipTo False.elim) fun _ => stable_pure _

theorem stable_list : Stable settled sequel scope PartitionDefinition.list :=
  stable_parenthesized stable_partitionDefinition

end PartitionDefinition

namespace PartitionClause

theorem stable_readKind (level : PartitionLevel) :
    Stable settled sequel scope (readKind level) := by
  refine stable_keyword?_bind (fun word shorter longer extension more => ?_) ?_
  · split
    · exact carries_advance_bind extension more (stable_pure _)
    · exact carries_refuse _
  · cases level <;> exact ⟨_, rfl⟩

theorem stable_algorithm? : Stable settled sequel scope algorithm? := by
  refine stable_consume_ite (by decide) (stable_expect_bind ?_) (stable_pure none)
  refine stable_current_bind (fun _ => rfl) ?_ fun shorter longer extension more => ?_
  · intro token isEnd
    exact ⟨.expected "ALGORITHM value 1 or 2", by simp [Token.kind_of_isEnd isEnd]⟩
  split
  · exact carries_advance_bind extension more (stable_pure _)
  split
  · exact carries_advance_bind extension more (stable_pure _)
  · exact carries_refuse _

theorem stable_keyColumns : Stable settled sequel scope keyColumns := by
  refine stable_sees_nextSees_ite (by decide) (by decide)
    (fun shorter longer extension more moreNext => ?_) stable_names
  exact carries_advance_twice_bind extension more moreNext (stable_pure _)

theorem stable_readExpression : Stable settled sequel scope readExpression :=
  stable_bind stable_group fun _ => stable_ite (stable_refuse _) (stable_pure _)

theorem stable_readFunction (kind : PartitionKind) :
    Stable settled sequel scope (readFunction kind) := by
  have expression : Stable settled sequel scope (do
      return { kind, expression := some (← readExpression) : PartitionClause }) :=
    stable_bind stable_readExpression fun _ => stable_pure _
  have columns {shorter longer : Cursor} (extension : Cursor.Extends sequel shorter longer)
      (more : shorter.ahead ≠ []) : Carries settled sequel scope (do
        advance
        return { kind, isColumns := true, columns := ← names : PartitionClause }) shorter longer :=
    carries_advance_bind extension more (stable_bind stable_names fun _ => stable_pure _)
  cases kind with
  | key =>
      refine stable_bind stable_algorithm? fun algorithm => stable_sees_ite (by decide) ?_ ?_
      · exact stable_refuse_bind
      · exact stable_bind stable_keyColumns fun _ => stable_pure _
  | hash => exact stable_sees_ite (by decide) stable_refuse_bind expression
  | range => exact stable_sees_advance (by decide) (fun _ _ => columns) expression
  | list => exact stable_sees_advance (by decide) (fun _ _ => columns) expression

theorem stable_head (level : PartitionLevel) :
    Stable settled sequel scope (PartitionClause.head level) := by
  refine stable_expect_bind (stable_expect_bind ?_)
  refine stable_consume_bind (by decide) fun isLinear => ?_
  refine stable_bind (stable_readKind level) fun kind => ?_
  refine stable_bind (stable_readFunction kind) fun clause => ?_
  refine stable_consume_ite (by cases level <;> decide) ?_ ?_
  · exact stable_bind (stable_map (stable_unsigned _)) fun _ => stable_pure _
  · exact stable_bind (stable_pure none) fun _ => stable_pure _

end PartitionClause

theorem Partitioning.stable_partitioning :
    Stable settled sequel scope Partitioning.grammar := by
  have afterInner (clause : PartitionClause) (inner : Option Partitioning) :
      Stable settled sequel scope (do
        let definitions ← if clause.kind.hasDefinitions && (← sees "(") then
            PartitionDefinition.list
          else
            pure []
        return ofClause { clause with definitions } inner) := by
    refine stable_sees_bind (by decide) fun opened => stable_ite ?_ ?_
    · exact stable_bind PartitionDefinition.stable_list fun _ => stable_pure _
    · exact stable_bind (stable_pure []) fun _ => stable_pure _
  refine stable_bind (PartitionClause.stable_head .table) fun clause => ?_
  refine stable_sees_ite (by decide) ?_ ?_
  · refine stable_bind (stable_map ?_) fun inner => afterInner clause inner
    exact stable_bind (PartitionClause.stable_head .partitions) fun _ => stable_pure _
  · exact stable_bind (stable_pure none) fun inner => afterInner clause inner

end TableDdl
