import TableDdl.Alter.Grammar
import TableDdl.Proofs.Extension.Definitions
import TableDdl.Statement.Grammar

/-!
# Statements in a text that goes on

A statement that is found in a sequence of tokens is also found where a semicolon and further tokens
follow, if a semicolon ends statements: the statement ends at the semicolon as it ended with the
text.
-/

namespace TableDdl

open Grammar

variable {settled : Prop} {sequel : Sequel} {scope : Scope}

/-! ## Alterations -/

namespace AlterOption

theorem stable_readAction : Stable settled sequel scope readAction := by
  refine stable_keyword?_bind (fun word shorter longer extension more => ?_) ⟨_, rfl⟩
  split
  · exact carries_advance_bind extension more (stable_pure _)
  · exact carries_refuse _

theorem stable_afterRole (role : IndexRole) : Stable settled sequel scope (afterRole role) := by
  cases role with
  | primary | foreign => exact stable_expect
  | fulltext | spatial =>
      exact stable_consumeAny_ite (by decide) (stable_pure ()) (stable_refuse _)
  | unique => exact stable_consumeAny_bind (by decide) fun _ => stable_pure ()

theorem stable_readTarget (action : AlterAction) :
    Stable settled sequel scope (readTarget action) := by
  intro shorter longer extension
  by_cases done : shorter.ahead = []
  · -- At the end there is no word, so that only a column can be meant.
    have ended := Cursor.isEnd_current_of_ahead_eq_nil done
    have noWord := Token.keyword?_of_isEnd ended
    intro value final reading _
    rw [readTarget, current, finds_look_bind_iff] at reading
    by_cases column : action = .change ∨ action = .modify
    · obtain ⟨rfl, rfl⟩ : (.column, none) = value ∧ shorter = final := by
        simpa [noWord, column] using reading
      refine ⟨longer, ?_, extension⟩
      have noTarget : longer.current.keyword?.bind TargetWord.ofWord? ≠ some .column := by
        cases keyword : longer.current.keyword? with
        | none => simp
        | some word =>
            have openers : ∀ word ∈ Sequel.openers, TargetWord.ofWord? word ≠ some .column := by
              decide
            exact openers word (extension.keyword?_at_end done keyword).1
      simp [readTarget, current, noTarget, column]
    · simp [noWord, column, sees, Token.spells_of_isEnd ended] at reading
  · refine carries_current_bind extension done (fun _ => rfl) ?_
    dsimp only
    split
    · exact carries_pure extension _
    refine carries_look_bind (by rw [extension.spells (by decide)]) ?_
    split
    · exact carries_pure extension _
    split
    · exact carries_refuse _
    refine carries_advance_bind extension done ?_
    split
    · exact stable_pure _
    · exact stable_pure _
    · exact stable_pure _
    · exact stable_bind (stable_afterRole _) fun _ => stable_pure _
    · exact stable_refuse _
    · exact stable_refuse _

theorem stable_positionedColumn (stopsAt : settled → sequel.StopsAt scope.stops) :
    Stable settled sequel scope positionedColumn := by
  refine stable_bind stable_name fun name => ?_
  refine stable_bind (stable_withStops ?_) fun column => ?_
  · exact Column.stable_afterName (fun isSettled => (stopsAt isSettled).adding _) name
  · refine stable_consume_ite (by decide) (stable_pure _) ?_
    refine stable_consume_ite (by decide) ?_ (stable_pure column)
    exact stable_bind stable_name fun _ => stable_pure _

theorem stable_columnGroup : Stable settled sequel scope columnGroup :=
  stable_parenthesized (stable_positionedColumn False.elim)

theorem stable_droppedName (role : Option IndexRole) :
    Stable settled sequel scope (droppedName role) := by
  unfold droppedName
  split
  · exact stable_pure _
  · exact stable_bind stable_name fun _ => stable_pure _
  · exact stable_name

theorem stable_rename : Stable settled sequel scope Rename.grammar :=
  stable_bind stable_name fun _ => stable_expect_bind
    (stable_bind stable_name fun _ => stable_pure _)

theorem stable_readPayload (stopsAt : settled → sequel.StopsAt scope.stops)
    (action : AlterAction) (target : AlterTarget) (role : Option IndexRole) :
    Stable settled sequel scope (readPayload action target role) := by
  unfold readPayload
  split
  · refine stable_sees_ite (by decide) ?_ ?_
    · exact stable_bind stable_columnGroup fun _ => stable_pure _
    · exact stable_bind (stable_positionedColumn stopsAt) fun _ => stable_pure _
  · exact stable_bind (Index.stable_body stopsAt role) fun _ => stable_pure _
  · exact stable_bind (stable_droppedName role) fun _ => stable_pure _
  · exact stable_bind (stable_droppedName role) fun _ => stable_pure _
  · exact stable_bind stable_rename fun _ => stable_pure _
  · exact stable_bind stable_rename fun _ => stable_pure _
  · exact stable_bind stable_name fun _ => stable_pure _
  · exact stable_bind stable_name fun _ =>
      stable_bind (stable_positionedColumn stopsAt) fun _ => stable_pure _
  · exact stable_bind (stable_positionedColumn stopsAt) fun _ => stable_pure _
  · exact stable_refuse _

theorem stable_alterOption (stopsAt : settled → sequel.StopsAt scope.stops) :
    Stable settled sequel scope AlterOption.grammar := by
  refine stable_bind TableOption.stable_options fun tableOptions => ?_
  refine stable_bind stable_readAction fun action => ?_
  refine stable_seesAny_bind (by decide) fun seen => stable_ite ?_ ?_
  · exact stable_bind stable_name fun _ => stable_pure _
  · exact stable_bind (stable_readTarget action) fun _ =>
      stable_bind (stable_readPayload stopsAt _ _ _) fun _ => stable_pure _

end AlterOption

/-! ## Whole statements -/

section

variable (semicolon : scope.settings.terminator = ";")
include semicolon

/-- The end of a statement and the semicolon after it look the same. -/
theorem atTerminator_extends {shorter longer : Cursor}
    (extension : Cursor.Extends sequel shorter longer)
    (ends : shorter.ahead = [] → sequel.Ends) :
    (longer.atEnd || longer.current.spells scope.settings.terminator) =
      (shorter.atEnd || shorter.current.spells scope.settings.terminator) := by
  by_cases done : shorter.ahead = []
  · have ended : shorter.atEnd = true := Cursor.isEnd_current_of_ahead_eq_nil done
    rw [ended, Bool.true_or, semicolon]
    rcases extension.current_at_end done with ended | terminated | ⟨_, _, noEnd, _⟩
    · rw [Cursor.atEnd, ended, Bool.true_or]
    · rw [← Token.spells_placeless, terminated, show Sequel.terminator.spells ";" = true by decide,
        Bool.or_true]
    · exact absurd (ends done) noEnd
  · rw [extension.atEnd done, ← Token.spells_placeless, extension.current done,
      Token.spells_placeless]

/-- The stop words of a statement end it before a semicolon. -/
theorem stopsAt_statement (ends : sequel.Ends) (words : List String) :
    sequel.StopsAt (scope.stops.adding (scope.settings.terminator :: words)) := by
  cases sequel with
  | nothing => trivial
  | terminated more =>
      rw [semicolon]
      simp [Sequel.StopsAt, Stops.stopAt, Stops.adding, Sequel.terminator, Token.isPunctuation,
        Token.Kind.isPunctuation, show Text.upper ";" = ";" by decide]
  | continued => exact ends.elim

variable (ends : settled → sequel.Ends)
include ends

theorem stable_atTerminator_bind {β : Type} {second : Bool → Grammar β}
    (there : ∀ ended, Stable settled sequel scope (second ended)) :
    Stable settled sequel scope (atTerminator >>= second) := by
  intro shorter longer extension value final reading stopped
  have endsHere : shorter.ahead = [] → sequel.Ends := fun done =>
    ends (stopped.resolve_right fun more => reading.reaches.ahead_ne_nil more done)
  exact carries_look_bind (congrArg second (atTerminator_extends semicolon extension endsHere))
    (there _ shorter longer extension) value final reading stopped

theorem AlterTable.stable_atClausesEnd_bind {β : Type} {second : Bool → Grammar β}
    (there : ∀ ended, Stable settled sequel scope (second ended)) :
    Stable settled sequel scope (AlterTable.atClausesEnd >>= second) := by
  refine stable_bind ?_ there
  exact stable_atTerminator_bind semicolon ends fun _ => stable_sees_bind (by decide) fun _ =>
    stable_pure _

theorem AlterTable.stable_clauses (stopsAt : settled → sequel.StopsAt scope.stops) :
    Stable settled sequel scope AlterTable.clauses := by
  refine AlterTable.stable_atClausesEnd_bind semicolon ends fun ended => ?_
  refine stable_ite (stable_pure []) ?_
  refine stable_bind (AlterOption.stable_alterOption stopsAt) fun first => ?_
  refine stable_bind (stable_many ?_) fun others => stable_pure _
  refine stable_consume_ite (by decide) ?_ (stable_pure none)
  refine AlterTable.stable_atClausesEnd_bind semicolon ends fun ended => ?_
  refine stable_ite (stable_pure none) ?_
  exact stable_bind (AlterOption.stable_alterOption stopsAt) fun _ => stable_pure _

theorem AlterTable.stable_alterTable : Stable settled sequel scope AlterTable.grammar := by
  refine stable_expect_bind (stable_expect_bind ?_)
  refine stable_bind stable_name fun tableName => stable_settings_bind ?_
  refine stable_bind (stable_withStops ?_) fun options => ?_
  · exact AlterTable.stable_clauses semicolon ends fun isSettled =>
      stopsAt_statement semicolon (ends isSettled) _
  have afterPartitioning (partitioning : Option Partitioning) : Stable settled sequel scope (do
      unless ← atTerminator do refuse (.expected "\",\" or end of ALTER TABLE statement")
      if options.isEmpty && partitioning.isNone then refuse (.expected "ALTER TABLE clause")
      return { tableName, options, partitioning : AlterTable }) := by
    refine stable_atTerminator_bind semicolon ends fun ended => stable_ite ?_ stable_refuse_bind
    exact stable_ite stable_refuse_bind (stable_pure _)
  refine stable_sees_ite (by decide) ?_ ?_
  · exact stable_bind (stable_map Partitioning.stable_partitioning) afterPartitioning
  · exact stable_bind (stable_pure none) afterPartitioning

end

/-! ## Tables -/

namespace TableElement

/-- A definition stands in parentheses, so that something lies ahead of it. -/
theorem stable_tableElement : Stable False sequel scope TableElement.grammar := by
  have element (word : String) : Stable False sequel scope (do
      if Index.startsWith word then return index (← Index.grammar)
      else if constraintWords.contains word then return constraint (← Constraint.grammar)
      else return column (← Column.grammar)) := by
    refine stable_ite ?_ (stable_ite ?_ ?_)
    · exact stable_bind (Index.stable_index False.elim) fun _ => stable_pure _
    · exact stable_bind (Constraint.stable_constraint False.elim) fun _ => stable_pure _
    · exact stable_bind (Column.stable_column False.elim) fun _ => stable_pure _
  intro shorter longer extension value final reading stopped
  have more : shorter.ahead ≠ [] := reading.reaches.ahead_ne_nil (stopped.resolve_left id)
  refine carries_look_bind (by rw [extension.keyword? more]) ?_ value final reading stopped
  exact element _ shorter longer extension

theorem stable_elements : Stable settled sequel scope TableElement.list :=
  stable_parenthesized stable_tableElement

end TableElement

namespace Table

theorem stable_readOption (tail : Tail) : Stable settled sequel scope (readOption tail) := by
  refine stable_consume_ite (by decide) ?_ ?_
  · refine stable_consume_bind (by decide) fun _ => ?_
    exact Column.stable_quotedString (fun _ => rfl) fun _ => stable_pure _
  · refine stable_sees_nextSees_ite (by decide) (by decide)
      (fun shorter longer extension _ _ => ?_) (stable_pure _)
    exact carries_bind (Partitioning.stable_partitioning shorter longer extension) fun _ =>
      stable_pure _

theorem honest_options : Honest fun depth tail =>
    if depth = 0 then readOption tail else pure (false, tail) := by
  refine honest_outside fun tail scope start changed final found => ?_
  cases readsOption_of_finds found with
  | other => rfl

theorem carries_options (depth : Nat) (tail : Tail) {shorter longer : Cursor}
    (extension : Cursor.Extends sequel shorter longer) : Carries settled sequel scope
      (if depth = 0 then readOption tail else pure (false, tail)) shorter longer := by
  split
  · exact stable_readOption tail shorter longer extension
  · exact carries_pure extension _

theorem stable_tail (stopsAt : settled → sequel.StopsAt scope.stops) :
    Stable settled sequel scope tail := by
  refine stable_scan honest_options ?_ fun isSettled => (stopsAt isSettled).adding _
  exact fun depth tail _ _ extension _ => carries_options depth tail extension

theorem stable_readIfNotExists : Stable settled sequel scope readIfNotExists := by
  refine stable_consume_ite (by decide) ?_ (stable_pure false)
  exact stable_expect_bind (stable_expect_bind (stable_pure true))

theorem stable_table (semicolon : scope.settings.terminator = ";")
    (ends : settled → sequel.Ends) : Stable settled sequel scope Table.grammar := by
  refine stable_expect_bind (stable_consume_bind (by decide) fun isTemporary => ?_)
  refine stable_expect_bind (stable_bind stable_readIfNotExists fun ifNotExists => ?_)
  refine stable_bind (stable_orRefuse stable_name) fun name => ?_
  refine stable_settings_bind (stable_bind (stable_withStops ?_) fun parts => ?_)
  · refine stable_bind TableElement.stable_elements fun elements => ?_
    refine stable_bind (stable_tail fun isSettled => ?_) fun _ => stable_pure _
    exact stopsAt_statement semicolon (ends isSettled) []
  · refine stable_atTerminator_bind semicolon ends fun _ => ?_
    exact stable_ite (stable_pure _) stable_refuse_bind

end Table

/-- A statement that is found is also found where a semicolon and anything else follow. -/
theorem Statement.stable_statement (semicolon : scope.settings.terminator = ";")
    (ends : settled → sequel.Ends) : Stable settled sequel scope Statement.grammar := by
  intro shorter longer extension value final reading
  have more : shorter.ahead ≠ [] := Statement.progresses_statement.ahead_ne_nil reading
  refine carries_look_bind (by rw [extension.spells_inside more]) ?_ value final reading
  split
  · exact carries_bind (Table.stable_table semicolon ends _ _ extension) fun _ => stable_pure _
  refine carries_look_bind (by rw [extension.spells_inside more]) ?_
  split
  · exact carries_bind (AlterTable.stable_alterTable semicolon ends _ _ extension) fun _ =>
      stable_pure _
  · exact carries_refuse _

end TableDdl
