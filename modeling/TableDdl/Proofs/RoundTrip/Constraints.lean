import TableDdl.Proofs.RoundTrip.Clauses
import TableDdl.Proofs.RoundTrip.Indexes

/-!
# Canonical constraints are read back

A foreign key is canonical if its names are not empty and it has columns on both sides. A clause that
is kept as text is canonical if it is an expression without a comma outside parentheses that cannot
be taken for a foreign key or, where the constraint has no name, for its name.
-/

namespace TableDdl

namespace ForeignKey

open Grammar
open Lexer hiding nameTokens
open Column (partTokens)

/-- A foreign key that is read back from its text. -/
structure Canonical (key : ForeignKey) : Prop where
  indexName : ∀ name ∈ key.indexName, name ≠ ""
  localColumns : key.localColumns ≠ []
  localNames : ∀ column ∈ key.localColumns, column ≠ ""
  referencedTable : key.referencedTable ≠ ""
  referencedColumns : key.referencedColumns ≠ []
  referencedNames : ∀ column ∈ key.referencedColumns, column ≠ ""

/-- The tokens of an action. -/
def actionTokens : ReferentialAction → List Token
  | .restrict => [.bare .word "RESTRICT"]
  | .cascade => [.bare .word "CASCADE"]
  | .setNull => [.bare .word "SET", .bare .word "NULL"]
  | .noAction => [.bare .word "NO", .bare .word "ACTION"]
  | .setDefault => [.bare .word "SET", .bare .word "DEFAULT"]

/-- The tokens of an action on an event. -/
def eventTokens (event : String) (action : Option ReferentialAction) : List Token :=
  partTokens [.bare .word "ON", .bare .word event] actionTokens action

/-- The tokens of a foreign key. -/
def tokens (key : ForeignKey) : List Token :=
  .bare .word "FOREIGN" :: .bare .word "KEY" :: (partTokens [] nameTokens key.indexName ++
    (Token.enclosed nameTokens key.localColumns ++ (.bare .word "REFERENCES" ::
    (nameTokens key.referencedTable ++ (Token.enclosed nameTokens key.referencedColumns ++
    (eventTokens "DELETE" key.onDelete ++ eventTokens "UPDATE" key.onUpdate))))))

variable {operand : Bool} {key : ForeignKey}

theorem attached_event {event : String}
    (plain : plain? (" ON " ++ event ++ " ") =
      some ([.bare .word "ON", .bare .word event], false)) (action : Option ReferentialAction) :
    Attached (renderAction event action) (eventTokens event action) := by
  cases action with
  | none => exact attached_empty
  | some action =>
      have spelled (operand : Bool) : Spelled operand action.render (actionTokens action) := by
        cases action <;> exact spelled_plain (by decide)
      refine ⟨fun operand => (closed_plain plain).append (spelled _), ?_⟩
      simp only [renderAction, String.append_assoc]
      exact gapped_append (by decide)

/-- A foreign key is read as its tokens. -/
theorem spelled (key : ForeignKey) : Spelled operand key.render key.tokens := by
  have start : Spelled operand "FOREIGN KEY" [.bare .word "FOREIGN", .bare .word "KEY"] :=
    spelled_plain (by decide)
  have name := Index.attached_name key.indexName
  have references : Attached (" (" ++ (Text.quoteNames "," key.localColumns ++
        (") REFERENCES " ++ Text.quoteName key.referencedTable)))
      (Token.enclosed nameTokens key.localColumns ++
        ([.bare .word "REFERENCES"] ++ nameTokens key.referencedTable)) := by
    have list (operand : Bool) : Closed operand
        (" (" ++ Text.quoteNames "," key.localColumns ++ ") REFERENCES ")
        (Token.enclosed nameTokens key.localColumns ++ [.bare .word "REFERENCES"]) :=
      Index.closed_names (by decide) (by decide) (by decide) (by decide)
    refine ⟨fun operand => ?_, gapped_append (by decide)⟩
    have spelled := (list operand).append (spelled_quoteName key.referencedTable)
    simp only [String.append_assoc, List.append_assoc] at spelled
    exact spelled
  have columns : Attached (" (" ++ (Text.quoteNames "," key.referencedColumns ++ ")"))
      (Token.enclosed nameTokens key.referencedColumns) :=
    Index.attached_names (by decide) (by decide)
  have delete : Attached (renderAction "DELETE" key.onDelete) _ := attached_event (by decide) _
  have update : Attached (renderAction "UPDATE" key.onUpdate) _ := attached_event (by decide) _
  have whole := start.attach (name.append (references.append (columns.append
    (delete.append update))))
  simp only [String.append_assoc, List.append_assoc, List.cons_append, List.nil_append] at whole
  unfold render tokens
  simp only [String.append_assoc]
  exact whole

/-! ## Reading a foreign key -/

variable {scope : Scope} {after rest : List Token}

open Constraint

theorem reads_action (action : ReferentialAction) :
    referentialAction.Reads scope (actionTokens action ++ rest) action rest := by
  unfold referentialAction
  cases action with
  | restrict => exact reads_consume_ite (by decide) (reads_pure _)
  | cascade =>
      refine reads_consume_ite_unseen (unseen_cons (by decide)) ?_
      exact reads_consume_ite (by decide) (reads_pure _)
  | setNull =>
      refine reads_consume_ite_unseen (unseen_cons (by decide)) ?_
      refine reads_consume_ite_unseen (unseen_cons (by decide)) ?_
      refine reads_consume_ite (by decide) ?_
      exact reads_consume_ite (by decide) (reads_pure _)
  | noAction =>
      refine reads_consume_ite_unseen (unseen_cons (by decide)) ?_
      refine reads_consume_ite_unseen (unseen_cons (by decide)) ?_
      refine reads_consume_ite_unseen (unseen_cons (by decide)) ?_
      exact reads_consume_ite (by decide) (reads_expect_bind (by decide) (reads_pure _))
  | setDefault =>
      refine reads_consume_ite_unseen (unseen_cons (by decide)) ?_
      refine reads_consume_ite_unseen (unseen_cons (by decide)) ?_
      refine reads_consume_ite (by decide) ?_
      refine reads_consume_ite_unseen (unseen_cons (by decide)) ?_
      exact reads_consume_ite (by decide) (reads_pure _)

/-- The actions on the events that there are. -/
def events (key : ForeignKey) : List (ReferenceEvent × ReferentialAction) :=
  key.onDelete.toList.map (ReferenceEvent.delete, ·) ++
    key.onUpdate.toList.map (ReferenceEvent.update, ·)

theorem lastAction_events (key : ForeignKey) :
    lastAction .delete key.events = key.onDelete ∧ lastAction .update key.events = key.onUpdate := by
  unfold events
  cases key.onDelete <;> cases key.onUpdate <;> simp [lastAction]

theorem reads_events (key : ForeignKey) (noEvent : Unseen "ON" after) :
    Reads (many eventAction?) scope
      (eventTokens "DELETE" key.onDelete ++ (eventTokens "UPDATE" key.onUpdate ++ after)) key.events
      after := by
  have none : Reads (many eventAction?) scope after [] after :=
    reads_many_nil (reads_consume_ite_unseen noEvent (reads_pure _))
  have update : Reads (many eventAction?) scope (eventTokens "UPDATE" key.onUpdate ++ after)
      (key.onUpdate.toList.map (ReferenceEvent.update, ·)) after := by
    cases key.onUpdate with
    | none => exact none
    | some action =>
        refine reads_many_cons ?_ ?_ none
        · refine reads_consume_ite (by decide) ?_
          refine reads_consume_ite_unseen (unseen_cons (by decide)) ?_
          exact reads_consume_ite (by decide) ((reads_action action).bind (reads_pure _))
        · simp only [eventTokens, partTokens, List.length_append, List.length_cons]
          omega
  unfold events
  cases key.onDelete with
  | none => exact update
  | some action =>
      refine reads_many_cons ?_ ?_ update
      · refine reads_consume_ite (by decide) ?_
        exact reads_consume_ite (by decide) ((reads_action action).bind (reads_pure _))
      · simp only [eventTokens, partTokens, List.length_append, List.length_cons]
        omega

theorem unseen_event {text event : String} {action : Option ReferentialAction}
    (other : Token.spells (.bare .word "ON") text = false) (unseen : Unseen text rest) :
    Unseen text (eventTokens event action ++ rest) := by
  cases action with
  | none => exact unseen
  | some action => exact unseen_cons other

/-- A canonical foreign key is read from its tokens. -/
theorem Canonical.reads (canonical : key.Canonical)
    (followed : ∀ text ∈ ["MATCH", "ON"], Unseen text after) :
    foreignKey.Reads scope (key.tokens ++ after) key after := by
  obtain ⟨delete, update⟩ := lastAction_events key
  have noMatch : Unseen "MATCH"
      (eventTokens "DELETE" key.onDelete ++ (eventTokens "UPDATE" key.onUpdate ++ after)) :=
    unseen_event (by decide) (unseen_event (by decide) (followed _ (by simp)))
  have same : { indexName := key.indexName, localColumns := key.localColumns
                referencedTable := key.referencedTable, referencedColumns := key.referencedColumns
                onDelete := lastAction .delete key.events
                onUpdate := lastAction .update key.events } = key := by
    rw [delete, update]
  simp only [tokens, List.cons_append, List.append_assoc]
  refine reads_expect_bind (by decide) (reads_expect_bind (by decide) ?_)
  refine (Index.reads_name?_part canonical.indexName).bind ?_
  refine (reads_names canonical.localColumns canonical.localNames).bind ?_
  refine reads_expect_bind (by decide) ((reads_name canonical.referencedTable).bind ?_)
  refine (reads_names canonical.referencedColumns canonical.referencedNames).bind ?_
  refine (reads_consume_ite_unseen noMatch (reads_pure ())).bind ?_
  refine (reads_events key (followed _ (by simp))).bind ?_
  rw [same]
  exact reads_pure key

end ForeignKey

namespace Constraint

open Grammar
open Lexer hiding nameTokens
open Column (partTokens)

/-- A constraint that is read back from its text. -/
structure Canonical (constraint : Constraint) : Prop where
  name : ∀ name ∈ constraint.name, name ≠ ""
  foreignKey : ∀ key, constraint.body = .foreignKey key → key.Canonical
  clause : ∀ text, constraint.body = .unsupported text → IsClause constraint.name.isSome text

/-- The tokens of what a constraint demands. -/
def bodyTokens : ConstraintBody → List Token
  | .foreignKey key => key.tokens
  | .unsupported text => clauseTokens text

/-- The tokens of a constraint. -/
def tokens (constraint : Constraint) : List Token :=
  .bare .word "CONSTRAINT" :: (partTokens [] nameTokens constraint.name ++
    bodyTokens constraint.body)

variable {operand : Bool} {constraint : Constraint} {scope : Scope} {after : List Token}

theorem Canonical.attached_body (canonical : constraint.Canonical) :
    Attached (" " ++ match constraint.body with
      | .foreignKey key => key.render
      | .unsupported text => text) ([] ++ bodyTokens constraint.body) := by
  refine attached_closed (by decide) (by decide) fun operand => ?_
  cases found : constraint.body with
  | foreignKey key => exact key.spelled
  | unsupported text => exact (canonical.clause text found).read.spelled _

/-- A canonical constraint is read as its tokens. -/
theorem Canonical.spelled (canonical : constraint.Canonical) :
    Spelled operand constraint.render constraint.tokens := by
  have start : Spelled operand "CONSTRAINT" [.bare .word "CONSTRAINT"] := spelled_plain (by decide)
  have whole := start.attach
    ((Index.attached_name constraint.name).append canonical.attached_body)
  simp only [List.cons_append, List.nil_append] at whole
  unfold render tokens
  simp only [String.append_assoc]
  exact whole

/-! ## Reading a constraint -/

theorem reads_constraintName? {name : Option String} {first : Token} {rest : List Token}
    (nonempty : ∀ text ∈ name, text ≠ "")
    (notName : name.isSome = false → bodyWords.any first.spells = true ∨
      first.spells "\x60" = false ∧ first.kind ≠ .word) :
    constraintName?.Reads scope
      (.bare .word "CONSTRAINT" :: (partTokens [] nameTokens name ++ first :: rest)) name
      (first :: rest) := by
  refine reads_consume_ite (by decide) ?_
  cases name with
  | some name =>
      have noWord : ∀ text ∈ bodyWords, Unseen text (nameTokens name ++ first :: rest) := by
        have others : ∀ text ∈ bodyWords, backtickToken.spells text = false := by decide
        intro text member
        rw [nameTokens_eq (nonempty name rfl)]
        exact unseen_cons (others text member)
      exact reads_seesAny_bind_unseen noWord (reads_name? (nonempty name rfl))
  | none =>
      by_cases word : bodyWords.any first.spells = true
      · exact reads_seesAny_bind word (reads_pure none)
      · have other := (notName rfl).resolve_left word
        refine reads_seesAny_bind_unseen (fun text member => unseen_cons ?_)
          (reads_name?_none other.1 other.2)
        simpa using List.any_eq_false.mp (Bool.eq_false_iff.mpr word) text member

/-- What may follow a constraint. -/
structure Followed (stops : Stops) (after : List Token) : Prop where
  ends : Ends (stops.adding [","]) after
  noEvent : ∀ text ∈ ["MATCH", "ON"], Unseen text after

/-- A canonical constraint is read from its tokens; where only foreign keys are allowed, it must be
one. -/
theorem Canonical.reads (canonical : constraint.Canonical)
    (stops : scope.stops = Stops.none.adding [";"])
    (strict : scope.settings.strictConstraints = true → constraint.isForeignKey = true)
    (followed : Followed scope.stops after) :
    Constraint.grammar.Reads scope (constraint.tokens ++ after) constraint after := by
  obtain ⟨name, body⟩ := constraint
  simp only [tokens, List.cons_append, List.append_assoc]
  cases body with
  | foreignKey key =>
      have reads : Constraint.foreignKey.Reads scope (key.tokens ++ after) key after :=
        (canonical.foreignKey key rfl).reads followed.noEvent
      refine (reads_constraintName? canonical.name fun _ => .inl (by decide)).bind ?_
      refine reads_sees_bind (by decide) ?_
      exact reads.bind (reads_pure _)
  | unsupported text =>
      have clause := (canonical.clause text rfl).read
      obtain ⟨first, others, found, notForeign, notName⟩ := clause.starts
      have lax : scope.settings.strictConstraints = false := by
        cases isStrict : scope.settings.strictConstraints with
        | false => rfl
        | true => exact absurd (strict isStrict) (by simp [isForeignKey])
      have skip : (skipTo [","]).Reads scope (clauseTokens text ++ after) () after := by
        refine reads_skipTo_run clause.notEnd clause.balanced ?_ followed.ends
        rw [stops]
        exact clause.clear
      have reads : Constraint.clause.Reads scope (clauseTokens text ++ after) text after := by
        refine reads_consumed_bind (fun text =>
          if text.isEmpty then refuse (.expected "constraint body") else return text) skip ?_
        have nonempty : text.isEmpty = false := by simpa using clause.nonempty
        rw [clause.written, nonempty]
        exact reads_pure text
      have nameReads : constraintName?.Reads scope (.bare .word "CONSTRAINT" ::
          (partTokens [] nameTokens name ++ (clauseTokens text ++ after))) name
          (clauseTokens text ++ after) := by
        rw [found, List.cons_append]
        refine reads_constraintName? canonical.name fun unnamed => ?_
        refine (notName unnamed).imp (fun word => ?_) id
        simp only [List.any_eq_true] at word ⊢
        obtain ⟨word, member, spelled⟩ := word
        have all : ∀ word ∈ ["CHECK", "UNIQUE", "PRIMARY"], word ∈ bodyWords := by decide
        exact ⟨word, all word member, spelled⟩
      refine nameReads.bind (reads_sees_bind_unseen ?_ (reads_settings_bind ?_))
      · rw [found]
        exact unseen_cons notForeign
      · rw [lax]
        exact reads.bind (reads_pure _)

end Constraint

end TableDdl
