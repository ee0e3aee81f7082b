import TableDdl.Index.Grammar
import TableDdl.Proofs.RoundTrip.Columns

/-!
# Canonical indexes are read back

An index is canonical if its names are not empty, it has a column, and its type is a word in upper
case.
-/

namespace TableDdl

namespace Index

open Grammar
open Lexer hiding nameTokens
open Column (partTokens attached_part)

/-- An index that is read back from its text. -/
structure Canonical (index : Index) : Prop where
  name : ∀ name ∈ index.name, name ≠ ""
  columns : index.columns ≠ []
  columnNames : ∀ column ∈ index.columns, column ≠ ""
  indexType : ∀ word ∈ index.indexType, Token.Single .word word ∧ Text.upper word = word ∧
    word.toList.head? ≠ some '-'

/-- The tokens that start an index with the given role. -/
def startTokens (role : Option IndexRole) : List Token :=
  partTokens [] (fun role => [.bare .word role.keyword]) role ++ [.bare .word "KEY"]

/-- The tokens after those that start an index. -/
def bodyTokens (index : Index) : List Token :=
  partTokens [] nameTokens index.name ++ (Token.enclosed nameTokens index.columns ++
    partTokens [.bare .word "USING"] (fun word => [.bare .word word]) index.indexType)

/-- The tokens of an index. -/
def tokens (index : Index) : List Token := startTokens index.role ++ index.bodyTokens

variable {operand : Bool} {index : Index}

theorem spelled_start (role : Option IndexRole) :
    Spelled operand (match role with
      | some role => role.keyword ++ " KEY"
      | none => "KEY") (startTokens role) := by
  cases role with
  | none => exact spelled_plain (by decide)
  | some role => cases role <;> exact spelled_plain (by decide)

theorem closed_names {names : List String} {separator closing : String} {more : List Token}
    (isComma : plain? separator = some ([Token.comma], false))
    (startsComma : startsGap separator = true)
    (isClosing : plain? closing = some (Token.closing :: more, false))
    (startsClosing : startsGap closing = true) :
    Closed operand (" (" ++ Text.quoteNames separator names ++ closing)
      (Token.enclosed nameTokens names ++ more) :=
  closed_enclosed (by decide) isComma isClosing startsComma startsClosing
    fun name _ => spelled_quoteName name

theorem attached_names {names : List String} {separator : String}
    (isComma : plain? separator = some ([Token.comma], false))
    (startsComma : startsGap separator = true) :
    Attached (" (" ++ (Text.quoteNames separator names ++ ")"))
      (Token.enclosed nameTokens names) := by
  have list (operand : Bool) : Closed operand (" (" ++ Text.quoteNames separator names ++ ")")
      (Token.enclosed nameTokens names ++ []) :=
    closed_names isComma startsComma (by decide) (by decide)
  rw [List.append_nil, String.append_assoc] at list
  exact ⟨fun operand => (list operand).spelled, gapped_append (by decide)⟩

theorem attached_name (name : Option String) :
    Attached (match name with
      | some name => " " ++ Text.quoteName name
      | none => "") (partTokens [] nameTokens name) := by
  cases name with
  | none => exact attached_empty
  | some name =>
      have part : Attached (" " ++ Text.quoteName name) ([] ++ nameTokens name) :=
        attached_closed (by decide) (by decide) fun _ => spelled_quoteName name
      exact part

/-- A canonical index is read as its tokens. -/
theorem Canonical.spelled (canonical : index.Canonical) :
    Spelled operand index.render index.tokens := by
  have name : Attached (match index.name with
      | some name => " " ++ Text.quoteName name
      | none => "") (partTokens [] nameTokens index.name) := attached_name index.name
  have columns : Attached (" (" ++ (Text.quoteNames "," index.columns ++ ")"))
      (Token.enclosed nameTokens index.columns) :=
    attached_names (by decide) (by decide)
  have indexType : Attached (match index.indexType with
      | some word => " USING " ++ word
      | none => "")
      (partTokens [.bare .word "USING"] (fun word => [.bare .word word]) index.indexType) := by
    cases found : index.indexType with
    | none => exact attached_empty
    | some word =>
        obtain ⟨single, -, unsigned⟩ := canonical.indexType word found
        have part : Attached (" USING " ++ word) ([.bare .word "USING"] ++ [.bare .word word]) := by
          refine attached_closed (by decide) (by decide) fun operand rest gap => ?_
          exact .single (step_single (by decide) single (by simp [Token.isClean])
            (fun _ => unsigned) gap)
        exact part
  have start : Spelled operand _ _ := spelled_start index.role
  have whole := start.attach (name.append (columns.append indexType))
  simp only [String.append_assoc] at whole
  simp only [Index.render, tokens, bodyTokens, String.append_assoc]
  exact whole

/-! ## Reading an index -/

variable {scope : Scope} {after : List Token}

theorem reads_keyParts {columns : List String} (nonempty : columns ≠ [])
    (names : ∀ column ∈ columns, column ≠ "") :
    keyParts.Reads scope (Token.enclosed nameTokens columns ++ after) columns after := by
  refine reads_parenthesized (fun after => ∀ text ∈ ["(", "ASC", "DESC"], Unseen text after) nonempty
    (fun column member after unseen => ?_) ⟨fun rest => ?_, ?_⟩
  · refine (reads_name (names column member)).bind ?_
    refine reads_consume_bind_unseen (unseen _ (by simp)) ?_
    refine reads_consumeAny_bind_unseen (fun text member => unseen text ?_) (reads_pure column)
    exact List.mem_cons_of_mem _ member
  · have others : ∀ text ∈ ["(", "ASC", "DESC"], Token.comma.spells text = false := by decide
    exact fun text member => unseen_cons (others text member)
  · have others : ∀ text ∈ ["(", "ASC", "DESC"], Token.closing.spells text = false := by decide
    exact fun text member => unseen_cons (others text member)

/-- What may follow an index. -/
structure Followed (stops : Stops) (after : List Token) : Prop where
  ends : Ends (stops.adding [","]) after
  noType : Unseen "USING" after

theorem reads_indexType? {indexType : Option String}
    (upper : ∀ word ∈ indexType, Text.upper word = word)
    (noType : indexType = none → Unseen "USING" after) :
    indexType?.Reads scope (partTokens [.bare .word "USING"] (fun word => [.bare .word word])
      indexType ++ after) indexType after := by
  cases indexType with
  | none => exact reads_consume_ite_unseen (noType rfl) (reads_pure none)
  | some word =>
      have keyword : Token.keyword? (.bare .word word) = some word := by
        simp [Token.keyword?, upper word rfl]
      refine reads_consume_ite (by decide) (reads_keyword?_bind ?_)
      rw [keyword]
      exact reads_advance_bind (reads_pure _)

/-- The optional name before a list in parentheses. -/
theorem reads_name?_part {name : Option String} (nonempty : ∀ text ∈ name, text ≠ "") :
    name?.Reads scope (partTokens [] nameTokens name ++ Token.opening :: after) name
      (Token.opening :: after) := by
  cases name with
  | none => exact reads_name?_none (by decide) (by decide)
  | some name => exact reads_name? (nonempty name rfl)

theorem unseen_name_part {text : String} {name : Option String}
    (nonempty : ∀ text ∈ name, text ≠ "") (noBacktick : backtickToken.spells text = false)
    (noOpening : Token.opening.spells text = false) :
    Unseen text (partTokens [] nameTokens name ++ Token.opening :: after) := by
  cases name with
  | none => exact unseen_cons noOpening
  | some name =>
      rw [partTokens, nameTokens_eq (nonempty name rfl)]
      exact unseen_cons noBacktick

/-- A canonical index is read from the tokens after those that start it. -/
theorem Canonical.reads_body (canonical : index.Canonical) (followed : Followed scope.stops after) :
    (body index.role).Reads scope (index.bodyTokens ++ after) index after := by
  simp only [bodyTokens, List.append_assoc]
  refine reads_sees_bind_unseen (unseen_name_part canonical.name (by decide) (by decide)) ?_
  refine (reads_name?_part canonical.name).bind ?_
  refine (reads_consume_ite_unseen (unseen_cons (by decide)) (reads_pure none)).bind ?_
  refine (reads_keyParts canonical.columns canonical.columnNames).bind ?_
  refine (reads_indexType? (fun word found => (canonical.indexType word found).2.1)
    fun _ => followed.noType).bind ?_
  exact (reads_skipTo followed.ends).bind (reads_pure index)

/-- A canonical index is read from its tokens. -/
theorem Canonical.reads (canonical : index.Canonical) (followed : Followed scope.stops after) :
    Index.grammar.Reads scope (index.tokens ++ after) index after := by
  have body := canonical.reads_body followed
  unfold tokens startTokens
  cases found : index.role with
  | none =>
      rw [found] at body
      refine reads_keyword?_bind ?_
      refine reads_consumeAny_bind (by decide) ?_
      exact body
  | some role =>
      rw [found] at body
      have read : (Token.keyword? (.bare .word role.keyword)).bind IndexRole.ofKeyword? =
          some role := by
        cases role <;> decide
      refine reads_keyword?_bind ?_
      rw [read]
      exact reads_advance_bind (reads_consumeAny_bind (by decide) body)

end Index

end TableDdl
