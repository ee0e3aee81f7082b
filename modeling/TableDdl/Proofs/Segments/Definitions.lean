import TableDdl.Proofs.Extension.Definitions
import TableDdl.Proofs.Segments.Steps

/-!
# Columns, indexes and constraints on their own

Every part of a definition closes the parentheses that it opens, and takes commas only inside of
them. So a column, an index or a constraint that is found among other definitions is also found
where there is nothing after it.
-/

namespace TableDdl

open Grammar

variable {beyond : List Token} {scope : Scope} {depth : Nat}

/-! ## Names and literals -/

namespace Grammar

theorem confined_name? : Confined beyond scope depth depth name? := by
  refine confined_consume_ite (by decide) ?_ ?_
  · refine confined_seesKind_bind rfl (confinedElsewhere_take fun _ => ?_) confined_refuse_bind
    exact (confined_expect (by decide)).map _
  · refine confined_seesKind_bind rfl ?_ (confined_look_bind (fun _ _ _ => rfl) fun _ => ?_)
    · refine confinedElsewhere_look_bind (fun scope token => scope.stops.stopAt token) ?_
      intro atStop
      cases atStop with
      | false => exact confinedElsewhere_take fun _ => confined_pure _
      | true => exact (confined_pure none).elsewhere
    · exact confined_pure none

theorem confined_name : Confined beyond scope depth depth name := by
  refine confined_name?.bind fun found => ?_
  cases found with
  | some name => exact confined_pure name
  | none => exact confined_refuse _

theorem confined_nameOrString : Confined beyond scope depth depth nameOrString :=
  confined_seesKind_bind rfl (confinedElsewhere_take fun _ => confined_pure _) confined_name

theorem confined_names : Confined beyond scope depth depth names :=
  confined_parenthesized confined_name

theorem confined_unsigned (what : String) :
    Confined beyond scope depth depth (unsigned what) := by
  refine confined_seesKind_bind rfl ?_ confined_refuse_bind
  refine confinedElsewhere_look_bind (fun _ token => token) fun token => ?_
  cases Number.uint32? token.text with
  | some value => exact confinedElsewhere_advance_bind (confined_pure value)
  | none => exact (confined_refuse _).elsewhere

/-- A literal is one token, a group, or a word and a group. -/
theorem confined_literal : Confined beyond scope depth depth Literal.grammar := by
  intro longer shorter value final severed found
  have single {literal : Literal} : ConfinedElsewhere beyond scope depth depth (do
      advance
      return literal) := confinedElsewhere_advance_bind (confined_pure literal)
  have called (text : String) : ConfinedElsewhere beyond scope depth depth (do
      advance
      if ← sees "(" then
        return Literal.raw (text ++ "(" ++ (← group) ++ ")")
      else
        return Literal.raw text) := by
    refine confinedElsewhere_advance_bind (confined_look_bind ?_ fun _ => ?_)
    · intro longer shorter severed
      rw [severed.spells_opening]
    · exact confined_ite (confined_group.map _) (confined_pure _)
  unfold Literal.grammar at found ⊢
  simp only [current, finds_look_bind_iff] at found ⊢
  cases kind : longer.current.kind with
  | integer | float | quotedString | binaryLiteral =>
      have other : longer.current.kind.divides = false := by simp [kind, Token.Kind.divides]
      rw [severed.current_eq (severed.ahead_ne_nil_of_divides other)]
      simp only [kind] at found ⊢
      exact single _ _ _ _ severed other found
  | word =>
      have other : longer.current.kind.divides = false := by simp [kind, Token.Kind.divides]
      rw [severed.current_eq (severed.ahead_ne_nil_of_divides other)]
      simp only [kind] at found ⊢
      exact called _ _ _ _ _ severed other found
  | leftParen =>
      rw [severed.current_eq (severed.ahead_ne_nil_of_opens kind)]
      simp only [kind] at found ⊢
      exact confined_group.map _ _ _ _ _ severed found
  | identifier | backtick | rightParen | comma | equals | semicolon | dot | symbol
  | endOfInput => simp [kind] at found

end Grammar

/-! ## Columns -/

namespace Column

theorem confined_width? : Confined beyond scope depth depth width? :=
  confined_opening_ite ((confined_unsigned _).bind fun _ => confined_closing.map _)
    (confined_pure none)

theorem confined_withPrecision (column : Column) :
    Confined beyond scope depth depth column.withPrecision := by
  refine confined_opening_ite ((confined_unsigned _).bind fun width => ?_) (confined_pure column)
  refine confined_comma.bind fun seen => confined_ite ?_ ?_
  · exact ((confined_unsigned _).map _).bind fun _ => confined_closing.map _
  · exact (confined_pure none).bind fun _ => confined_closing.map _

theorem confined_withFlags (column : Column) :
    Confined beyond scope depth depth column.withFlags := by
  refine (confined_many ?_).map _
  refine confined_consume_ite (by decide) (confined_pure _) ?_
  refine confined_consume_ite (by decide) (confined_pure _) ?_
  exact confined_consume_ite (by decide) (confined_pure _) (confined_pure none)

theorem confined_withParameters (column : Column) :
    Confined beyond scope depth depth column.withParameters := by
  unfold withParameters
  cases TypeFamily.ofName column.typeName with
  | integer => exact confined_width?.bind fun _ => confined_withFlags _
  | fixedPoint => exact (confined_withPrecision column).bind fun _ => confined_withFlags _
  | temporal | sizedString => exact confined_width?.map _
  | enumerated => exact (confined_parenthesized confined_literal).map _
  | plain | other => exact confined_pure column

theorem confined_characterSet? : Confined beyond scope depth depth characterSet? := by
  refine confined_consume_ite (by decide) ?_ ?_
  · exact (confined_expect (by decide)).bind fun _ => confined_nameOrString.map _
  · exact (confined_consumeAny (by decide)).bind fun _ =>
      confined_ite (confined_nameOrString.map _) (confined_pure none)

theorem confined_readAttribute (draft : Draft) :
    Confined beyond scope depth depth (readAttribute draft) := by
  refine confined_sees_ite (by decide) (confined_pure _) ?_
  refine confined_consume_ite (by decide) ((confined_expect (by decide)).map _) ?_
  refine confined_consume_ite (by decide) (confined_pure _) ?_
  refine confined_consume_ite (by decide) (confined_literal.map _) ?_
  refine confined_twoWords_ite (by decide) (by decide) (confined_literal.map _) ?_
  refine confined_consume_ite (by decide) ?_ ?_
  · exact confined_seesKind_bind rfl (confinedElsewhere_take fun _ => confined_pure _)
      confined_refuse_bind
  · exact confined_sees_ite (by decide) (confined_pure _) (confined_pure _)

theorem confined_afterName (name : String) : Confined beyond scope 0 0 (afterName name) := by
  refine confined_keyword?_bind (fun word => ?_) (confined_refuse _)
  refine confinedElsewhere_advance_bind ((confined_withParameters _).bind fun column => ?_)
  refine (confined_many confined_characterSet?).bind fun _ => ?_
  refine (confined_scan (by decide) honest_attributes fun depth draft => ?_).map _
  exact confined_ite (confined_readAttribute draft) (confined_pure _)

theorem confined_column : Confined beyond scope 0 0 Column.grammar :=
  confined_name.bind fun name => confined_afterName name

end Column

/-! ## Indexes and constraints -/

namespace Index

theorem confined_indexType? : Confined beyond scope depth depth indexType? := by
  refine confined_consume_ite (by decide) ?_ (confined_pure none)
  refine confined_keyword?_bind (fun word => ?_) (confined_refuse _)
  exact confinedElsewhere_advance_bind (confined_pure _)

theorem confined_keyPart : Confined beyond scope depth depth keyPart := by
  have direction (column : String) : Confined beyond scope depth depth (do
      let _ ← consumeAny ["ASC", "DESC"]
      return column) := (confined_consumeAny (by decide)).map _
  refine confined_name.bind fun column => confined_opening_ite ?_ (direction column)
  exact (confined_unsigned _).bind fun _ => confined_closing.bind fun _ => direction column

theorem confined_afterName (role : Option IndexRole) (name : Option String) :
    Confined beyond scope 0 0 (afterName role name) := by
  have ending (columns : List String) (indexType : Option String) :
      Confined beyond scope 0 0 (do
        skipTo [","]
        return { name, indexType, role, columns : Index }) := (confined_skipTo (by decide)).map _
  refine confined_indexType?.bind fun typeBefore => ?_
  refine (confined_parenthesized confined_keyPart).bind fun columns => ?_
  cases typeBefore with
  | some indexType => exact ending columns (some indexType)
  | none => exact confined_indexType?.bind (ending columns)

theorem confined_body (role : Option IndexRole) : Confined beyond scope 0 0 (body role) := by
  refine confined_sees_ite (by decide) ?_ ?_
  · exact (confined_pure none).bind (confined_afterName role)
  · exact confined_name?.bind (confined_afterName role)

theorem confined_index : Confined beyond scope 0 0 Index.grammar := by
  have words (role : Option IndexRole) : Confined beyond scope 0 0 (do
      unless (← consumeAny ["INDEX", "KEY"]) || role.any IndexRole.standsAlone do
        refuse (.expected "keyword INDEX or KEY")
      body role) :=
    (confined_consumeAny (by decide)).bind fun _ =>
      confined_ite ((confined_pure ()).bind fun _ => confined_body role) confined_refuse_bind
  refine confined_keyword?_bind (fun word => ?_) (words none)
  dsimp only
  split
  · exact confinedElsewhere_advance_bind (words _)
  · exact (words _).elsewhere

end Index

namespace Constraint

theorem confined_referentialAction : Confined beyond scope depth depth referentialAction := by
  refine confined_consume_ite (by decide) (confined_pure _) ?_
  refine confined_consume_ite (by decide) (confined_pure _) ?_
  refine confined_consume_ite (by decide) ?_ ?_
  · refine confined_consume_ite (by decide) (confined_pure _) ?_
    exact confined_consume_ite (by decide) (confined_pure _) (confined_refuse _)
  · exact confined_consume_ite (by decide) ((confined_expect (by decide)).map _)
      (confined_refuse _)

theorem confined_foreignKey : Confined beyond scope depth depth foreignKey := by
  have matching : Confined beyond scope depth depth matchType? := by
    refine confined_consume_ite (by decide) ?_ (confined_pure ())
    exact (confined_consumeAny (by decide)).bind fun _ =>
      confined_ite (confined_pure ()) (confined_refuse _)
  have events : Confined beyond scope depth depth (many eventAction?) := by
    refine confined_many (confined_consume_ite (by decide) ?_ (confined_pure none))
    refine confined_consume_ite (by decide) (confined_referentialAction.map _) ?_
    exact confined_consume_ite (by decide) (confined_referentialAction.map _) (confined_refuse _)
  refine (confined_expect (by decide)).bind fun _ => (confined_expect (by decide)).bind fun _ => ?_
  refine confined_name?.bind fun _ => confined_names.bind fun _ => ?_
  refine (confined_expect (by decide)).bind fun _ => confined_name.bind fun _ => ?_
  exact confined_names.bind fun _ => matching.bind fun _ => events.map _

theorem confined_constraint : Confined beyond scope 0 0 Constraint.grammar := by
  have named : Confined beyond scope 0 0 constraintName? := by
    refine confined_consume_ite (by decide) ?_ (confined_pure none)
    exact confined_seesAny_bind (by decide) (confined_pure none).elsewhere confined_name?
  have kept : Confined beyond scope 0 0 clause :=
    (confined_consumed (confined_skipTo (by decide))).bind fun _ =>
      confined_ite (confined_refuse _) (confined_pure _)
  refine named.bind fun name => confined_sees_ite (by decide) (confined_foreignKey.map _) ?_
  exact confined_settings_bind (confined_ite (confined_refuse _) (kept.map _))

end Constraint

end TableDdl
