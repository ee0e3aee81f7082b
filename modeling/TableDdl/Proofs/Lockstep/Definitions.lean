import TableDdl.Proofs.Grammar.Definitions
import TableDdl.Proofs.Grammar.Texts
import TableDdl.Proofs.Lockstep.Runs

/-!
# Definitions read in lockstep

Literals, columns, indexes, constraints, table options and partitionings are found alike on both
sequences: they become equal when all their texts are folded. None of these grammars looks behind
the token on which it stops. Where one looks at two tokens at once, it has to move past the first
of them in order to succeed.
-/

namespace TableDdl

open Grammar

variable {pace : Lockstep} {scope : Scope}

/-! ## Literals -/

namespace Literal

theorem ofNumber_congr {left right : Token} (kind : left.kind = right.kind)
    (text : left.text = right.text) : ofNumber left = ofNumber right := by
  rw [ofNumber, ofNumber, kind, text]

theorem matches_literal :
    Matches pace scope (mapTexts pace.folding.fold) Literal.grammar Literal.grammar := by
  intro start startRight abreast
  refine matchesAt_look_bind ?_
  have alike := abreast.current
  rw [← alike.kind]
  cases kind : start.current.kind with
  | integer | float =>
      refine matchesAt_advance_bind abreast (isEnd_of_kind kind (by decide)) (matches_pure ?_)
      rw [ofNumber_congr alike.kind (alike.verbatim (by simp [kind]))]
  | quotedString =>
      refine matchesAt_advance_bind abreast (isEnd_of_kind kind (by decide)) (matches_pure ?_)
      exact congrArg string alike.text
  | binaryLiteral =>
      refine matchesAt_advance_bind abreast (isEnd_of_kind kind (by decide)) (matches_pure ?_)
      exact congrArg raw alike.text
  | word =>
      refine matchesAt_advance_bind abreast (isEnd_of_kind kind (by decide)) ?_
      refine matches_sees_ite (matches_bind matches_group fun text textRight same => ?_) ?_
      · refine matches_pure (congrArg raw (pace.folding.append_congr ?_ rfl))
        exact pace.folding.append_congr (pace.folding.append_congr alike.text rfl) same
      · exact matches_pure (congrArg raw alike.text)
  | leftParen =>
      refine matchesAt_bind (matches_group start startRight abreast) fun text textRight same => ?_
      refine matches_pure (congrArg raw (pace.folding.append_congr ?_ rfl))
      exact pace.folding.append_congr rfl same
  | identifier | backtick | rightParen | comma | equals | semicolon | dot | symbol | endOfInput =>
      exact matchesAt_refuse abreast rfl

end Literal

/-! ## Columns -/

namespace Column

theorem matches_width? : Matches pace scope id width? width? := by
  refine matches_consume_ite ?_ (matches_pure rfl)
  refine matches_bind_id (matches_unsigned _) fun width => ?_
  exact matches_expect_bind (matches_pure rfl)

theorem matches_withPrecision {column columnRight : Column}
    (same : column.mapTexts pace.folding.fold = columnRight.mapTexts pace.folding.fold) :
    Matches pace scope (mapTexts pace.folding.fold) column.withPrecision
      columnRight.withPrecision := by
  have closed (width : UInt32) (decimals : Option UInt32) :
      Matches pace scope (mapTexts pace.folding.fold)
        (do
          expect ")" (.expected "closing bracket \")\" after type precision")
          return { column with width := some width, decimals := decimals })
        (do
          expect ")" (.expected "closing bracket \")\" after type precision")
          return { columnRight with width := some width, decimals := decimals }) :=
    matches_expect_bind (matches_pure
      (congrArg (fun view => { view with width := some width, decimals := decimals }) same))
  refine matches_consume_ite ?_ (matches_pure same)
  refine matches_bind_id (matches_unsigned _) fun width => matches_consume_ite ?_ ?_
  · exact matches_bind_id (matches_map (matches_unsigned _) fun _ _ same => congrArg some same)
      fun decimals => closed width decimals
  · exact closed width none

theorem matches_numericFlag? : Matches pace scope id numericFlag? numericFlag? :=
  matches_consume_ite (matches_pure rfl) (matches_consume_ite (matches_pure rfl)
    (matches_consume_ite (matches_pure rfl) (matches_pure rfl)))

theorem mapTexts_foldl_withFlag (change : String → String) (flags : List NumericFlag)
    (column : Column) :
    (flags.foldl withFlag column).mapTexts change =
      flags.foldl withFlag (column.mapTexts change) := by
  induction flags generalizing column with
  | nil => rfl
  | cons flag others ih =>
      rw [List.foldl_cons, List.foldl_cons, ih]
      cases flag <;> rfl

theorem matches_withFlags {column columnRight : Column}
    (same : column.mapTexts pace.folding.fold = columnRight.mapTexts pace.folding.fold) :
    Matches pace scope (mapTexts pace.folding.fold) column.withFlags columnRight.withFlags := by
  refine matches_bind_id (matches_many_id matches_numericFlag?) fun flags => matches_pure ?_
  rw [mapTexts_foldl_withFlag, mapTexts_foldl_withFlag, same]

theorem matches_memberList :
    Matches pace scope (List.map (Literal.mapTexts pace.folding.fold)) memberList memberList :=
  matches_parenthesized Literal.matches_literal

theorem ofName_congr {left right : String} (same : Text.upper left = Text.upper right) :
    TypeFamily.ofName left = TypeFamily.ofName right := by
  rw [TypeFamily.ofName, TypeFamily.ofName, same]

theorem matches_withParameters {column columnRight : Column}
    (same : column.mapTexts pace.folding.fold = columnRight.mapTexts pace.folding.fold) :
    Matches pace scope (mapTexts pace.folding.fold) column.withParameters
      columnRight.withParameters := by
  have typeName := pace.folding.upper _ _ (congrArg Column.typeName same)
  have withWidth (width : Option UInt32) :
      { column with width }.mapTexts pace.folding.fold =
        { columnRight with width }.mapTexts pace.folding.fold :=
    congrArg (fun view => { view with width }) same
  unfold withParameters
  rw [← ofName_congr typeName]
  cases TypeFamily.ofName column.typeName with
  | integer => exact matches_bind_id matches_width? fun width => matches_withFlags (withWidth width)
  | fixedPoint =>
      exact matches_bind (matches_withPrecision same) fun _ _ same => matches_withFlags same
  | temporal | sizedString =>
      exact matches_bind_id matches_width? fun width => matches_pure (withWidth width)
  | enumerated =>
      refine matches_bind matches_memberList fun members membersRight sameMembers => ?_
      refine matches_pure ?_
      exact congrArg₂ (fun view variants => { view with variants := some variants }) same sameMembers
  | plain | other => exact matches_pure same

theorem matches_characterSet? : Matches pace scope id characterSet? characterSet? := by
  have named : Matches pace scope id (do let _ ← nameOrString; return some ())
      (do let _ ← nameOrString; return some ()) :=
    matches_bind matches_nameOrString fun _ _ _ => matches_pure rfl
  exact matches_consume_ite (matches_expect_bind named)
    (matches_consumeAny_ite named (matches_pure rfl))

/-- A string that has to be there. -/
theorem matches_quotedString {β δ : Type} {view : β → δ} {fault : Fault}
    {second secondRight : Token → Grammar β}
    (there : ∀ token tokenRight, token.text = tokenRight.text →
      Matches pace scope view (second token) (secondRight tokenRight)) :
    Matches pace scope view
      (do
        unless ← seesKind .quotedString do refuse fault
        let token ← current
        advance
        second token)
      (do
        unless ← seesKind .quotedString do refuse fault
        let token ← current
        advance
        secondRight token) := by
  refine matches_seesKind_bind (fun start startRight abreast isString => ?_) matches_refuse_bind
  refine matchesAt_take_bind abreast (isEnd_of_kind isString (by decide)) (there _ _ ?_)
  exact abreast.current.verbatim (by simp [isString])

/-- The draft with all texts of its column changed. -/
def Draft.mapTexts (change : String → String) (draft : Draft) : Draft :=
  { draft with column := draft.column.mapTexts change }

theorem matchesAt_readAttribute {draft draftRight : Draft}
    (same : draft.mapTexts pace.folding.fold = draftRight.mapTexts pace.folding.fold)
    {start startRight : Cursor} (abreast : pace.Abreast start startRight)
    (inside : start.current.isEnd = false) (within : pace.Within start.advance) :
    MatchesAt pace scope (Prod.map id (Draft.mapTexts pace.folding.fold)) (readAttribute draft)
      (readAttribute draftRight) start startRight := by
  obtain ⟨column, inReference⟩ := draft
  obtain ⟨columnRight, inReferenceRight⟩ := draftRight
  obtain ⟨sameColumn, rfl⟩ := Draft.mk.inj same
  have drafts {left right : Column} (taken inReference : Bool)
      (same : left.mapTexts pace.folding.fold = right.mapTexts pace.folding.fold) :
      Prod.map id (Draft.mapTexts pace.folding.fold) (taken, ⟨left, inReference⟩) =
        Prod.map id (Draft.mapTexts pace.folding.fold) (taken, ⟨right, inReference⟩) :=
    congrArg (fun column => (taken, Draft.mk column inReference)) same
  have afterUpdate : Matches pace scope (Prod.map id (Draft.mapTexts pace.folding.fold))
      (do
        if ← consume "COMMENT" then
          unless ← seesKind .quotedString do refuse (.expected "quoted string after COMMENT")
          let token ← current
          advance
          return (true, ⟨{ column with comment := some token.text }, inReference⟩)
        else if ← sees "AUTO_INCREMENT" then
          return (false, ⟨{ column with isAutoIncrement := true }, inReference⟩)
        else
          return (false, ⟨column, inReference⟩))
      (do
        if ← consume "COMMENT" then
          unless ← seesKind .quotedString do refuse (.expected "quoted string after COMMENT")
          let token ← current
          advance
          return (true, ⟨{ columnRight with comment := some token.text }, inReference⟩)
        else if ← sees "AUTO_INCREMENT" then
          return (false, ⟨{ columnRight with isAutoIncrement := true }, inReference⟩)
        else
          return (false, ⟨columnRight, inReference⟩)) := by
    refine matches_consume_ite ?_ (matches_sees_ite ?_ ?_)
    · refine matches_quotedString fun token tokenRight text => matches_pure (drafts _ _ ?_)
      rw [text]
      exact congrArg (fun view => { view with
        comment := some (pace.folding.fold tokenRight.text) }) sameColumn
    · exact matches_pure (drafts _ _
        (congrArg (fun view => { view with isAutoIncrement := true }) sameColumn))
    · exact matches_pure (drafts _ _ sameColumn)
  refine matchesAt_look_bind ?_
  rw [← abreast.current.spells]
  cases start.current.spells "REFERENCES" with
  | true => exact matchesAt_pure abreast (drafts _ _ sameColumn)
  | false =>
  refine matchesAt_consume_ite abreast (matches_expect_bind (matches_pure (drafts _ _
    (congrArg (fun view => { view with isNullable := false }) sameColumn)))) ?_
  refine matchesAt_consume_ite abreast (matches_pure (drafts _ _
    (congrArg (fun view => { view with isNullable := true }) sameColumn))) ?_
  refine matchesAt_consume_ite abreast (matches_bind Literal.matches_literal
    fun literal literalRight sameLiteral => matches_pure (drafts _ _ (congrArg₂ (fun view literal =>
      { view with defaultValue := some literal }) sameColumn sameLiteral))) ?_
  refine matchesAt_look_bind (matchesAt_look_bind ?_)
  rw [← abreast.current.spells, ← (abreast.next inside within).spells]
  by_cases both : (!inReference && start.current.spells "ON" && start.next.spells "UPDATE") = true
  · simp only [both, if_true]
    rw [Bool.and_eq_true] at both
    refine matchesAt_advance_bind_of abreast inside fun abreast => ?_
    refine matchesAt_advance_bind abreast (isEnd_of_spells both.2) ?_
    refine matches_bind Literal.matches_literal fun literal literalRight sameLiteral => ?_
    exact matches_pure (drafts _ _ (congrArg₂ (fun view literal =>
      { view with onUpdate := some literal }) sameColumn sameLiteral))
  · simp only [both]
    exact afterUpdate start startRight abreast

theorem matches_withAttributes {column columnRight : Column}
    (same : column.mapTexts pace.folding.fold = columnRight.mapTexts pace.folding.fold) :
    Matches pace scope (mapTexts pace.folding.fold) column.withAttributes
      columnRight.withAttributes := by
  have scans : Matches pace scope (Draft.mapTexts pace.folding.fold)
      (scan [","] (⟨column, false⟩ : Draft) fun depth draft =>
        if depth = 0 then readAttribute draft else return (false, draft))
      (scan [","] (⟨columnRight, false⟩ : Draft) fun depth draft =>
        if depth = 0 then readAttribute draft else return (false, draft)) := by
    refine matches_scan (honest_outside ?_) (visitsMatch_outside ?_) ?_
    · intro draft scope start changed final found
      cases readsAttribute_of_finds found <;> rfl
    · intro draft draftRight same start startRight abreast inside within
      exact matchesAt_readAttribute same abreast inside within
    · exact congrArg (fun column => Draft.mk column false) same
  refine matches_bind scans fun draft draftRight same => matches_pure ?_
  exact congrArg Draft.column same

theorem matches_afterName {name nameRight : String}
    (same : pace.folding.fold name = pace.folding.fold nameRight) :
    Matches pace scope (mapTexts pace.folding.fold) (afterName name) (afterName nameRight) := by
  have message : pace.folding.fold (Fault.expected ("data type of column '" ++ name ++ "'")).message =
      pace.folding.fold (Fault.expected ("data type of column '" ++ nameRight ++ "'")).message := by
    refine pace.folding.append_congr rfl (pace.folding.append_congr ?_ rfl)
    exact pace.folding.append_congr rfl same
  refine matches_keyword?_bind (fun word start startRight abreast isWord => ?_)
    (matches_refuse_of_message message)
  refine matchesAt_advance_bind abreast (isEnd_of_keyword? isWord) ?_
  refine matches_bind (matches_withParameters ?_) fun column columnRight same => ?_
  · simp only [mapTexts, same]
  · exact matches_bind_id (matches_many_id matches_characterSet?) fun _ =>
      matches_withAttributes same

theorem matches_column :
    Matches pace scope (mapTexts pace.folding.fold) Column.grammar Column.grammar :=
  matches_bind matches_name fun _ _ same => matches_afterName same

end Column

/-! ## Indexes -/

namespace Index

theorem matches_indexType? : Matches pace scope id indexType? indexType? := by
  refine matches_consume_ite ?_ (matches_pure rfl)
  refine matches_keyword?_bind (fun word start startRight abreast isWord => ?_) (matches_refuse _)
  exact matchesAt_advance_bind abreast (isEnd_of_keyword? isWord) (matches_pure rfl)

theorem matches_keyPart : Matches pace scope pace.folding.fold keyPart keyPart := by
  refine matches_bind matches_name fun column columnRight same => matches_consume_ite ?_ ?_
  · refine matches_bind_id (matches_unsigned _) fun _ => matches_expect_bind ?_
    exact matches_consumeAny_bind fun _ => matches_pure same
  · exact matches_consumeAny_bind fun _ => matches_pure same

theorem matches_keyParts : Matches pace scope (List.map pace.folding.fold) keyParts keyParts :=
  matches_parenthesized matches_keyPart

theorem matches_afterName {role : Option IndexRole} {name nameRight : Option String}
    (same : name.map pace.folding.fold = nameRight.map pace.folding.fold) :
    Matches pace scope (mapTexts pace.folding.fold)
      (do
        let typeBefore ← indexType?
        let columns ← keyParts
        let indexType ← match typeBefore with
          | some indexType => pure (some indexType)
          | none => indexType?
        skipTo [","]
        return { name, indexType, role, columns : Index })
      (do
        let typeBefore ← indexType?
        let columns ← keyParts
        let indexType ← match typeBefore with
          | some indexType => pure (some indexType)
          | none => indexType?
        skipTo [","]
        return { name := nameRight, indexType, role, columns : Index }) := by
  refine matches_bind_id matches_indexType? fun typeBefore => ?_
  refine matches_bind matches_keyParts fun columns columnsRight sameColumns => ?_
  have afterColumns (indexType : Option String) : Matches pace scope (mapTexts pace.folding.fold)
      (do skipTo [","]; return { name, indexType, role, columns : Index })
      (do skipTo [","]
          return { name := nameRight, indexType, role, columns := columnsRight : Index }) :=
    matches_bind_id (matches_skipTo _) fun _ =>
      matches_pure (by simp only [mapTexts, same, sameColumns])
  cases typeBefore with
  | some indexType => exact afterColumns (some indexType)
  | none => exact matches_bind_id matches_indexType? afterColumns

theorem matches_body (role : Option IndexRole) :
    Matches pace scope (mapTexts pace.folding.fold) (body role) (body role) := by
  refine matches_sees_ite ?_ ?_
  · exact matches_afterName rfl
  · exact matches_bind matches_name? fun _ _ same => matches_afterName same

theorem matches_index :
    Matches pace scope (mapTexts pace.folding.fold) Index.grammar Index.grammar := by
  have afterRole (role : Option IndexRole) : Matches pace scope (mapTexts pace.folding.fold)
      (do
        unless (← consumeAny ["INDEX", "KEY"]) || role.any IndexRole.standsAlone do
          refuse (.expected "keyword INDEX or KEY")
        body role)
      (do
        unless (← consumeAny ["INDEX", "KEY"]) || role.any IndexRole.standsAlone do
          refuse (.expected "keyword INDEX or KEY")
        body role) :=
    matches_consumeAny_bind fun _ => matches_ite (matches_body role) matches_refuse_bind
  refine matches_keyword?_bind (fun word start startRight abreast isWord => ?_) (afterRole none)
  cases role : IndexRole.ofKeyword? word with
  | none =>
      simp only [Option.bind_some, role]
      exact afterRole none start startRight abreast
  | some role' =>
      simp only [Option.bind_some, role]
      exact matchesAt_advance_bind abreast (isEnd_of_keyword? isWord) (afterRole (some role'))

end Index

/-! ## Constraints -/

namespace Constraint

theorem matches_referentialAction :
    Matches pace scope id referentialAction referentialAction := by
  refine matches_consume_ite (matches_pure rfl) (matches_consume_ite (matches_pure rfl)
    (matches_consume_ite ?_ (matches_consume_ite ?_ (matches_refuse _))))
  · exact matches_consume_ite (matches_pure rfl) (matches_consume_ite (matches_pure rfl)
      (matches_refuse _))
  · exact matches_expect_bind (matches_pure rfl)

theorem matches_eventAction? : Matches pace scope id eventAction? eventAction? := by
  refine matches_consume_ite (matches_consume_ite ?_ (matches_consume_ite ?_ (matches_refuse _)))
    (matches_pure rfl)
  · exact matches_bind_id matches_referentialAction fun _ => matches_pure rfl
  · exact matches_bind_id matches_referentialAction fun _ => matches_pure rfl

theorem matches_matchType? : Matches pace scope id matchType? matchType? :=
  matches_consume_ite (matches_consumeAny_ite (matches_pure rfl) (matches_refuse _))
    (matches_pure rfl)

theorem matches_foreignKey :
    Matches pace scope (ForeignKey.mapTexts pace.folding.fold) foreignKey foreignKey := by
  refine matches_expect_bind (matches_expect_bind ?_)
  refine matches_bind matches_name? fun indexName indexNameRight sameIndexName => ?_
  refine matches_bind matches_names fun columns columnsRight sameColumns => ?_
  refine matches_expect_bind (matches_bind matches_name fun table tableRight sameTable => ?_)
  refine matches_bind matches_names fun referenced referencedRight sameReferenced => ?_
  refine matches_bind_id matches_matchType? fun _ => ?_
  refine matches_bind_id (matches_many_id matches_eventAction?) fun actions => matches_pure ?_
  simp only [ForeignKey.mapTexts, sameIndexName, sameColumns, sameTable, sameReferenced]

theorem matches_clause : Matches pace scope pace.folding.fold clause clause := by
  refine matches_bind (matches_consumed (matches_skipTo _)) fun tokens tokensRight same => ?_
  dsimp only at same ⊢
  rw [← pace.folding.isEmpty_eq same]
  exact matches_ite (matches_refuse _) (matches_pure same)

theorem matches_constraintName? :
    Matches pace scope (Option.map pace.folding.fold) constraintName? constraintName? :=
  matches_consume_ite (matches_seesAny_bind fun _ => matches_ite (matches_pure rfl) matches_name?)
    (matches_pure rfl)

theorem matches_constraint :
    Matches pace scope (mapTexts pace.folding.fold) Constraint.grammar Constraint.grammar := by
  refine matches_bind matches_constraintName? fun name nameRight sameName => ?_
  refine matches_sees_ite ?_ (matches_settings_bind (matches_ite (matches_refuse _) ?_))
  · refine matches_bind matches_foreignKey fun key keyRight sameKey => matches_pure ?_
    simp only [mapTexts, ConstraintBody.mapTexts, sameName, sameKey]
  · refine matches_bind matches_clause fun clause clauseRight sameClause => matches_pure ?_
    simp only [mapTexts, ConstraintBody.mapTexts, sameName, sameClause]

end Constraint

/-! ## Table options -/

namespace TableOption

theorem matches_scalar :
    Matches pace scope (Literal.mapTexts pace.folding.fold) scalar scalar := by
  refine matches_consume_bind fun _ start startRight abreast => matchesAt_look_bind ?_
  have alike := abreast.current
  rw [← alike.kind]
  cases kind : start.current.kind with
  | integer | float =>
      refine matchesAt_advance_bind abreast (isEnd_of_kind kind (by decide)) (matches_pure ?_)
      rw [Literal.ofNumber_congr alike.kind (alike.verbatim (by simp [kind]))]
  | word =>
      refine matchesAt_advance_bind abreast (isEnd_of_kind kind (by decide)) (matches_pure ?_)
      exact congrArg Literal.raw alike.text
  | quotedString =>
      refine matchesAt_advance_bind abreast (isEnd_of_kind kind (by decide)) (matches_pure ?_)
      exact congrArg Literal.string alike.text
  | identifier | binaryLiteral | backtick | leftParen | rightParen | comma | equals | semicolon
  | dot | symbol | endOfInput =>
      exact matchesAt_refuse abreast rfl

theorem matches_nameValue :
    Matches pace scope (TableOptionValue.mapTexts pace.folding.fold) nameValue nameValue :=
  matches_consume_bind fun _ => matches_bind matches_nameOrString fun _ _ same =>
    matches_pure (congrArg (fun text => TableOptionValue.literal (.raw text)) same)

theorem matches_storage? : Matches pace scope id storage? storage? := by
  refine matches_consume_ite ?_ (matches_pure rfl)
  intro start startRight abreast
  refine matchesAt_look_bind ?_
  rw [← abreast.current.spells]
  cases spelled : ["DISK", "MEMORY"].any start.current.spells with
  | false => exact matches_refuse_bind start startRight abreast
  | true =>
      obtain ⟨text, -, spelled⟩ := List.any_eq_true.mp spelled
      refine matchesAt_take_bind abreast (isEnd_of_spells spelled) (matches_pure ?_)
      rw [abreast.current.upper]

theorem matches_tablespaceValue :
    Matches pace scope (TableOptionValue.mapTexts pace.folding.fold) tablespaceValue
      tablespaceValue := by
  refine matches_consume_bind fun _ => matches_bind matches_name fun name nameRight same => ?_
  refine matches_bind_id matches_storage? fun storage => matches_pure ?_
  simp only [TableOptionValue.mapTexts, same]

theorem matches_tablesValue :
    Matches pace scope (TableOptionValue.mapTexts pace.folding.fold) tablesValue tablesValue :=
  matches_consume_bind fun _ => matches_bind matches_names fun _ _ same =>
    matches_pure (congrArg TableOptionValue.tables same)

theorem matches_keyText : Matches pace scope id keyText keyText := by
  refine matches_keyword?_bind (fun word start startRight abreast isWord => ?_) (matches_refuse _)
  dsimp only
  split
  · refine matchesAt_advance_bind abreast (isEnd_of_keyword? isWord) ?_
    refine matches_keyword?_bind (fun next start startRight abreast isNext => ?_)
      (matches_refuse _)
    exact matchesAt_advance_bind abreast (isEnd_of_keyword? isNext) (matches_pure rfl)
  · exact matchesAt_advance_bind abreast (isEnd_of_keyword? isWord) (matches_pure rfl)

theorem matches_tableOption :
    Matches pace scope (mapTexts pace.folding.fold) TableOption.grammar TableOption.grammar := by
  have valued {key : String} {value : Grammar TableOptionValue}
      (here : Matches pace scope (TableOptionValue.mapTexts pace.folding.fold) value value) :
      Matches pace scope (mapTexts pace.folding.fold) (do return ⟨key, ← value⟩)
        (do return ⟨key, ← value⟩) :=
    matches_bind here fun _ _ same => matches_pure (by simp only [mapTexts, same])
  refine matches_bind_id matches_keyText fun key => ?_
  refine matches_ite (matches_expect_bind (valued matches_nameValue)) ?_
  refine matches_ite (valued matches_nameValue) ?_
  refine matches_ite (valued matches_tablespaceValue) ?_
  refine matches_ite (valued matches_tablesValue) (matches_ite ?_ (matches_refuse _))
  refine matches_bind matches_scalar fun value valueRight same => matches_pure ?_
  simp only [mapTexts, TableOptionValue.mapTexts, same]

theorem startsAt_congr {folding : Folding} {token tokenRight next nextRight : Token}
    (alike : Token.Alike folding token tokenRight) (alikeNext : Token.Alike folding next nextRight) :
    startsAt token next = startsAt tokenRight nextRight := by
  rw [startsAt, startsAt, alike.keyword?, alikeNext.spells]

/-- Whether a further option follows is seen at the next token, too. -/
theorem matches_options (sameNext : ∀ start startRight, pace.Abreast start startRight →
      Token.Alike pace.folding start.next startRight.next) :
    Matches pace scope (List.map (mapTexts pace.folding.fold)) options options := by
  refine matches_many (matches_look_bind (fun start startRight abreast => ?_) fun starts => ?_)
  · exact startsAt_congr abreast.current (sameNext start startRight abreast)
  · refine matches_ite ?_ (matches_pure rfl)
    refine matches_bind matches_tableOption fun option optionRight same => ?_
    exact matches_consume_bind fun _ => matches_pure (congrArg some same)

end TableOption

end TableDdl
