import TableDdl.Proofs.Clauses.Steps

/-!
# Clauses before a boundary

Every part of a clause is clausal, or has something to follow it that is. So a clause that is found
where nothing follows it is found before a comma, a semicolon or a partitioning, and the other way
round.
-/

namespace TableDdl

open Grammar
open Cursor (Shares)

variable {rest restRight : List Token} {scope : Scope}

/-! ## Names and literals -/

namespace Grammar

section

variable (boundary : Boundary scope.stops rest restRight)
include boundary

theorem clausal_quotedName : Clausal rest restRight scope (do
    unless ← seesKind .identifier do refuse (.expected "identifier between backticks")
    let token ← current
    advance
    expect "\x60" (.expected "closing backtick")
    return some token.text) := by
  refine clausal_seesKind_bind boundary (by decide) ?_ clausal_refuse_bind
  refine clausalInside_current_bind (fun _ => rfl) fun token => clausalInside_advance_bind ?_
  exact (clausal_expect boundary (by decide)).map _

/-- Before the boundary, a name that may be missing is found or missing from both cursors. -/
theorem share_name? {left right final : Cursor} {value : Option String}
    (shares : Shares rest restRight left right) (before : rest.length < left.remaining)
    (found : name?.Finds scope left value final) (bound : rest.length ≤ final.remaining) :
    left.Lands final ∧ ∃ finalRight, name?.Finds scope right value finalRight ∧
      Shares rest restRight final finalRight := by
  have inner : Token.isInner "\x60" = true := by decide
  have taken : ClausalInside rest restRight scope (do
      let token ← current
      advance
      return some token.text) :=
    clausalInside_current_bind (fun _ => rfl) fun _ => clausalInside_advance_bind (clausal_pure _)
  simp only [name?, finds_consume_ite_iff, shares.spells boundary inner] at found ⊢
  split at found
  · rename_i quoted
    obtain ⟨lands, finalRight, foundRight, last⟩ :=
      clausal_quotedName boundary _ _ _ _ (shares.advance before) found bound
    refine ⟨?_, finalRight, ?_, last⟩
    · have first : left.Lands left.advance :=
        .advance (Token.not_separates_of_spells inner quoted)
      exact first.trans (.advance left) found.reaches lands
    · rwa [if_pos quoted]
  · rename_i unquoted
    simp only [if_neg unquoted]
    simp only [seesKind, atStop, finds_look_bind_iff, shares.kind before, shares.stopAt before]
      at found ⊢
    split at found
    · rename_i bare
      simp only [if_pos bare]
      refine taken _ _ _ _ shares before ?_ found bound
      simp only [Bool.and_eq_true, decide_eq_true_eq] at bare
      exact Token.not_separates_of_kind (by simp [bare.1])
    · rename_i noName
      simp only [if_neg noName]
      exact clausal_pure none _ _ _ _ shares found bound

theorem clausal_name : Clausal rest restRight scope name := by
  intro left right value final shares found bound
  have before : rest.length < left.remaining :=
    Nat.lt_of_le_of_lt bound (progresses_name _ _ _ _ found)
  obtain ⟨name, middle, reading, kept⟩ := finds_bind_iff.mp found
  cases name with
  | none => exact (finds_refuse_iff.mp kept).elim
  | some name =>
      obtain ⟨rfl, rfl⟩ := finds_pure_iff.mp kept
      obtain ⟨lands, finalRight, readingRight, last⟩ :=
        share_name? boundary shares before reading bound
      exact ⟨lands, finalRight, finds_bind_iff.mpr
        ⟨some name, finalRight, readingRight, finds_pure_iff.mpr ⟨rfl, rfl⟩⟩, last⟩

theorem clausal_nameOrString : Clausal rest restRight scope nameOrString := by
  refine clausal_seesKind_bind boundary (by decide) ?_ (clausal_name boundary)
  refine clausalInside_current_bind (fun _ => rfl) fun token => ?_
  exact clausalInside_advance_bind (clausal_pure _)

end

theorem progresses_group : Progresses group := by
  intro scope start text final found
  obtain ⟨opening, inner, closing, ahead, -⟩ := exists_of_finds_group found
  simp only [Cursor.remaining, ahead, List.length_cons, List.length_append]
  omega

theorem progresses_literal : Progresses Literal.grammar := by
  intro scope start literal final found
  simp only [Literal.grammar, current, finds_look_bind_iff] at found
  have moved {next : Unit → Grammar Literal} {kind : Token.Kind}
      (isKind : start.current.kind = kind) (notEnd : kind ≠ .endOfInput)
      (found : (advance >>= next).Finds scope start literal final) :
      final.remaining < start.remaining := by
    rw [finds_advance_bind_iff] at found
    exact Nat.lt_of_le_of_lt found.remaining_le
      (remaining_advance_lt (isEnd_of_kind isKind notEnd))
  cases kind : start.current.kind with
  | integer | float | quotedString | binaryLiteral | word =>
      simp only [kind] at found
      exact moved kind (by decide) found
  | leftParen =>
      simp only [kind] at found
      exact progresses_group.bind _ _ _ _ _ found
  | identifier | backtick | rightParen | comma | equals | semicolon | dot | symbol | endOfInput =>
      simp [kind] at found

theorem clausal_literal (boundary : Boundary scope.stops rest restRight) :
    Clausal rest restRight scope Literal.grammar := by
  refine clausal_current_bind progresses_literal (fun _ => rfl)
    (fun start value final separates found => ?_) fun token => ?_
  · rw [current, finds_look_bind_iff] at found
    rcases separates.kind with isComma | isSemicolon
    · simp [isComma] at found
    · simp [isSemicolon] at found
  cases token.kind with
  | integer | float | quotedString | binaryLiteral =>
      exact clausalInside_advance_bind (clausal_pure _)
  | word =>
      refine clausalInside_advance_bind (clausal_sees_bind boundary (by decide) fun called => ?_)
      exact clausal_ite (clausal_group.map _) (clausal_pure _)
  | leftParen => exact (clausal_group.map _).inside
  | identifier | backtick | rightParen | comma | equals | semicolon | dot | symbol | endOfInput =>
      exact (clausal_refuse _).inside

end Grammar

/-! ## Columns -/

namespace Column

section

variable (boundary : Boundary scope.stops rest restRight)
include boundary

theorem clausal_width? : Clausal rest restRight scope width? := by
  refine clausal_consume_ite boundary (by decide) ?_ (clausal_pure none)
  refine clausal_after 0 (fun _ _ => matches_unsigned _) (fun _ => (progresses_expect _ _).bind _)
    fun _ => ?_
  exact (clausal_expect boundary (by decide)).map _

theorem clausal_withPrecision (column : Column) :
    Clausal rest restRight scope column.withPrecision := by
  have closing {change : Option UInt32 → Column} (decimals : Option UInt32) :
      Clausal rest restRight scope (do
        expect ")" (.expected "closing bracket \")\" after type precision")
        return change decimals) := (clausal_expect boundary (by decide)).map _
  have closes {change : Option UInt32 → Column} (decimals : Option UInt32) : Progresses (do
      expect ")" (.expected "closing bracket \")\" after type precision")
      return change decimals) := (progresses_expect _ _).bind _
  refine clausal_consume_ite boundary (by decide) ?_ (clausal_pure column)
  have decimals (width : UInt32) : Progresses (do
      let decimals ← if ← consume "," then some <$> unsigned "decimal digits" else pure none
      expect ")" (.expected "closing bracket \")\" after type precision")
      return { column with width := some width, decimals := decimals : Column }) :=
    progresses_after fun _ => progresses_ite (progresses_after closes) (progresses_after closes)
  refine clausal_after 0 (fun _ _ => matches_unsigned _) decimals fun width => ?_
  refine clausal_after 0 (fun _ _ => matches_consume _)
    (fun _ => progresses_ite (progresses_after closes) (progresses_after closes)) fun _ =>
      clausal_ite ?_ ?_
  · refine clausal_after 0 (fun behind behindRight => ?_) closes closing
    exact matches_bind_id (matches_unsigned _) fun _ => matches_pure rfl
  · exact (clausal_pure none).bind closing

theorem clausal_withFlags (column : Column) : Clausal rest restRight scope column.withFlags := by
  refine (clausal_many ?_).map _
  refine clausal_consume_ite boundary (by decide) (clausal_pure _) ?_
  refine clausal_consume_ite boundary (by decide) (clausal_pure _) ?_
  exact clausal_consume_ite boundary (by decide) (clausal_pure _) (clausal_pure none)

theorem clausal_withParameters (column : Column) :
    Clausal rest restRight scope column.withParameters := by
  unfold withParameters
  cases TypeFamily.ofName column.typeName with
  | integer => exact (clausal_width? boundary).bind fun _ => clausal_withFlags boundary _
  | fixedPoint =>
      exact (clausal_withPrecision boundary column).bind fun _ => clausal_withFlags boundary _
  | temporal | sizedString => exact (clausal_width? boundary).map _
  | enumerated =>
      refine (clausal_parenthesized boundary fun behind behindRight => ?_).map _
      have literals : Matches ⟨.exact, behind, behindRight, 0⟩ scope (Literal.mapTexts id)
          Literal.grammar Literal.grammar := Literal.matches_literal
      rwa [Literal.mapTexts_id] at literals
  | plain | other => exact clausal_pure column

theorem clausal_characterSet? : Clausal rest restRight scope characterSet? := by
  refine clausal_consume_ite boundary (by decide) ?_ ?_
  · exact (clausal_expect boundary (by decide)).bind fun _ => (clausal_nameOrString boundary).map _
  · exact (clausal_consumeAny boundary (by decide)).bind fun _ =>
      clausal_ite ((clausal_nameOrString boundary).map _) (clausal_pure none)

theorem clausal_readAttribute (draft : Draft) :
    Clausal rest restRight scope (readAttribute draft) := by
  have literal {change : Literal → Draft} :
      Clausal rest restRight scope (do return (true, change (← Literal.grammar))) :=
    (clausal_literal boundary).map _
  refine clausal_sees_bind boundary (by decide) fun _ => clausal_ite (clausal_pure _) ?_
  refine clausal_consume_ite boundary (by decide) ((clausal_expect boundary (by decide)).map _) ?_
  refine clausal_consume_ite boundary (by decide) (clausal_pure _) ?_
  refine clausal_consume_ite boundary (by decide) literal ?_
  refine clausal_twoWords_ite boundary (by decide) (by decide) literal ?_
  refine clausal_consume_ite boundary (by decide) ?_ ?_
  · refine clausal_seesKind_bind boundary (by decide) ?_ clausal_refuse_bind
    refine clausalInside_current_bind (fun _ => rfl) fun token => ?_
    exact clausalInside_advance_bind (clausal_pure _)
  · exact clausal_sees_bind boundary (by decide) fun _ =>
      clausal_ite (clausal_pure _) (clausal_pure _)

theorem clausal_afterName (name : String) : Clausal rest restRight scope (afterName name) := by
  refine clausal_keyword?_bind (progresses_keyword?_bind (fun word => ⟨_, rfl⟩)
    (progresses_refuse _)) (fun word => ?_) ⟨_, rfl⟩
  refine clausalInside_advance_bind ((clausal_withParameters boundary _).bind fun column => ?_)
  refine (clausal_many (clausal_characterSet? boundary)).bind fun _ => ?_
  refine (clausal_scan boundary honest_attributes fun depth draft => ?_).map _
  exact clausal_ite (clausal_readAttribute boundary draft) (clausal_pure _)

end

end Column

/-! ## Indexes -/

namespace Index

section

variable (boundary : Boundary scope.stops rest restRight)
include boundary

theorem clausal_indexType? : Clausal rest restRight scope indexType? := by
  refine clausal_consume_ite boundary (by decide) ?_ (clausal_pure none)
  refine clausal_keyword?_bind (progresses_keyword?_bind (fun word => ⟨_, rfl⟩)
    (progresses_refuse _)) (fun word => ?_) ⟨_, rfl⟩
  exact clausalInside_advance_bind (clausal_pure _)

theorem clausal_afterName (role : Option IndexRole) (name : Option String) :
    Clausal rest restRight scope (afterName role name) := by
  have ending (columns : List String) (indexType : Option String) :
      Clausal rest restRight scope (do
        skipTo [","]
        return { name, indexType, role, columns : Index }) := (clausal_skipTo boundary).map _
  refine (clausal_indexType? boundary).bind fun typeBefore => ?_
  refine (clausal_parenthesized boundary fun _ _ => matches_keyPart).bind fun columns => ?_
  cases typeBefore with
  | some indexType => exact ending columns (some indexType)
  | none => exact (clausal_indexType? boundary).bind (ending columns)

theorem clausal_body (role : Option IndexRole) : Clausal rest restRight scope (body role) := by
  refine clausal_sees_bind boundary (by decide) fun _ => clausal_ite ?_ ?_
  · exact (clausal_pure none).bind (clausal_afterName boundary role)
  · refine clausal_after 0 (fun behind behindRight => ?_) (progresses_afterName role)
      (clausal_afterName boundary role)
    have names : Matches ⟨.exact, behind, behindRight, 0⟩ scope (Option.map id) name? name? :=
      matches_name?
    rwa [Option.map_id_fun] at names

end

end Index

/-! ## Clauses -/

namespace AlterOption

/-- Reads what follows the action of a clause. -/
def afterAction (tableOptions : List TableOption) (action : AlterAction) : Grammar AlterOption := do
  if action = .rename && !(← seesAny renameWords) then
    return ⟨.table, action, .name (← Grammar.name), tableOptions⟩
  else
    let (target, role) ← readTarget action
    return ⟨target, action, ← readPayload action target role, tableOptions⟩

/-- What is removed is told by a word. -/
theorem exists_keyword_of_finds_readTarget_drop {start final : Cursor}
    {value : AlterTarget × Option IndexRole}
    (found : (readTarget .drop).Finds scope start value final) :
    (∃ word, start.current.keyword? = some word) ∧ start.advance.Reaches final := by
  simp only [readTarget, current, finds_look_bind_iff] at found
  rw [if_neg (by simp), sees, finds_look_bind_iff, if_neg (by simp)] at found
  cases target : start.current.keyword?.bind TargetWord.ofWord? with
  | none =>
      rw [target] at found
      exact (finds_refuse_iff.mp found).elim
  | some target' =>
      obtain ⟨word, isWord, -⟩ := Option.bind_eq_some_iff.mp target
      rw [target, finds_advance_bind_iff] at found
      exact ⟨⟨word, isWord⟩, found.reaches⟩

theorem progresses_readTarget_drop : Progresses (readTarget .drop) := by
  intro scope start value final found
  obtain ⟨⟨word, isWord⟩, reaches⟩ := exists_keyword_of_finds_readTarget_drop found
  exact Nat.lt_of_le_of_lt reaches.remaining_le (remaining_advance_lt (isEnd_of_keyword? isWord))

theorem progresses_readPayload {action : AlterAction} (noDrop : action ≠ .drop)
    (target : AlterTarget) (role : Option IndexRole) :
    Progresses (readPayload action target role) := by
  have column : Progresses positionedColumn := progresses_name.bind _
  unfold readPayload
  split
  · refine progresses_after fun _ => progresses_ite ?_ (column.bind _)
    exact (progresses_parenthesized _ _ _).bind _
  · refine Progresses.bind (progresses_after fun _ => progresses_ite ?_ ?_) _
    · exact progresses_after fun _ => Index.progresses_afterName role _
    · exact progresses_after fun _ => Index.progresses_afterName role _
  · exact absurd rfl noDrop
  · exact absurd rfl noDrop
  · exact Rename.progresses_rename.bind _
  · exact Rename.progresses_rename.bind _
  · exact progresses_name.bind _
  · exact progresses_name.bind _
  · exact column.bind _
  · exact progresses_refuse _

theorem progresses_afterAction (tableOptions : List TableOption) (action : AlterAction) :
    Progresses (afterAction tableOptions action) := by
  refine progresses_after fun _ => progresses_ite (progresses_name.bind _) ?_
  by_cases drop : action = .drop
  · subst drop
    exact progresses_readTarget_drop.bind _
  · exact progresses_after fun _ => (progresses_readPayload drop _ _).bind _

theorem clausal_readAction : Clausal rest restRight scope readAction := by
  refine clausal_keyword?_bind progresses_readAction (fun word => ?_) ⟨_, rfl⟩
  split
  · exact clausalInside_advance_bind (clausal_pure _)
  · exact (clausal_refuse _).inside

section

variable (boundary : Boundary scope.stops rest restRight)
include boundary

theorem clausal_readTarget_drop : Clausal rest restRight scope (readTarget .drop) := by
  have role (role : IndexRole) : Clausal rest restRight scope (afterRole role) := by
    cases role with
    | primary | foreign => exact clausal_expect boundary (by decide)
    | fulltext | spatial =>
        exact (clausal_consumeAny boundary (by decide)).bind fun _ =>
          clausal_ite (clausal_pure ()) (clausal_refuse _)
    | unique => exact (clausal_consumeAny boundary (by decide)).map _
  refine clausal_current_bind progresses_readTarget_drop (fun _ => rfl)
    (fun start value final separates found => ?_) fun token => ?_
  · obtain ⟨⟨word, isWord⟩, -⟩ := exists_keyword_of_finds_readTarget_drop found
    rcases separates.kind with isComma | isSemicolon
    · simp [Token.keyword?, isComma] at isWord
    · simp [Token.keyword?, isSemicolon] at isWord
  · dsimp only
    rw [if_neg (by simp)]
    refine clausalInside_sees_bind boundary (by decide) fun seen => ?_
    rw [if_neg (by simp)]
    split
    · exact (clausal_refuse _).inside
    refine clausalInside_advance_bind ?_
    split
    · exact clausal_pure _
    · exact clausal_pure _
    · exact clausal_pure _
    · exact (role _).map _
    · exact clausal_refuse _
    · exact clausal_refuse _

theorem clausal_positionedColumn : Clausal rest restRight scope positionedColumn := by
  refine (clausal_name boundary).bind fun name => ?_
  refine (clausal_withStops ?_).bind fun column => ?_
  · exact Column.clausal_afterName (boundary.adding ["FIRST", "AFTER"]) name
  refine clausal_consume_ite boundary (by decide) (clausal_pure _) ?_
  exact clausal_consume_ite boundary (by decide) ((clausal_name boundary).map _)
    (clausal_pure column)

theorem clausal_readPayload (action : AlterAction) (target : AlterTarget)
    (role : Option IndexRole) : Clausal rest restRight scope (readPayload action target role) := by
  have dropped : Clausal rest restRight scope (do
      return AlterPayload.name (← droppedName role)) := by
    refine Clausal.map ?_ _
    unfold droppedName
    split
    · exact clausal_pure _
    · exact (clausal_name boundary).map _
    · exact clausal_name boundary
  have renamed : Clausal rest restRight scope (do
      return AlterPayload.rename (← Rename.grammar)) := by
    refine Clausal.map ((clausal_name boundary).bind fun _ => ?_) _
    exact (clausal_expect boundary (by decide)).bind fun _ => (clausal_name boundary).map _
  have column : Clausal rest restRight scope (do return AlterPayload.column (← positionedColumn)) :=
    (clausal_positionedColumn boundary).map _
  unfold readPayload
  split
  · refine clausal_sees_bind boundary (by decide) fun _ => clausal_ite ?_ column
    refine Clausal.map (clausal_parenthesized boundary fun behind behindRight => ?_) _
    have columns : Matches ⟨.exact, behind, behindRight, 0⟩ scope (Column.mapTexts id)
        positionedColumn positionedColumn := matches_positionedColumn
    rwa [Column.mapTexts_id] at columns
  · exact (Index.clausal_body boundary role).map _
  · exact dropped
  · exact dropped
  · exact renamed
  · exact renamed
  · exact (clausal_name boundary).map _
  · exact (clausal_name boundary).bind fun _ => (clausal_positionedColumn boundary).map _
  · exact column
  · exact clausal_refuse _

theorem clausal_afterAction (tableOptions : List TableOption) (action : AlterAction) :
    Clausal rest restRight scope (afterAction tableOptions action) := by
  refine clausal_seesAny_bind boundary (by decide) fun _ => clausal_ite ?_ ?_
  · exact (clausal_name boundary).map _
  by_cases drop : action = .drop
  · subst drop
    exact (clausal_readTarget_drop boundary).bind fun _ =>
      (clausal_readPayload boundary _ _ _).map _
  · refine clausal_after 0 (fun _ _ => matches_readTarget action)
      (fun _ => (progresses_readPayload drop _ _).bind _) fun _ => ?_
    exact (clausal_readPayload boundary _ _ _).map _

/-- A clause is read in the same way whatever lies behind it. -/
theorem clausal_alterOption : Clausal rest restRight scope AlterOption.grammar := by
  refine clausal_after 1 (fun behind behindRight => ?_) (fun tableOptions => ?_)
    fun tableOptions => ?_
  · have options : Matches (Lockstep.further ⟨.exact, behind, behindRight, 0⟩) scope
        (List.map (TableOption.mapTexts id)) TableOption.options TableOption.options :=
      TableOption.matches_options fun _ _ abreast => abreast.next_of_further
    rwa [TableOption.mapTexts_id, List.map_id_fun] at options
  · intro scope start option final found
    obtain ⟨action, middle, reading, after⟩ := finds_bind_iff.mp found
    have first := progresses_readAction _ _ _ _ reading
    have second := progresses_afterAction tableOptions action _ _ _ _ after
    omega
  · exact clausal_readAction.bind (clausal_afterAction boundary tableOptions)

end

end AlterOption

end TableDdl
