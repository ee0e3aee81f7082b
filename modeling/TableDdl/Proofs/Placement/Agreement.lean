import TableDdl.Proofs.Clauses.Definitions
import TableDdl.Proofs.Nesting.Scans
import TableDdl.Proofs.Order.Attributes
import TableDdl.Proofs.RoundTrip.Continuations
import TableDdl.Proofs.Shape.Alterations

/-!
# Added definitions are definitions

What is added by a clause is defined there as it is in a table. An index is read in two ways that
accept the same role words in front of it. A column is read with two more stop words in a clause;
unless it ends before one of them, it would have ended at the same token without them.
-/

namespace TableDdl

open Grammar

namespace Grammar

variable {α β σ : Type} {words : List String} {scope : Scope}

/-! ## Fewer stop words -/

/-- What the grammar finds under further stop words it finds without them, too. -/
def Loosens (words : List String) (scope : Scope) (grammar : Grammar α) : Prop :=
  ∀ start value final,
    grammar.Finds { scope with stops := scope.stops.adding words } start value final →
      grammar.Finds scope start value final

theorem loosens_pure (value : α) : Loosens words scope (pure value : Grammar α) :=
  fun _ _ _ found => found

theorem loosens_refuse (fault : Fault) : Loosens words scope (refuse fault : Grammar α) :=
  fun _ _ _ found => found

theorem loosens_advance : Loosens words scope advance := fun _ _ _ found => found

theorem loosens_group : Loosens words scope group := fun _ _ _ found => found

/-- A look at the cursor does not see the stop words. -/
theorem loosens_look (view : Cursor → α) : Loosens words scope (look fun _ cursor => view cursor) :=
  fun _ _ _ found => found

theorem Loosens.bind {first : Grammar α} {second : α → Grammar β}
    (here : Loosens words scope first) (there : ∀ value, Loosens words scope (second value)) :
    Loosens words scope (first >>= second) := by
  intro start value final found
  obtain ⟨seen, middle, before, after⟩ := finds_bind_iff.mp found
  exact finds_bind_iff.mpr ⟨seen, middle, here _ _ _ before, there seen _ _ _ after⟩

theorem loosens_ite {condition : Prop} [Decidable condition] {left right : Grammar α}
    (ifTrue : Loosens words scope left) (ifFalse : Loosens words scope right) :
    Loosens words scope (if condition then left else right) := by
  split
  · exact ifTrue
  · exact ifFalse

theorem loosens_consume (text : String) : Loosens words scope (consume text) :=
  (loosens_look _).bind fun _ =>
    loosens_ite (loosens_advance.bind fun _ => loosens_pure true) (loosens_pure false)

theorem loosens_consumeAny (texts : List String) : Loosens words scope (consumeAny texts) :=
  (loosens_look _).bind fun _ =>
    loosens_ite (loosens_advance.bind fun _ => loosens_pure true) (loosens_pure false)

theorem loosens_expect (text : String) (fault : Fault) :
    Loosens words scope (expect text fault) :=
  (loosens_consume text).bind fun _ => loosens_ite (loosens_pure ()) (loosens_refuse fault)

theorem loosens_many {item? : Grammar (Option α)} (turn : Loosens words scope item?) :
    Loosens words scope (many item?) := by
  intro start values final found
  rw [finds_many_iff] at found ⊢
  induction found with
  | done none => exact .done (turn _ _ _ none)
  | more found progress after ih => exact .more (turn _ _ _ found) progress ih
  | stuck found standstill => exact .stuck (turn _ _ _ found) standstill

theorem loosens_parenthesized {opening closing : Fault} {item : Grammar α}
    (here : Loosens words scope item) :
    Loosens words scope (parenthesized opening closing item) := by
  have further : Loosens words scope (do
      if ← consume "," then return some (← item) else return none) :=
    (loosens_consume ",").bind fun _ =>
      loosens_ite (here.bind fun _ => loosens_pure _) (loosens_pure none)
  have items : Loosens words scope (commaSeparated item) :=
    here.bind fun _ => (loosens_many further).bind fun _ => loosens_pure _
  exact (loosens_expect _ _).bind fun _ => items.bind fun _ =>
    (loosens_expect _ _).bind fun _ => loosens_pure _

/-- What reads a token of a kind that has to be there. -/
theorem loosens_ofKind {kind : Token.Kind} {fault : Fault} {following : Grammar α}
    (there : Loosens words scope following) :
    Loosens words scope (do
      unless ← seesKind kind do refuse fault
      following) :=
  (loosens_look _).bind fun _ => loosens_ite there ((loosens_refuse fault).bind fun _ => there)

/-! ## Names and literals -/

/-- A name that is no stop word is none of fewer stop words. -/
theorem loosens_name : Loosens words scope name := by
  intro start value final found
  obtain ⟨name, middle, reading, kept⟩ := finds_bind_iff.mp found
  cases name with
  | none => exact (finds_refuse_iff.mp kept).elim
  | some name =>
      refine finds_bind_iff.mpr ⟨some name, middle, ?_, kept⟩
      simp only [name?, finds_consume_ite_iff] at reading ⊢
      split at reading
      · rename_i quoted
        rw [if_pos quoted]
        exact loosens_ofKind ((loosens_look _).bind fun _ => loosens_advance.bind fun _ =>
          (loosens_expect _ _).bind fun _ => loosens_pure _) _ _ _ reading
      · rename_i unquoted
        rw [if_neg unquoted]
        simp only [seesKind, atStop, finds_look_bind_iff] at reading ⊢
        split at reading
        · rename_i bare
          have noStop : (decide (start.current.kind = .word) &&
              !scope.stops.stopAt start.current) = true := by
            simp only [Bool.and_eq_true, Bool.not_eq_true', ← Bool.not_eq_true,
              Stops.stopAt_adding, not_or] at bare ⊢
            exact ⟨bare.1, bare.2.2⟩
          rwa [if_pos noStop]
        · simp at reading

theorem loosens_nameOrString : Loosens words scope nameOrString :=
  (loosens_look _).bind fun _ =>
    loosens_ite ((loosens_look _).bind fun _ => loosens_advance.bind fun _ => loosens_pure _)
      loosens_name

theorem loosens_unsigned (what : String) : Loosens words scope (unsigned what) := by
  refine loosens_ofKind ((loosens_look _).bind fun token => ?_)
  cases Number.uint32? token.text with
  | some value => exact loosens_advance.bind fun _ => loosens_pure value
  | none => exact loosens_refuse _

theorem loosens_literal : Loosens words scope Literal.grammar := by
  refine (loosens_look _).bind fun token => ?_
  have grouped (change : String → Literal) : Loosens words scope (do
      return change (← group)) := loosens_group.bind fun _ => loosens_pure _
  cases token.kind with
  | integer | float | quotedString | binaryLiteral =>
      exact loosens_advance.bind fun _ => loosens_pure _
  | word =>
      exact loosens_advance.bind fun _ => (loosens_look _).bind fun _ =>
        loosens_ite (grouped _) (loosens_pure _)
  | leftParen => exact grouped _
  | identifier | backtick | rightParen | comma | equals | semicolon | dot | symbol | endOfInput =>
      exact loosens_refuse _

end Grammar

/-! ## Columns -/

namespace Column

variable {words : List String} {scope : Scope}

theorem loosens_width? : Loosens words scope width? := by
  refine (loosens_consume "(").bind fun _ => loosens_ite ?_ (loosens_pure none)
  exact (loosens_unsigned _).bind fun _ => (loosens_expect _ _).bind fun _ => loosens_pure _

theorem loosens_withPrecision (column : Column) : Loosens words scope column.withPrecision := by
  have closed (width : UInt32) (decimals : Option UInt32) : Loosens words scope (do
      expect ")" (.expected "closing bracket \")\" after type precision")
      return { column with width := some width, decimals := decimals }) :=
    (loosens_expect _ _).bind fun _ => loosens_pure _
  refine (loosens_consume "(").bind fun _ => loosens_ite ?_ (loosens_pure column)
  refine (loosens_unsigned _).bind fun width => ?_
  refine (loosens_consume ",").bind fun _ => loosens_ite ?_ ?_
  · exact ((loosens_unsigned _).bind fun _ => loosens_pure _).bind (closed width)
  · exact (loosens_pure none).bind (closed width)

theorem loosens_withFlags (column : Column) : Loosens words scope column.withFlags := by
  refine (loosens_many ?_).bind fun _ => loosens_pure _
  refine (loosens_consume _).bind fun _ => loosens_ite (loosens_pure _) ?_
  refine (loosens_consume _).bind fun _ => loosens_ite (loosens_pure _) ?_
  exact (loosens_consume _).bind fun _ => loosens_ite (loosens_pure _) (loosens_pure none)

theorem loosens_withParameters (column : Column) :
    Loosens words scope column.withParameters := by
  unfold withParameters
  cases TypeFamily.ofName column.typeName with
  | integer => exact loosens_width?.bind fun _ => loosens_withFlags _
  | fixedPoint => exact (loosens_withPrecision column).bind loosens_withFlags
  | temporal | sizedString => exact loosens_width?.bind fun _ => loosens_pure _
  | enumerated => exact (loosens_parenthesized loosens_literal).bind fun _ => loosens_pure _
  | plain | other => exact loosens_pure column

theorem loosens_characterSet? : Loosens words scope characterSet? := by
  have named : Loosens words scope (do let _ ← nameOrString; return some ()) :=
    loosens_nameOrString.bind fun _ => loosens_pure _
  refine (loosens_consume _).bind fun _ => loosens_ite ?_ ?_
  · exact (loosens_expect _ _).bind fun _ => named
  · exact (loosens_consumeAny _).bind fun _ => loosens_ite named (loosens_pure none)

theorem loosens_readAttribute (draft : Draft) : Loosens words scope (readAttribute draft) := by
  have literal (change : Literal → Bool × Draft) : Loosens words scope (do
      return change (← Literal.grammar)) := loosens_literal.bind fun _ => loosens_pure _
  refine (loosens_look _).bind fun _ => loosens_ite (loosens_pure _) ?_
  refine (loosens_consume _).bind fun _ => loosens_ite
    ((loosens_expect _ _).bind fun _ => loosens_pure _) ?_
  refine (loosens_consume _).bind fun _ => loosens_ite (loosens_pure _) ?_
  refine (loosens_consume _).bind fun _ => loosens_ite (literal _) ?_
  refine (loosens_look _).bind fun _ => (loosens_look _).bind fun _ => loosens_ite ?_ ?_
  · exact loosens_advance.bind fun _ => loosens_advance.bind fun _ => literal _
  refine (loosens_consume _).bind fun _ => loosens_ite (loosens_ofKind
    ((loosens_look _).bind fun _ => loosens_advance.bind fun _ => loosens_pure _)) ?_
  exact (loosens_look _).bind fun _ => loosens_ite (loosens_pure _) (loosens_pure _)

theorem loosens_attributes (depth : Nat) (draft : Draft) : Loosens words scope
    (if depth = 0 then readAttribute draft else pure (false, draft)) :=
  loosens_ite (loosens_readAttribute draft) (loosens_pure _)

variable {start final : Cursor} {name : String} {column found : Column}

/-- The attributes of a column end at the same token without the further stop words, unless they
end at one of these. -/
theorem finds_withAttributes_of_adding
    (reading : column.withAttributes.Finds { scope with stops := scope.stops.adding words } start
      found final)
    (other : (Stops.ofList words).stopAt final.current = false) :
    column.withAttributes.Finds scope start found final := by
  obtain ⟨draft, last, scanned, kept⟩ := finds_bind_iff.mp reading
  obtain rfl : last = final := (finds_pure_iff.mp kept).2
  have run := finds_scan_iff.mp scanned
  have freer (token : Token)
      (noStop : ((scope.stops.adding words).adding [","]).stopAt token = false) :
      (scope.stops.adding [","]).stopAt token = false := by
    simp only [← Bool.not_eq_true, Stops.stopAt_adding, not_or] at noStop ⊢
    exact ⟨noStop.1, noStop.2.2⟩
  have halts : Halts (scope.stops.adding [","]) last := by
    refine run.halts.imp id (Or.imp id fun stopped => ⟨stopped.1, stopped.2.1, ?_⟩)
    have stop := stopped.2.2
    rw [Stops.stopAt_adding, Stops.stopAt_adding, other] at stop
    rw [Stops.stopAt_adding]
    simpa using stop
  have parallel : Parallel ((scope.stops.adding words).adding [","]) last
      fun _ left right => left = right := by
    refine ⟨?_, ?_, ?_⟩
    · rintro _ _ _ _ _ _ rfl rfl
      exact Iff.rfl
    · rintro _ _ _ _ rfl _ _
      rfl
    · rintro _ _ _ _ rfl _ _
      rfl
  have alike : VisitsAlike attributeVisitor { scope with stops := scope.stops.adding words } scope
      last fun _ left right => left = right := by
    rintro depth draft left _ found middle rfl _ reading _
    exact ⟨middle, loosens_attributes depth draft _ _ _ reading, rfl⟩
  obtain ⟨_, runLoose, rfl⟩ := run.carry parallel freer honest_attributes alike
    (fun same => same ▸ halts) rfl
  exact finds_bind_iff.mpr ⟨draft, last, finds_scan_iff.mpr runLoose, kept⟩

theorem finds_afterName_of_adding
    (reading : (afterName name).Finds { scope with stops := scope.stops.adding words } start found
      final)
    (other : (Stops.ofList words).stopAt final.current = false) :
    (afterName name).Finds scope start found final := by
  rw [afterName, keyword?, finds_look_bind_iff] at reading ⊢
  cases word : start.current.keyword? with
  | none =>
      rw [word] at reading
      exact (finds_refuse_iff.mp reading).elim
  | some typeName =>
      rw [word, finds_advance_bind_iff] at reading
      rw [finds_advance_bind_iff]
      obtain ⟨column, middle, parameters, reading⟩ := finds_bind_iff.mp reading
      obtain ⟨clauses, last, characterSets, reading⟩ := finds_bind_iff.mp reading
      refine finds_bind_iff.mpr ⟨column, middle, loosens_withParameters _ _ _ _ parameters, ?_⟩
      refine finds_bind_iff.mpr ⟨clauses, last, ?_, finds_withAttributes_of_adding reading other⟩
      exact loosens_many loosens_characterSet? _ _ _ characterSets

end Column

/-! ## Clauses -/

/-- A token that spells none of the words is none of them as stop words. -/
theorem Stops.stopAt_ofList_eq_false {words : List String} {token : Token}
    (upper : ∀ word ∈ words, Text.upper word = word)
    (unseen : ∀ word ∈ words, token.spells word = false) :
    (Stops.ofList words).stopAt token = false := by
  have same : words.map Text.upper = words := (List.map_congr_left upper).trans (List.map_id words)
  rw [← Bool.not_eq_true]
  intro stop
  simp only [Stops.stopAt, Stops.ofList, Stops.adding, Stops.none, List.append_nil, same] at stop
  split at stop
  · rename_i isWord
    have member : Text.upper token.text ∈ words := by simpa using stop
    have spelled := unseen _ member
    simp [Token.spells, isWord, Text.sameWord, Text.upper_upper] at spelled
  · rename_i noWord
    simp only [Bool.and_eq_true, List.contains_iff_mem] at stop
    have spelled := unseen _ stop.2
    simp [Token.spells, noWord, stop.1] at spelled

namespace Token

variable {token : Token} {keyword word : String}

theorem keyword?_of_isKeyword (isKeyword : token.isKeyword keyword = true) :
    token.keyword? = some (Text.upper keyword) := by
  simp only [Token.isKeyword, Bool.and_eq_true, decide_eq_true_eq, Text.sameWord, beq_iff_eq]
    at isKeyword
  rw [Token.keyword?, if_pos isKeyword.1, isKeyword.2]

theorem spells_of_keyword? (isWord : token.keyword? = some word)
    (same : Text.upper word = Text.upper keyword) : token.spells keyword = true := by
  unfold Token.keyword? at isWord
  split at isWord
  · rename_i kind
    rw [← Option.some.inj isWord, Text.upper_upper] at same
    simp [Token.spells, kind, Text.sameWord, same]
  · cases isWord

end Token

namespace TargetWord

variable {word : String} {role : IndexRole}

theorem ofWord?_index_none (known : ofWord? word = some (index none)) :
    IndexRole.ofKeyword? word = none ∧
      (Text.upper word = Text.upper "INDEX" ∨ Text.upper word = Text.upper "KEY") := by
  dsimp only [ofWord?] at known
  split at known
  · cases known
  split at known
  · rename_i spelled
    rcases spelled with same | same
    · exact ⟨by rw [IndexRole.ofKeyword?, same]; decide, .inl (same.trans (by decide))⟩
    · exact ⟨by rw [IndexRole.ofKeyword?, same]; decide, .inr (same.trans (by decide))⟩
  all_goals
    repeat' split at known
    all_goals simp at known

theorem ofKeyword?_of_ofWord? (known : ofWord? word = some (index (some role))) :
    IndexRole.ofKeyword? word = some role := by
  dsimp only [ofWord?] at known
  iterate 5
    split at known
    · simp at known
  simpa [IndexRole.ofKeyword?, Text.upper_upper] using known

end TargetWord

namespace Index

variable {scope : Scope} {start final : Cursor} {role : Option IndexRole} {index : Index}

/-- Reads what follows the keyword of the role of an index. -/
def afterRole (role : Option IndexRole) : Grammar Index := do
  unless (← consumeAny ["INDEX", "KEY"]) || role.any IndexRole.standsAlone do
    refuse (.expected "keyword INDEX or KEY")
  body role

theorem finds_index_iff : Index.grammar.Finds scope start index final ↔
    let role := start.current.keyword?.bind IndexRole.ofKeyword?
    (afterRole role).Finds scope (if role.isSome then start.advance else start) index final := by
  rw [Index.grammar, keyword?, finds_look_bind_iff]
  dsimp only
  split
  · rw [finds_advance_bind_iff]
    rfl
  · rfl

theorem finds_afterRole_iff : (afterRole role).Finds scope start index final ↔
    if ["INDEX", "KEY"].any start.current.spells then
      (body role).Finds scope start.advance index final
    else role.any IndexRole.standsAlone = true ∧ (body role).Finds scope start index final := by
  rw [afterRole, finds_consumeAny_bind_iff]
  split
  · rfl
  · cases role.any IndexRole.standsAlone <;> simp

theorem finds_afterRole_of_spells
    (spelled : start.current.spells "INDEX" = true ∨ start.current.spells "KEY" = true)
    (reading : (body role).Finds scope start.advance index final) :
    (afterRole role).Finds scope start index final := by
  rw [finds_afterRole_iff, if_pos (by simpa using spelled)]
  exact reading

end Index

theorem Cursor.advance_ofTokens_cons {first : Token} {rest : List Token}
    (more : (ofTokens (first :: rest)).advance.ahead ≠ []) :
    (ofTokens (first :: rest)).advance = ofTokens rest := by
  by_cases done : rest = []
  · subst done
    by_cases isEnd : first.isEnd = true <;> simp [ofTokens, advance, isEnd] at more
  · have joined : first :: rest = [first] ++ rest := rfl
    rw [joined, ofTokens_append done]
    rfl

namespace AlterOption

variable {scope : Scope} {start middle final : Cursor} {option : AlterOption} {column : Column}
  {index : Index} {action : AlterAction} {target : AlterTarget} {role : Option IndexRole}
  {payload : AlterPayload} {oldName : String}

/-! ### What a clause is about -/

/-- A clause consists of options of the table, an action, words for its target and what belongs to
these, unless it gives the table a new name. -/
theorem finds_clause_iff : AlterOption.grammar.Finds scope start option final ↔
    ∃ behindOptions behindAction,
      TableOption.options.Finds scope start option.tableOptions behindOptions ∧
      readAction.Finds scope behindOptions option.action behindAction ∧
      if option.action = .rename ∧ renameWords.any behindAction.current.spells = false then
        option.target = .table ∧ ∃ text, option.payload = .name text ∧
          Grammar.name.Finds scope behindAction text final
      else
        ∃ role middle,
          (readTarget option.action).Finds scope behindAction (option.target, role) middle ∧
          (readPayload option.action option.target role).Finds scope middle option.payload
            final := by
  constructor
  · intro found
    obtain ⟨options, behindOptions, readOptions, found⟩ := finds_bind_iff.mp found
    obtain ⟨action, behindAction, acted, found⟩ := finds_bind_iff.mp found
    rw [seesAny, finds_look_bind_iff] at found
    split at found
    · rename_i renames
      obtain ⟨text, last, named, kept⟩ := finds_bind_iff.mp found
      obtain ⟨rfl, rfl⟩ := finds_pure_iff.mp kept
      refine ⟨behindOptions, behindAction, readOptions, acted, ?_⟩
      rw [if_pos (by simpa using renames)]
      exact ⟨rfl, text, rfl, named⟩
    · rename_i noName
      obtain ⟨⟨target, role⟩, middle, words, found⟩ := finds_bind_iff.mp found
      obtain ⟨payload, last, belongs, kept⟩ := finds_bind_iff.mp found
      obtain ⟨rfl, rfl⟩ := finds_pure_iff.mp kept
      refine ⟨behindOptions, behindAction, readOptions, acted, ?_⟩
      rw [if_neg (by simpa using noName)]
      exact ⟨role, middle, words, belongs⟩
  · rintro ⟨behindOptions, behindAction, readOptions, acted, rest⟩
    obtain ⟨target, action, payload, options⟩ := option
    refine finds_bind_iff.mpr ⟨options, behindOptions, readOptions, ?_⟩
    refine finds_bind_iff.mpr ⟨action, behindAction, acted, ?_⟩
    rw [seesAny, finds_look_bind_iff]
    split at rest
    · rename_i renames
      obtain ⟨rfl, text, rfl, named⟩ := rest
      rw [if_pos (by simpa using renames)]
      exact finds_bind_iff.mpr ⟨text, final, named, finds_pure_iff.mpr ⟨rfl, rfl⟩⟩
    · rename_i noName
      obtain ⟨role, middle, words, belongs⟩ := rest
      rw [if_neg (by simpa using noName)]
      refine finds_bind_iff.mpr ⟨(target, role), middle, words, ?_⟩
      exact finds_bind_iff.mpr ⟨payload, final, belongs, finds_pure_iff.mpr ⟨rfl, rfl⟩⟩

theorem suits_of_finds_readPayload
    (found : (readPayload action target role).Finds scope start payload final) :
    AlterPayload.Suits action target payload := by
  have columns : Yields (fun _ => True) (fun _ => True) positionedColumn :=
    fun _ _ _ _ _ _ => trivial
  exact (yields_readPayload columns action target role scope start payload final
    (fun _ _ => trivial) found).1

theorem finds_addIndex_iff :
    (readPayload .add .index role).Finds scope start (.index index) final ↔
      (Index.body role).Finds scope start index final := by
  simp [readPayload, finds_bind_iff]

theorem finds_addColumn_iff :
    (readPayload .add .column role).Finds scope start (.column column) final ↔
      start.current.spells "(" = false ∧ positionedColumn.Finds scope start column final := by
  rw [readPayload, finds_sees_ite_iff]
  cases start.current.spells "(" <;> simp [finds_bind_iff]

theorem finds_changeColumn_iff :
    (readPayload .change .column role).Finds scope start (.changeColumn oldName column) final ↔
      ∃ middle, Grammar.name.Finds scope start oldName middle ∧
        positionedColumn.Finds scope middle column final := by
  simp [readPayload, finds_bind_iff]

theorem finds_modifyColumn_iff :
    (readPayload .modify .column role).Finds scope start (.column column) final ↔
      positionedColumn.Finds scope start column final := by
  simp [readPayload, finds_bind_iff]

/-! ### What is added -/

/-- A column without a place is one that ends before no word for a place. -/
theorem exists_of_finds_positionedColumn
    (found : positionedColumn.Finds scope start column final) (unplaced : column.position = none) :
    ∃ name middle, Grammar.name.Finds scope start name middle ∧
      (Column.afterName name).Finds
        { scope with stops := scope.stops.adding ["FIRST", "AFTER"] } middle column final ∧
      final.current.spells "FIRST" = false ∧ final.current.spells "AFTER" = false := by
  obtain ⟨name, middle, named, reading⟩ := finds_bind_iff.mp found
  obtain ⟨definition, last, defined, reading⟩ := finds_bind_iff.mp reading
  rw [finds_consume_ite_iff] at reading
  split at reading
  · obtain ⟨rfl, -⟩ := finds_pure_iff.mp reading
    cases unplaced
  rename_i noFirst
  rw [finds_consume_ite_iff] at reading
  split at reading
  · obtain ⟨after, later, -, reading⟩ := finds_bind_iff.mp reading
    obtain ⟨rfl, -⟩ := finds_pure_iff.mp reading
    cases unplaced
  rename_i noAfter
  obtain ⟨rfl, rfl⟩ := finds_pure_iff.mp reading
  exact ⟨name, middle, named, defined, by simpa using noFirst, by simpa using noAfter⟩

/-- A column without a place is read as the definition of a column is. -/
theorem finds_column_of_positionedColumn
    (found : positionedColumn.Finds scope start column final) (unplaced : column.position = none) :
    Column.grammar.Finds scope start column final := by
  obtain ⟨name, middle, named, defined, noFirst, noAfter⟩ :=
    exists_of_finds_positionedColumn found unplaced
  have other : (Stops.ofList ["FIRST", "AFTER"]).stopAt final.current = false :=
    Stops.stopAt_ofList_eq_false (by decide) (by simp [noFirst, noAfter])
  exact finds_bind_iff.mpr ⟨name, middle, named, Column.finds_afterName_of_adding defined other⟩

/-- The words after the keyword of a role that a clause accepts are accepted in a definition. -/
theorem finds_afterRole_of_words {named : IndexRole}
    (words : (afterRole named).Finds scope start () middle)
    (body : (Index.body (some named)).Finds scope middle index final) :
    (Index.afterRole (some named)).Finds scope start index final := by
  cases named with
  | primary | foreign =>
      obtain ⟨spelled, rfl⟩ := finds_expect_iff.mp words
      exact Index.finds_afterRole_of_spells (.inr spelled) body
  | fulltext | spatial =>
      rw [afterRole, finds_consumeAny_bind_iff] at words
      split at words
      · rename_i spelled
        obtain rfl := (finds_pure_iff.mp words).2
        exact Index.finds_afterRole_of_spells (by simpa using spelled) body
      · exact (finds_refuse_iff.mp words).elim
  | unique =>
      rw [afterRole, finds_consumeAny_bind_iff] at words
      rw [Index.finds_afterRole_iff]
      split at words
      · rename_i spelled
        obtain rfl := (finds_pure_iff.mp words).2
        rwa [if_pos spelled]
      · rename_i unspelled
        obtain rfl := (finds_pure_iff.mp words).2
        rw [if_neg unspelled]
        exact ⟨rfl, body⟩

/-- What follows the words for an added index is read as the definition of an index is, together
with these words. -/
theorem finds_index_of_readTarget
    (words : (readTarget .add).Finds scope start (.index, role) middle)
    (body : (Index.body role).Finds scope middle index final) :
    Index.grammar.Finds scope start index final := by
  simp only [readTarget, current, finds_look_bind_iff] at words
  rw [if_neg (by simp), sees, finds_look_bind_iff] at words
  split at words
  · cases (finds_pure_iff.mp words).1
  cases target : start.current.keyword?.bind TargetWord.ofWord? with
  | none =>
      rw [target] at words
      exact (finds_refuse_iff.mp words).elim
  | some kind =>
      obtain ⟨word, isWord, known⟩ := Option.bind_eq_some_iff.mp target
      rw [target, finds_advance_bind_iff] at words
      rw [Index.finds_index_iff, isWord, Option.bind_some]
      cases kind with
      | column | table => cases (finds_pure_iff.mp words).1
      | constraint | partition => exact (finds_refuse_iff.mp words).elim
      | index named =>
          cases named with
          | none =>
              obtain ⟨same, rfl⟩ := finds_pure_iff.mp words
              obtain rfl : none = role := congrArg Prod.snd same
              obtain ⟨noRole, spelled⟩ := TargetWord.ofWord?_index_none known
              rw [noRole]
              refine Index.finds_afterRole_of_spells ?_ body
              exact spelled.imp (Token.spells_of_keyword? isWord) (Token.spells_of_keyword? isWord)
          | some named =>
              obtain ⟨_, last, further, kept⟩ := finds_bind_iff.mp words
              obtain ⟨same, rfl⟩ := finds_pure_iff.mp kept
              obtain rfl : some named = role := congrArg Prod.snd same
              rw [TargetWord.ofKeyword?_of_ofWord? known]
              exact finds_afterRole_of_words further body

/-- A clause that adds something has no options of the table in front of it. -/
theorem exists_of_finds_add (adds : start.current.isKeyword "ADD" = true)
    (found : AlterOption.grammar.Finds scope start option final) :
    ∃ target role middle, (readTarget .add).Finds scope start.advance (target, role) middle ∧
      (readPayload .add target role).Finds scope middle option.payload final := by
  have word : start.current.keyword? = some "ADD" := Token.keyword?_of_isKeyword adds
  have noOption : TableOption.options.Finds scope start [] start := by
    refine finds_many_of_repeats (.done ?_)
    rw [TableOption.atStart, finds_look_bind_iff, TableOption.startsAt, word]
    simp [show TableOption.isKeyWord "ADD" = false by decide]
  obtain ⟨behindOptions, behindAction, readOptions, acted, rest⟩ := finds_clause_iff.mp found
  obtain ⟨-, rfl⟩ := noOption.functional readOptions
  rw [readAction, keyword?, finds_look_bind_iff, word] at acted
  obtain ⟨action, rfl⟩ : AlterAction.add = option.action ∧ start.advance = behindAction := by
    simpa [AlterAction.all, AlterAction.keyword] using acted
  rw [← action, if_neg (by simp)] at rest
  obtain ⟨role, middle, words, belongs⟩ := rest
  exact ⟨option.target, role, middle, words, belongs⟩

theorem readTarget_of_column {found : AlterTarget × Option IndexRole}
    (column : start.current.isKeyword "COLUMN" = true)
    (words : (readTarget .add).Finds scope start found final) :
    found = (.column, none) ∧ final = start.advance := by
  have word : start.current.keyword? = some "COLUMN" := Token.keyword?_of_isKeyword column
  have noMark : start.current.spells "(" = false := by
    rw [← Token.spells_placeless, Token.spells_of_isKeyword column]
    decide
  simp only [readTarget, current, finds_look_bind_iff] at words
  rw [if_neg (by simp), sees, finds_look_bind_iff, noMark, if_neg (by simp), word,
    show (some "COLUMN").bind TargetWord.ofWord? = some .column by decide,
    finds_advance_bind_iff] at words
  obtain ⟨same, ended⟩ := finds_pure_iff.mp words
  exact ⟨same.symm, ended.symm⟩

/-- What a clause adds is defined by the tokens behind the word `ADD`, or behind the word `COLUMN`
if it is a column without a place. -/
theorem finds_definition_of_finds_add (adds : start.current.isKeyword "ADD" = true)
    (found : AlterOption.grammar.Finds scope start option final) :
    (∀ index, option.payload = .index index →
      Index.grammar.Finds scope start.advance index final) ∧
    (∀ column, start.next.isKeyword "COLUMN" = true → option.payload = .column column →
      column.position = none → Column.grammar.Finds scope start.advance.advance column final) := by
  obtain ⟨target, role, middle, words, reading⟩ := exists_of_finds_add adds found
  have suits := suits_of_finds_readPayload reading
  constructor
  · intro index payload
    rw [payload] at reading suits
    cases suits with
    | addIndex => exact finds_index_of_readTarget words (finds_addIndex_iff.mp reading)
  · intro column spelled payload unplaced
    rw [payload] at reading suits
    obtain ⟨same, rfl⟩ := readTarget_of_column spelled words
    cases suits with
    | addColumn =>
        exact finds_column_of_positionedColumn (finds_addColumn_iff.mp reading).2 unplaced

/-- What a clause adds is what the tokens behind its first words define on their own, up to the same
token: the tokens behind `ADD` define an index, with its role, and the tokens behind `ADD COLUMN` a
column, if the clause does not say where it goes. -/
theorem definition_of_addition {add : Token} {tokens : List Token}
    (adds : add.isKeyword "ADD" = true)
    (found : AlterOption.grammar.Finds scope (.ofTokens (add :: tokens)) option final) :
    (∀ index, option.payload = .index index →
      Index.grammar.Finds scope (.ofTokens tokens) index final) ∧
    (∀ word others column, tokens = word :: others → word.isKeyword "COLUMN" = true →
      option.payload = .column column → column.position = none →
        Column.grammar.Finds scope (.ofTokens others) column final) := by
  have current : (Cursor.ofTokens (add :: tokens)).current = add := Cursor.current_ofTokens_cons
  obtain ⟨indexes, columns⟩ := finds_definition_of_finds_add (by rwa [current]) found
  constructor
  · intro index payload
    have reading := indexes index payload
    rwa [Cursor.advance_ofTokens_cons (Index.progresses_index.ahead_ne_nil reading)] at reading
  · rintro word others column rfl spelled payload unplaced
    have behind : (Cursor.ofTokens (add :: word :: others)).advance =
        Cursor.ofTokens (word :: others) := by
      have joined : add :: word :: others = [add] ++ word :: others := rfl
      rw [joined, Cursor.ofTokens_append (by simp)]
      rfl
    have reading := columns column (by rwa [Cursor.next, behind, Cursor.current_ofTokens_cons])
      payload unplaced
    rw [behind] at reading
    rwa [Cursor.advance_ofTokens_cons (Column.progresses_column.ahead_ne_nil reading)] at reading

/-- A unique index without the word `INDEX`, and a column whose name is the word `FIRST`, before a
comma. -/
theorem definition_of_addition_unique_first :
    Index.grammar.Finds ⟨.standard, .none⟩ (.ofTokens [.bare .word "UNIQUE",
        .bare .leftParen "(", .bare .word "a", .bare .rightParen ")", .bare .comma ","])
      ⟨none, none, some .unique, ["a"]⟩ (.ofTokens [.bare .comma ","]) ∧
    Column.grammar.Finds ⟨.standard, .none⟩ (.ofTokens [.bare .word "first", .bare .word "INT",
        .bare .comma ","])
      { name := "first", typeName := "INT" } (.ofTokens [.bare .comma ","]) := by
  constructor
  · have found : AlterOption.grammar.Finds ⟨.standard, .none⟩
        (.ofTokens [.bare .word "ADD", .bare .word "UNIQUE", .bare .leftParen "(", .bare .word "a",
          .bare .rightParen ")", .bare .comma ","])
        ⟨.index, .add, .index ⟨none, none, some .unique, ["a"]⟩, []⟩
        (.ofTokens [.bare .comma ","]) :=
      ⟨eq_ok_of_toOption (by decide +kernel), Cursor.ext_of_tokens (by decide +kernel)⟩
    exact (definition_of_addition (by decide) found).1 _ rfl
  · have found : AlterOption.grammar.Finds ⟨.standard, .none⟩
        (.ofTokens [.bare .word "add", .bare .word "Column", .bare .word "first", .bare .word "INT",
          .bare .comma ","])
        ⟨.column, .add, .column { name := "first", typeName := "INT" }, []⟩
        (.ofTokens [.bare .comma ","]) :=
      ⟨eq_ok_of_toOption (by decide +kernel), Cursor.ext_of_tokens (by decide +kernel)⟩
    exact (definition_of_addition (by decide) found).2 _ _ _ rfl (by decide) rfl rfl

end AlterOption

end TableDdl
