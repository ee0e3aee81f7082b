import TableDdl.Proofs.Script.Succession

/-!
# The ways to read a text

A text can be read as one statement, as a script, as the definition of a table and as an alteration.
All of them stop at the same places: the one statement of a text is the only statement of its script,
and what is read as a table or an alteration is the one statement of the text. A table and an
alteration have to start at the first token, so that no terminator may stand before them.
-/

namespace TableDdl

open Grammar

variable {scope : Scope} {start final : Cursor}

namespace Grammar

variable {α : Type} {grammar : Grammar α} {value : α}

/-- The whole of a text is what the grammar reads, with nothing but terminators after it. -/
theorem finds_whole_iff :
    grammar.whole.Finds scope start value final ↔
      ∃ middle, grammar.Finds scope start value middle ∧
        (middle.pastTerminators scope.settings.terminator).atEnd = true ∧
        middle.pastTerminators scope.settings.terminator = final := by
  have ending {middle : Cursor} {found : α} :
      (do
        skipTerminators
        unless ← atEnd do refuse .trailingInput
        return found : Grammar α).Finds scope middle value final ↔
        found = value ∧ (middle.pastTerminators scope.settings.terminator).atEnd = true ∧
          middle.pastTerminators scope.settings.terminator = final := by
    rw [finds_bind_iff]
    constructor
    · rintro ⟨_, last, skipped, reading⟩
      obtain ⟨-, rfl⟩ := skipped.functional (finds_skipTerminators middle)
      rw [atEnd, finds_look_bind_iff] at reading
      split at reading
      · obtain ⟨rfl, rfl⟩ := finds_pure_iff.mp reading
        exact ⟨rfl, ‹_›, rfl⟩
      · simp at reading
    · rintro ⟨rfl, ended, rfl⟩
      refine ⟨(), _, finds_skipTerminators middle, ?_⟩
      rw [atEnd, finds_look_bind_iff, if_pos ended]
      exact finds_pure_iff.mpr ⟨rfl, rfl⟩
  rw [whole, finds_bind_iff]
  simp only [ending]
  constructor
  · rintro ⟨_, middle, found, rfl, ended, last⟩
    exact ⟨middle, found, ended, last⟩
  · rintro ⟨middle, found, ended, last⟩
    exact ⟨value, middle, found, rfl, ended, last⟩

end Grammar

namespace Statement

variable {statement : Statement}

theorem finds_alone_past_iff :
    alone.Finds scope start statement final ↔
      Statement.grammar.whole.Finds scope (start.pastTerminators scope.settings.terminator)
        statement final := by
  rw [alone, finds_bind_iff]
  constructor
  · rintro ⟨_, middle, skipped, reading⟩
    obtain ⟨-, rfl⟩ := skipped.functional (finds_skipTerminators start)
    exact reading
  · exact fun reading => ⟨(), _, finds_skipTerminators start, reading⟩

/-- A statement does not start at an end of input. -/
theorem atEnd_of_finds (found : Statement.grammar.Finds scope start statement final) :
    start.atEnd = false := by
  rw [finds_statement_iff] at found
  split at found
  · exact isEnd_of_spells ‹_›
  · exact isEnd_of_spells found.1

/-- A turn of a script that finds a statement, whatever the terminator is. -/
theorem finds_next?_some_iff :
    next?.Finds scope start (some statement) final ↔
      Statement.grammar.Finds scope (start.pastTerminators scope.settings.terminator) statement
        final := by
  rw [finds_next?_iff]
  constructor
  · intro found
    split at found
    · simp at found
    · obtain ⟨_, ⟨⟩, reading⟩ := found
      exact reading
  · intro reading
    rw [if_neg (by simp [atEnd_of_finds reading])]
    exact ⟨statement, rfl, reading⟩

theorem finds_next?_none_iff :
    next?.Finds scope start none final ↔
      (start.pastTerminators scope.settings.terminator).atEnd = true ∧
        start.pastTerminators scope.settings.terminator = final := by
  rw [finds_next?_iff]
  split <;> simp_all

/-- A script of one statement is that statement alone. -/
theorem finds_script_singleton_iff :
    script.Finds scope start [statement] final ↔ alone.Finds scope start statement final := by
  rw [finds_alone_past_iff, finds_whole_iff]
  constructor
  · intro found
    -- The last turn of the script finds no further statement.
    cases repeats_of_finds_many found with
    | more here progress after =>
        cases after with
        | done none =>
            exact ⟨_, finds_next?_some_iff.mp here, finds_next?_none_iff.mp none⟩
    | stuck here standstill =>
        have moved := progresses_statement _ _ _ _ (finds_next?_some_iff.mp here)
        exact absurd (Nat.lt_of_lt_of_le moved (Cursor.remaining_pastTerminators_le _ start))
          standstill
  · rintro ⟨middle, here, ended, rfl⟩
    have moved := progresses_statement _ _ _ _ here
    refine finds_many_of_repeats (.more (finds_next?_some_iff.mpr here) ?_
      (.done (finds_next?_none_iff.mpr ⟨ended, rfl⟩)))
    exact Nat.lt_of_lt_of_le moved (Cursor.remaining_pastTerminators_le _ start)

theorem finds_createTable_iff {table : Table} :
    Statement.grammar.Finds scope start (createTable table) final ↔
      Table.grammar.Finds scope start table final := by
  rw [finds_statement_iff]
  constructor
  · intro found
    split at found
    · obtain ⟨_, ⟨⟩, reading⟩ := found
      exact reading
    · obtain ⟨-, _, ⟨⟩, -⟩ := found
  · intro reading
    have create : start.current.spells "CREATE" = true := by
      rw [Table.grammar, finds_expect_bind_iff] at reading
      exact reading.1
    rw [if_pos create]
    exact ⟨table, rfl, reading⟩

theorem finds_alterTable_iff {alteration : AlterTable} :
    Statement.grammar.Finds scope start (alterTable alteration) final ↔
      AlterTable.grammar.Finds scope start alteration final := by
  rw [finds_statement_iff]
  constructor
  · intro found
    split at found
    · obtain ⟨_, ⟨⟩, -⟩ := found
    · obtain ⟨-, _, ⟨⟩, reading⟩ := found
      exact reading
  · intro reading
    have alter : start.current.spells "ALTER" = true := by
      rw [AlterTable.grammar, finds_expect_bind_iff] at reading
      exact reading.1
    have notCreate : ¬ start.current.spells "CREATE" = true := by
      intro create
      rw [Token.spells] at alter create
      split at alter <;> simp_all [Text.sameWord, Text.upper]
    rw [if_neg notCreate]
    exact ⟨alter, alteration, rfl, reading⟩

/-- For every text and all settings, the one statement of the text is the one statement of its
script; and where the text does not start with a terminator, the table that it defines is its one
statement, and so is the alteration that it describes. -/
theorem entry_points_agree (settings : Settings) (text : String) :
    (∀ statement, parse settings text = .ok statement ↔
      parseScript settings text = .ok [statement]) ∧
    ((∀ tokens, Token.tokenize text = .ok tokens →
        tokens.head?.any (·.spells settings.terminator) = false) →
      (∀ table, Table.parse settings text = .ok table ↔
        parse settings text = .ok (createTable table)) ∧
      ∀ alteration, AlterTable.parse settings text = .ok alteration ↔
        parse settings text = .ok (alterTable alteration)) := by
  constructor
  · intro statement
    simp only [parse, parseScript, parse_eq_ok_iff, finds_script_singleton_iff]
  · intro notTerminator
    -- Without a terminator at its start, a text is read from its first token on.
    have fromFirst {tokens : List Token} (read : Token.tokenize text = .ok tokens)
        (statement : Statement) (final : Cursor) :
        alone.Finds ⟨settings, .none⟩ (Cursor.ofTokens tokens) statement final ↔
          Statement.grammar.whole.Finds ⟨settings, .none⟩ (Cursor.ofTokens tokens) statement
            final := by
      rw [finds_alone_past_iff, Cursor.pastTerminators_of_not_spells]
      obtain ⟨body, last, rfl, -⟩ := Lexer.lexes_of_tokensFrom read
      have other := notTerminator _ read
      rw [Cursor.ofTokens_append_finish, Cursor.current]
      cases body with
      | nil => exact Token.spells_of_isEnd rfl _
      | cons first others => simpa using other
    constructor
    · intro table
      simp only [Table.parse, parse, parse_eq_ok_iff]
      refine exists_congr fun tokens => exists_congr fun final => and_congr_right fun read => ?_
      simp only [fromFirst read, finds_whole_iff, finds_createTable_iff]
    · intro alteration
      simp only [AlterTable.parse, parse, parse_eq_ok_iff]
      refine exists_congr fun tokens => exists_congr fun final => and_congr_right fun read => ?_
      simp only [fromFirst read, finds_whole_iff, finds_alterTable_iff]

/-- The terminator is a word, in another case than in the text, and stands twice after the
statement. -/
theorem entry_points_agree_words :
    let settings : Settings := ⟨"GO", false⟩
    let text := "ALTER TABLE t DROP COLUMN c go Go"
    let alteration : AlterTable := ⟨"t", [⟨.column, .drop, .name "c", []⟩], none⟩
    parseScript settings text = .ok [alterTable alteration] ∧
      parse settings text = .ok (alterTable alteration) ∧
      AlterTable.parse settings text = .ok alteration := by
  intro settings text alteration
  have script : parseScript settings text = .ok [alterTable alteration] :=
    eq_ok_of_toOption (by decide +kernel)
  have read : Token.tokenize text = .ok [⟨.word, "ALTER", ⟨1, 1⟩⟩, ⟨.word, "TABLE", ⟨1, 7⟩⟩,
      ⟨.word, "t", ⟨1, 13⟩⟩, ⟨.word, "DROP", ⟨1, 15⟩⟩, ⟨.word, "COLUMN", ⟨1, 20⟩⟩,
      ⟨.word, "c", ⟨1, 27⟩⟩, ⟨.word, "go", ⟨1, 29⟩⟩, ⟨.word, "Go", ⟨1, 32⟩⟩,
      Token.finish ⟨1, 34⟩] :=
    eq_ok_of_toOption (by decide +kernel)
  obtain ⟨single, first⟩ := entry_points_agree settings text
  have alone := (single _).mpr script
  refine ⟨script, alone, ((first ?_).2 alteration).mpr alone⟩
  intro tokens lexed
  obtain rfl : _ = tokens := Except.ok.inj (read.symm.trans lexed)
  decide

end Statement

end TableDdl
