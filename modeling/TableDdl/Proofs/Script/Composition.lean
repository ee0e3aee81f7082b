import TableDdl.Proofs.Extension.Statements
import TableDdl.Proofs.Grammar.Parse
import TableDdl.Proofs.Lexer.Append

/-!
# Scripts one after the other

Two scripts with a semicolon on a line of its own between them are the script of the statements of
both. The tokens are those of the first script, the semicolon, and those of the second one. Every
statement of the first script is found again, and what ended the first script, be it the end of the
text or terminators before it, is now passed over together with the semicolon.
-/

namespace TableDdl

open Grammar

variable {scope : Scope} {start final : Cursor}

/-! ## Terminators -/

/-- The cursor past the tokens that spell the terminator. -/
def Cursor.pastTerminators (terminator : String) (start : Cursor) : Cursor :=
  start.skip (start.ahead.takeWhile (·.spells terminator)).length

namespace Cursor

theorem view_pastTerminators (terminator : String) (start : Cursor) :
    (start.pastTerminators terminator).view = start.view.dropWhile (·.spells terminator) := by
  rw [pastTerminators, view_skip, Cursor.view, List.dropWhile_map, ← Lexer.drop_length_takeWhile,
    List.map_drop]
  rfl

theorem pastTerminators_of_not_spells {terminator : String}
    (other : start.current.spells terminator = false) : start.pastTerminators terminator = start := by
  obtain ⟨ahead, finish, isEnd⟩ := start
  cases ahead with
  | nil => simp [pastTerminators, skip]
  | cons token rest =>
      have other : token.spells terminator = false := other
      simp [pastTerminators, skip, other]

theorem pastTerminators_of_spells {terminator : String}
    (spelled : start.current.spells terminator = true) :
    start.pastTerminators terminator = start.advance.pastTerminators terminator := by
  obtain ⟨token, rest, ahead⟩ := List.exists_cons_of_ne_nil (ahead_ne_nil_of_spells spelled)
  rw [current_of_ahead_eq_cons ahead] at spelled
  simp [pastTerminators, skip, advance, ahead, spelled]

theorem remaining_pastTerminators_le (terminator : String) (start : Cursor) :
    (start.pastTerminators terminator).remaining ≤ start.remaining :=
  (Reaches.skip start _).remaining_le

end Cursor

theorem repeats_skipTerminators (scope : Scope) (start : Cursor) : ∃ found, Repeats (do
      if (← atEnd) then return none
      else if ← consume (← settings).terminator then return some ()
      else return none) scope start found (start.pastTerminators scope.settings.terminator) := by
  induction count : start.remaining using Nat.strongRecOn generalizing start with
  | ind count ih =>
      cases spelled : start.current.spells scope.settings.terminator with
      | true =>
          have more := Cursor.ahead_ne_nil_of_spells spelled
          have inside : start.atEnd = false := by
            cases ended : start.atEnd with
            | false => rfl
            | true => simp [Token.spells_of_isEnd ended] at spelled
          have fewer : start.advance.remaining < start.remaining := by
            have := List.length_pos_iff.mpr more
            rw [Cursor.remaining_advance]
            simp only [Cursor.remaining]
            omega
          obtain ⟨found, run⟩ := ih _ (count ▸ fewer) start.advance rfl
          rw [Cursor.pastTerminators_of_spells spelled]
          refine ⟨() :: found, .more ?_ fewer run⟩
          simp [atEnd, settings, inside, spelled]
      | false =>
          rw [Cursor.pastTerminators_of_not_spells spelled]
          refine ⟨[], .done ?_⟩
          cases ended : start.atEnd with
          | true => simp [atEnd, ended]
          | false => simp [atEnd, settings, ended, spelled]

theorem finds_skipTerminators (start : Cursor) :
    skipTerminators.Finds scope start () (start.pastTerminators scope.settings.terminator) := by
  obtain ⟨found, run⟩ := repeats_skipTerminators scope start
  exact finds_bind_iff.mpr ⟨found, _, finds_many_of_repeats run, finds_pure_iff.mpr ⟨rfl, rfl⟩⟩

/-! ## Statements -/

/-- Reads a statement after terminators, if there is one. -/
def Statement.next? : Grammar (Option Statement) := do
  skipTerminators
  if ← atEnd then return none else return some (← Statement.grammar)

theorem Statement.finds_next?_iff {found : Option Statement} :
    Statement.next?.Finds scope start found final ↔
      if (start.pastTerminators scope.settings.terminator).atEnd then
        found = none ∧ start.pastTerminators scope.settings.terminator = final
      else ∃ statement, found = some statement ∧ Statement.grammar.Finds scope
        (start.pastTerminators scope.settings.terminator) statement final := by
  rw [Statement.next?, finds_bind_iff]
  constructor
  · rintro ⟨_, middle, skipped, reading⟩
    obtain ⟨-, rfl⟩ := skipped.functional (finds_skipTerminators start)
    rw [atEnd, finds_look_bind_iff] at reading
    split at reading
    · obtain ⟨rfl, rfl⟩ := finds_pure_iff.mp reading
      simp [*]
    · obtain ⟨statement, last, found, rest⟩ := finds_bind_iff.mp reading
      obtain ⟨rfl, rfl⟩ := finds_pure_iff.mp rest
      rw [if_neg ‹_›]
      exact ⟨statement, rfl, found⟩
  · intro reading
    refine ⟨(), _, finds_skipTerminators start, ?_⟩
    rw [atEnd, finds_look_bind_iff]
    split at reading
    · obtain ⟨rfl, rfl⟩ := reading
      rw [if_pos ‹_›]
      exact finds_pure_iff.mpr ⟨rfl, rfl⟩
    · obtain ⟨statement, rfl, found⟩ := reading
      rw [if_neg ‹_›]
      exact finds_bind_iff.mpr ⟨statement, final, found, finds_pure_iff.mpr ⟨rfl, rfl⟩⟩

/-! ## Scripts -/

section

variable (semicolon : scope.settings.terminator = ";")
include semicolon

/-- A turn that finds a statement finds it past the terminators. -/
theorem Statement.finds_of_next?_some {statement : Statement}
    (found : Statement.next?.Finds scope start (some statement) final) :
    (start.pastTerminators ";").atEnd = false ∧
      Statement.grammar.Finds scope (start.pastTerminators ";") statement final := by
  rw [Statement.finds_next?_iff, semicolon] at found
  split at found
  · simp at found
  · rename_i notEnd
    obtain ⟨_, ⟨⟩, reading⟩ := found
    exact ⟨Bool.eq_false_iff.mpr notEnd, reading⟩

theorem Statement.next?_some_of_finds {statement : Statement}
    (inside : (start.pastTerminators ";").atEnd = false)
    (found : Statement.grammar.Finds scope (start.pastTerminators ";") statement final) :
    Statement.next?.Finds scope start (some statement) final := by
  rw [Statement.finds_next?_iff, semicolon, if_neg (by simp [inside])]
  exact ⟨statement, rfl, found⟩

/-- A turn that finds no statement is at the end. -/
theorem Statement.view_of_next?_none (inside : ∀ token ∈ start.ahead, token.isEnd = false)
    (found : Statement.next?.Finds scope start none final) :
    (start.pastTerminators ";").view = [] := by
  rw [Statement.finds_next?_iff, semicolon] at found
  split at found
  · rename_i ended
    cases ahead : (start.pastTerminators ";").ahead with
    | nil => exact Cursor.view_eq_nil_iff.mpr ahead
    | cons token rest =>
        have member : token ∈ (start.pastTerminators ";").ahead := by simp [ahead]
        have notEnd := inside token (List.mem_of_mem_drop member)
        rw [Cursor.atEnd, Cursor.current_of_ahead_eq_cons ahead, notEnd] at ended
        simp at ended
  · obtain ⟨_, ⟨⟩, _⟩ := found

theorem Statement.next?_none_of_view (done : (start.pastTerminators ";").view = []) :
    ∃ final, Statement.next?.Finds scope start none final := by
  have ended : (start.pastTerminators ";").atEnd = true :=
    Cursor.isEnd_current_of_ahead_eq_nil (Cursor.view_eq_nil_iff.mp done)
  exact ⟨_, by rw [Statement.finds_next?_iff, semicolon, if_pos ended]; exact ⟨rfl, rfl⟩⟩

/-- A turn that finds a statement moves on. -/
theorem Statement.remaining_lt_of_next? {statement : Statement}
    (found : Statement.next?.Finds scope start (some statement) final) :
    final.remaining < start.remaining :=
  Nat.lt_of_lt_of_le
    (Statement.progresses_statement _ _ _ _ (Statement.finds_of_next?_some semicolon found).2)
    (Cursor.remaining_pastTerminators_le ";" start)

/-- A script goes on in the same way from every cursor past whose terminators the same lies
ahead. -/
theorem Statement.repeats_of_same_view {other : Cursor} {statements : List Statement}
    (run : Repeats Statement.next? scope start statements final)
    (inside : ∀ token ∈ start.ahead, token.isEnd = false)
    (same : (other.pastTerminators ";").view = (start.pastTerminators ";").view) :
    ∃ otherFinal, Repeats Statement.next? scope other statements otherFinal := by
  induction run generalizing other with
  | done none =>
      rw [Statement.view_of_next?_none semicolon inside none] at same
      obtain ⟨otherFinal, found⟩ := Statement.next?_none_of_view semicolon same
      exact ⟨otherFinal, .done found⟩
  | @more start middle final statement others found progress after ih =>
      obtain ⟨notEnd, reading⟩ := Statement.finds_of_next?_some semicolon found
      have extension : Cursor.Extends .nothing (start.pastTerminators ";")
          (other.pastTerminators ";") :=
        ⟨by simpa [Sequel.tokens] using same,
          fun token member => inside token (List.mem_of_mem_drop member)⟩
      obtain ⟨otherMiddle, otherReading, extended⟩ := Statement.stable_statement semicolon
        (fun _ => Sequel.ends_nothing) _ _ extension statement middle reading (.inl trivial)
      have view : otherMiddle.view = middle.view := by simpa [Sequel.tokens] using extended.view
      have otherFound := Statement.next?_some_of_finds semicolon
        (by rw [extension.atEnd (Cursor.ahead_ne_nil_of_not_atEnd notEnd), notEnd]) otherReading
      have past : (otherMiddle.pastTerminators ";").view = (middle.pastTerminators ";").view := by
        rw [Cursor.view_pastTerminators, Cursor.view_pastTerminators, view]
      obtain ⟨otherFinal, otherRun⟩ := ih extended.inside past
      exact ⟨otherFinal,
        .more otherFound (Statement.remaining_lt_of_next? semicolon otherFound) otherRun⟩
  | stuck found standstill =>
      exact absurd (Statement.remaining_lt_of_next? semicolon found) standstill

/-- The statements of two scripts with a semicolon between them. -/
theorem Statement.repeats_append {second secondFinal longer : Cursor}
    {statements others : List Statement}
    (run : Repeats Statement.next? scope start statements final)
    (extension : Cursor.Extends (.terminated second.view) start longer)
    (runSecond : Repeats Statement.next? scope second others secondFinal)
    (inside : ∀ token ∈ second.ahead, token.isEnd = false) :
    ∃ longerFinal, Repeats Statement.next? scope longer (statements ++ others) longerFinal := by
  have past {start longer : Cursor}
      (extension : Cursor.Extends (.terminated second.view) start longer) :
      (longer.pastTerminators ";").view = if (start.pastTerminators ";").view = []
        then (second.pastTerminators ";").view
        else (start.pastTerminators ";").view ++ Sequel.terminator :: second.view := by
    simp only [Cursor.view_pastTerminators, extension.view, List.dropWhile_append,
      Sequel.tokens, List.isEmpty_iff]
    rfl
  induction run generalizing longer with
  | @done start final none =>
      refine Statement.repeats_of_same_view semicolon runSecond inside ?_
      rw [past extension, if_pos (Statement.view_of_next?_none semicolon extension.inside none)]
  | @more start middle final statement statements found progress after ih =>
      obtain ⟨notEnd, reading⟩ := Statement.finds_of_next?_some semicolon found
      have more := Cursor.ahead_ne_nil_of_not_atEnd notEnd
      have pastExtension : Cursor.Extends (.terminated second.view) (start.pastTerminators ";")
          (longer.pastTerminators ";") := by
        constructor
        · rw [past extension, if_neg (fun done => more (Cursor.view_eq_nil_iff.mp done))]
          rfl
        · exact fun token member => extension.inside token (List.mem_of_mem_drop member)
      obtain ⟨longerMiddle, longerReading, extended⟩ := Statement.stable_statement semicolon
        (fun _ => Sequel.ends_terminated _) _ _ pastExtension statement middle reading
        (.inl trivial)
      have longerFound := Statement.next?_some_of_finds semicolon
        (by rw [pastExtension.atEnd more, notEnd]) longerReading
      obtain ⟨longerFinal, longerRun⟩ := ih extended
      exact ⟨longerFinal,
        .more longerFound (Statement.remaining_lt_of_next? semicolon longerFound) longerRun⟩
  | stuck found standstill =>
      exact absurd (Statement.remaining_lt_of_next? semicolon found) standstill

end

/-- The tokens of two texts with a semicolon on a line of its own between them. -/
theorem Lexer.lexes_script {first second : String} {tokens others : List Token}
    (lexesFirst : Lexer.Lexes false first.toList tokens [])
    (lexesSecond : Lexer.Lexes false second.toList others []) :
    Lexer.Lexes false (first ++ "\n;\n" ++ second).toList
      (tokens ++ Sequel.terminator :: others) [] := by
  have text : (first ++ "\n;\n" ++ second).toList =
      first.toList ++ '\n' :: ';' :: '\n' :: second.toList := by
    simp
  rw [text]
  refine (lexesFirst.append_line _).append ?_
  have between : Lexer.Lexes (Lexer.operandAfter false tokens)
      ('\n' :: ';' :: '\n' :: second.toList) [Sequel.terminator] second.toList := by
    have mark {operand : Bool} : Lexer.Step operand (';' :: '\n' :: second.toList)
        [Sequel.terminator] ('\n' :: second.toList) :=
      .mark (by decide) (by simp) (by simp) (by simp)
    have blank {operand : Bool} {rest : List Char} : Lexer.Step operand ('\n' :: rest) [] rest :=
      .blank (by decide)
    exact .step blank (.step mark (.single blank))
  exact between.append lexesSecond

/-- Two scripts with a semicolon on a line of its own between them are one script, of the statements
of the first and then those of the second. -/
theorem Statement.parseScript_append {strictConstraints : Bool} {first second : String}
    {statements others : List Statement}
    (readFirst : Statement.parseScript ⟨";", strictConstraints⟩ first = .ok statements)
    (readSecond : Statement.parseScript ⟨";", strictConstraints⟩ second = .ok others) :
    Statement.parseScript ⟨";", strictConstraints⟩ (first ++ "\n;\n" ++ second) =
      .ok (statements ++ others) := by
  obtain ⟨start, final, lexes, found⟩ := exists_finds_of_parse readFirst
  obtain ⟨startSecond, finalSecond, lexesSecond, foundSecond⟩ := exists_finds_of_parse readSecond
  refine parse_of_finds (Lexer.lexes_script lexes lexesSecond) fun longer view => ?_
  have inside : ∀ token ∈ start.ahead, token.isEnd = false := fun token member =>
    lexes.isEnd_eq_false token.placeless (List.mem_map_of_mem member)
  have insideSecond : ∀ token ∈ startSecond.ahead, token.isEnd = false := fun token member =>
    lexesSecond.isEnd_eq_false token.placeless (List.mem_map_of_mem member)
  obtain ⟨longerFinal, run⟩ := Statement.repeats_append rfl (repeats_of_finds_many found)
    ⟨view, inside⟩ (repeats_of_finds_many foundSecond) insideSecond
  exact ⟨longerFinal, finds_many_of_repeats run⟩

/-- The clauses of an alteration end at the semicolon as they end with the text, and a comment at the
end of the first script ends with its line. -/
theorem Statement.parseScript_append_alterations :
    Statement.parseScript ⟨";", true⟩ "ALTER TABLE a DROP COLUMN b, # and so on" =
        .ok [.alterTable ⟨"a", [⟨.column, .drop, .name "b", []⟩], none⟩] ∧
      Statement.parseScript ⟨";", true⟩ "ALTER TABLE a RENAME TO c" =
        .ok [.alterTable ⟨"a", [⟨.table, .rename, .name "c", []⟩], none⟩] ∧
      Statement.parseScript ⟨";", true⟩
          ("ALTER TABLE a DROP COLUMN b, # and so on" ++ "\n;\n" ++ "ALTER TABLE a RENAME TO c") =
        .ok ([.alterTable ⟨"a", [⟨.column, .drop, .name "b", []⟩], none⟩] ++
          [.alterTable ⟨"a", [⟨.table, .rename, .name "c", []⟩], none⟩]) :=
  ⟨eq_ok_of_toOption (by decide +kernel), eq_ok_of_toOption (by decide +kernel),
    Statement.parseScript_append (eq_ok_of_toOption (by decide +kernel))
      (eq_ok_of_toOption (by decide +kernel))⟩

end TableDdl
