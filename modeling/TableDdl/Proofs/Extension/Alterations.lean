import TableDdl.Proofs.Extension.Continuation

/-!
# Statements that are followed by more

A word that begins another statement follows a statement that was read to the end of its sequence.
An alteration goes on as its last clause does, unless a comma or a partitioning follows that: then
it is over, and so the word is refused. A table goes on with its options.
-/

namespace TableDdl

open Grammar

variable {left sequel : Sequel} {scope : Scope} {shorter longer start final : Cursor}

/-! ## The word that begins the other statement -/

/-- At the end of the shorter sequence, the longer one shows the word that begins something new. -/
theorem Cursor.Extends.opener (extension : Cursor.Extends sequel shorter longer)
    (noEnd : ¬ sequel.Ends) (done : shorter.ahead = []) :
    ∃ word, Text.upper word ∈ Sequel.openers ∧ longer.current.placeless = .bare .word word := by
  have view := extension.view_at_end done
  cases sequel with
  | nothing | terminated => exact absurd trivial noEnd
  | continued word opens more => exact ⟨word, opens, placeless_current_of_view_eq_cons view⟩

theorem not_atTerminator_of_opener {word : String} (opens : Text.upper word ∈ Sequel.openers)
    (current : start.current.placeless = .bare .word word) :
    (start.atEnd || start.current.spells ";") = false := by
  have other : Text.upper word ≠ Text.upper ";" := fun same =>
    absurd (same ▸ opens) (by decide)
  rw [Cursor.atEnd, ← Token.isEnd_placeless, ← Token.spells_placeless, current]
  simp [Token.isEnd, Token.spells, Text.sameWord, other]

/-- No clause begins with the word. -/
theorem AlterOption.not_finds_of_opener (extension : Cursor.Extends sequel shorter longer)
    (noEnd : ¬ sequel.Ends) (done : shorter.ahead = []) {option : AlterOption} :
    ¬ AlterOption.grammar.Finds scope longer option final := by
  intro found
  obtain ⟨word, opens, current⟩ := extension.opener noEnd done
  have keyword : longer.current.keyword? = some (Text.upper word) := by
    rw [← Token.keyword?_placeless, current]
    rfl
  have noOption : TableOption.options.Finds scope longer [] longer := by
    have ended := Token.keyword?_of_isEnd (Cursor.isEnd_current_of_ahead_eq_nil done)
    have starts := TableOption.startsAt_extends extension
    simp only [TableOption.startsAt, ended] at starts
    refine finds_many_of_repeats (.done ?_)
    rw [TableOption.atStart, finds_look_bind_iff, TableOption.startsAt, starts]
    simp
  obtain ⟨options, middle, before, after⟩ := finds_bind_iff.mp found
  obtain ⟨-, rfl⟩ := before.functional noOption
  obtain ⟨action, last, read, -⟩ := finds_bind_iff.mp after
  have noAction : ∀ word ∈ Sequel.openers,
      AlterAction.all.find? (fun action => some word = some action.keyword) = none := by decide
  rw [readAction, keyword?, finds_look_bind_iff, keyword, noAction _ opens] at read
  exact finds_refuse_iff.mp read

/-! ## Clauses -/

namespace AlterTable

/-- The clauses are over at the cursor. -/
def endsClauses (scope : Scope) (cursor : Cursor) : Bool :=
  (cursor.atEnd || cursor.current.spells scope.settings.terminator) ||
    cursor.current.spells "PARTITION"

theorem finds_atClausesEnd_bind_iff {β : Type} {second : Bool → Grammar β} {value : β} :
    (atClausesEnd >>= second).Finds scope start value final ↔
      (second (endsClauses scope start)).Finds scope start value final := by
  simp only [atClausesEnd, atTerminator, sees]
  rw [finds_bind_iff]
  simp [endsClauses, finds_look_bind_iff, and_assoc]

theorem endsClauses_inside (extension : Cursor.Extends sequel shorter longer)
    (more : shorter.ahead ≠ []) : endsClauses scope longer = endsClauses scope shorter := by
  simp only [endsClauses, extension.atEnd more, extension.spells_inside more]

theorem endsClauses_at_end (done : start.ahead = []) : endsClauses scope start = true := by
  have ended : start.atEnd = true := Cursor.isEnd_current_of_ahead_eq_nil done
  simp [endsClauses, ended]

theorem endsClauses_of_opener (semicolon : scope.settings.terminator = ";")
    (extension : Cursor.Extends sequel shorter longer) (noEnd : ¬ sequel.Ends)
    (done : shorter.ahead = []) : endsClauses scope longer = false := by
  obtain ⟨word, opens, current⟩ := extension.opener noEnd done
  have noPartition : longer.current.spells "PARTITION" = false := by
    rw [extension.spells (by decide),
      Token.spells_of_isEnd (Cursor.isEnd_current_of_ahead_eq_nil done)]
  rw [endsClauses, semicolon, not_atTerminator_of_opener opens current, noPartition]
  rfl

/-- Reads a comma and a clause after it, if there is one. -/
def laterClause? : Grammar (Option AlterOption) := do
  if ← consume "," then
    if ← atClausesEnd then return none else return some (← AlterOption.grammar)
  else
    return none

theorem finds_laterClause?_iff {found : Option AlterOption} :
    laterClause?.Finds scope start found final ↔
      if start.current.spells "," then
        if endsClauses scope start.advance then none = found ∧ start.advance = final
        else ∃ option, some option = found ∧
          AlterOption.grammar.Finds scope start.advance option final
      else none = found ∧ start = final := by
  rw [laterClause?, finds_consume_ite_iff]
  split
  · rw [finds_atClausesEnd_bind_iff]
    split
    · exact finds_pure_iff
    · rw [finds_bind_iff]
      simp only [finds_pure_iff]
      constructor
      · rintro ⟨option, middle, reading, rfl, rfl⟩
        exact ⟨option, rfl, reading⟩
      · rintro ⟨option, rfl, reading⟩
        exact ⟨option, final, reading, rfl, rfl⟩
  · exact finds_pure_iff

theorem finds_laterClause?_some_iff {option : AlterOption} :
    laterClause?.Finds scope start (some option) final ↔
      start.current.spells "," = true ∧ endsClauses scope start.advance = false ∧
        AlterOption.grammar.Finds scope start.advance option final := by
  rw [finds_laterClause?_iff]
  split
  · split <;> simp_all
  · simp_all

theorem progresses_laterClause? {option : AlterOption}
    (found : laterClause?.Finds scope start (some option) final) :
    final.remaining < start.remaining :=
  Nat.lt_of_lt_of_le
    (AlterOption.progresses_alterOption _ _ _ _ (finds_laterClause?_some_iff.mp found).2.2)
    (Cursor.Reaches.advance start).remaining_le

/-- On the longer sequence a further clause has to follow the same comma. -/
theorem finds_laterClause?_longer_iff {option : AlterOption} {found : Option AlterOption}
    {finalLonger : Cursor} (later : laterClause?.Finds scope shorter (some option) final)
    (extension : Cursor.Extends sequel shorter longer) :
    laterClause?.Finds scope longer found finalLonger ↔ ∃ value, some value = found ∧
      AlterOption.grammar.Finds scope longer.advance value finalLonger := by
  obtain ⟨comma, inside, here⟩ := finds_laterClause?_some_iff.mp later
  have more := Cursor.ahead_ne_nil_of_spells comma
  have next : endsClauses scope longer.advance = endsClauses scope shorter.advance :=
    endsClauses_inside (extension.advance more)
      (AlterOption.progresses_alterOption.ahead_ne_nil here)
  rw [finds_laterClause?_iff, extension.spells_inside more, if_pos comma, next,
    if_neg (by simp [inside])]

/-- Without a comma there is no further clause. -/
theorem laterClause?_none (noComma : start.current.spells "," = false) :
    laterClause?.Finds scope start none start := by
  rw [finds_laterClause?_iff, if_neg (by simp [noComma])]
  exact ⟨rfl, rfl⟩

theorem not_spells_comma_at_end (done : start.ahead = []) :
    start.current.spells "," = false :=
  Token.spells_of_isEnd (Cursor.isEnd_current_of_ahead_eq_nil done) _

/-- After a comma with which the shorter sequence ended, the sequel is refused. -/
theorem not_repeats_after_comma (semicolon : scope.settings.terminator = ";")
    (noEnd : ¬ sequel.Ends) (comma : shorter.current.spells "," = true)
    (done : shorter.advance.ahead = []) (extension : Cursor.Extends sequel shorter longer)
    {others : List AlterOption} : ¬ Repeats laterClause? scope longer others final := by
  have more := Cursor.ahead_ne_nil_of_spells comma
  have next := extension.advance more
  have none {found : Option AlterOption} {final : Cursor} :
      ¬ laterClause?.Finds scope longer found final := by
    rw [finds_laterClause?_iff, extension.spells_inside more, if_pos comma,
      if_neg (by simp [endsClauses_of_opener semicolon next noEnd done])]
    rintro ⟨option, -, found⟩
    exact AlterOption.not_finds_of_opener next noEnd done found
  intro run
  cases run with
  | done found => exact none found
  | more found => exact none found
  | stuck found => exact none found

section

variable {accepted : AlterOption → Prop} {others : List AlterOption}

/-- The clauses after the first one go on over the sequel, or end before it, as the last of them
does; or else the shorter sequence ended with a comma, and the sequel is refused. -/
def LaterContinue (left : Sequel) (scope : Scope) (shorter longer : Cursor)
    (others : List AlterOption) (final : Cursor) : Prop :=
  (∃ finalLonger, Repeats laterClause? scope longer others finalLonger ∧
      Cursor.Extends left final finalLonger) ∨
    (shorter.EndsInComma ∧
      ∀ values finalLonger, ¬ Repeats laterClause? scope longer values finalLonger)

/-- A clause and those after it, if the latter are known. -/
theorem continue_clause (clause : Continues left accepted sequel scope AlterOption.grammar)
    {option : AlterOption} {middle : Cursor}
    (found : AlterOption.grammar.Finds scope shorter option middle)
    (run : Repeats laterClause? scope middle others final)
    (extension : Cursor.Extends sequel shorter longer)
    (last : ¬ shorter.EndsInComma → ∀ among ∈ (option :: others).getLast?, accepted among)
    (there : middle.ahead ≠ [] → ∀ middleLonger, Cursor.Extends sequel middle middleLonger →
      (¬ middle.EndsInComma → ∀ among ∈ others.getLast?, accepted among) →
        LaterContinue left scope middle middleLonger others final) :
    (∃ middleLonger finalLonger, AlterOption.grammar.Finds scope longer option middleLonger ∧
        Repeats laterClause? scope middleLonger others finalLonger ∧
          Cursor.Extends left final finalLonger) ∨
      (shorter.EndsInComma ∧ ∀ value middleLonger values finalLonger,
        AlterOption.grammar.Finds scope longer value middleLonger →
          ¬ Repeats laterClause? scope middleLonger values finalLonger) := by
  by_cases ended : middle.ahead = []
  · -- This is the last clause, and it is not followed by a comma.
    obtain ⟨rfl, rfl⟩ := run.of_none (laterClause?_none (not_spells_comma_at_end ended))
    have noComma : ¬ shorter.EndsInComma := fun ends =>
      (AlterOption.spares_alterOption _ _ _ _ found ends).ahead_ne_nil ended
    obtain ⟨finalLonger, foundLonger, continued⟩ :=
      clause _ _ _ _ extension found (last noComma option (by simp)) ended
    refine .inl ⟨finalLonger, finalLonger, foundLonger, .done (laterClause?_none ?_), continued⟩
    rw [continued.spells (by decide), not_spells_comma_at_end ended]
  · obtain ⟨middleLonger, foundLonger, extended⟩ :=
      AlterOption.stable_alterOption False.elim _ _ extension _ _ found (.inr ended)
    have sameEnd : shorter.EndsInComma ↔ middle.EndsInComma :=
      Cursor.EndsInComma.iff_of_reaches found.reaches ended
    have lastThere (noComma : ¬ middle.EndsInComma) :
        ∀ among ∈ others.getLast?, accepted among := by
      intro among member
      refine last (fun ends => noComma (sameEnd.mp ends)) among ?_
      rw [List.getLast?_cons, Option.mem_def.mp member]
      rfl
    rcases there ended middleLonger extended lastThere with
      ⟨finalLonger, runLonger, continued⟩ | ⟨ends, none⟩
    · exact .inl ⟨middleLonger, finalLonger, foundLonger, runLonger, continued⟩
    · refine .inr ⟨sameEnd.mpr ends, fun value middleOther values finalLonger foundOther => ?_⟩
      obtain ⟨-, rfl⟩ := foundOther.functional foundLonger
      exact none values finalLonger

variable (semicolon : scope.settings.terminator = ";") (noEnd : ¬ sequel.Ends)
  (clause : Continues left accepted sequel scope AlterOption.grammar)
include semicolon noEnd clause

theorem continue_laterClauses (run : Repeats laterClause? scope shorter others final)
    (done : final.ahead = []) (more : shorter.ahead ≠ [])
    (extension : Cursor.Extends sequel shorter longer)
    (commas : ∀ token ∈ shorter.ahead, token.spells "," = true → token.placeless = Token.comma)
    (last : ¬ shorter.EndsInComma → ∀ among ∈ others.getLast?, accepted among) :
    LaterContinue left scope shorter longer others final := by
  induction run generalizing longer with
  | @done shorter final none =>
      rw [finds_laterClause?_iff] at none
      split at none
      · rename_i comma
        split at none
        · obtain ⟨-, rfl⟩ := none
          refine .inr ⟨?_, fun _ _ => not_repeats_after_comma semicolon noEnd comma done extension⟩
          obtain ⟨token, rest, ahead⟩ := List.exists_cons_of_ne_nil more
          obtain rfl : rest = [] := by simpa [Cursor.advance, ahead] using done
          rw [Cursor.current_of_ahead_eq_cons ahead] at comma
          simp [Cursor.EndsInComma, Cursor.view, ahead, commas token (by simp [ahead]) comma]
        · obtain ⟨_, ⟨⟩, _⟩ := none
      · obtain ⟨-, rfl⟩ := none
        exact absurd done more
  | @more shorter middle final option others later progress after ih =>
      obtain ⟨comma, -, found⟩ := finds_laterClause?_some_iff.mp later
      have sameEnd : shorter.EndsInComma ↔ shorter.advance.EndsInComma :=
        Cursor.EndsInComma.iff_of_reaches (.advance shorter)
          (AlterOption.progresses_alterOption.ahead_ne_nil found)
      rcases continue_clause clause found after (extension.advance more)
        (fun noComma => last fun ends => noComma (sameEnd.mp ends))
        (fun more middleLonger extended => ih done more extended fun token member =>
          commas token (later.reaches.ahead.mem member)) with
        ⟨middleLonger, finalLonger, foundLonger, runLonger, continued⟩ | ⟨ends, none⟩
      · have laterLonger :=
          (finds_laterClause?_longer_iff later extension).mpr ⟨option, rfl, foundLonger⟩
        exact .inl ⟨finalLonger, .more laterLonger (progresses_laterClause? laterLonger) runLonger,
          continued⟩
      · refine .inr ⟨sameEnd.mpr ends, fun values finalLonger run => ?_⟩
        cases run with
        | done found =>
            obtain ⟨_, ⟨⟩, _⟩ := (finds_laterClause?_longer_iff later extension).mp found
        | more found _ run =>
            obtain ⟨value, -, foundLonger⟩ :=
              (finds_laterClause?_longer_iff later extension).mp found
            exact none value _ _ finalLonger foundLonger run
        | stuck found standstill => exact standstill (progresses_laterClause? found)
  | stuck later standstill => exact absurd (progresses_laterClause? later) standstill

end

theorem finds_clauses_iff {options : List AlterOption} :
    clauses.Finds scope start options final ↔
      if endsClauses scope start then [] = options ∧ start = final
      else ∃ first others middle, first :: others = options ∧
        AlterOption.grammar.Finds scope start first middle ∧
          Repeats laterClause? scope middle others final := by
  rw [clauses, finds_atClausesEnd_bind_iff]
  split
  · exact finds_pure_iff
  · constructor
    · intro found
      obtain ⟨first, middle, before, after⟩ := finds_bind_iff.mp found
      obtain ⟨others, last, run, reading⟩ := finds_bind_iff.mp after
      obtain ⟨same, rfl⟩ := finds_pure_iff.mp reading
      exact ⟨first, others, middle, same, before, repeats_of_finds_many run⟩
    · rintro ⟨first, others, middle, rfl, before, run⟩
      refine finds_bind_iff.mpr ⟨first, middle, before, finds_bind_iff.mpr ⟨others, final, ?_, ?_⟩⟩
      · exact finds_many_of_repeats run
      · exact finds_pure_iff.mpr ⟨rfl, rfl⟩

/-- All clauses of an alteration, as the ones after the first one. -/
theorem continue_clauses (semicolon : scope.settings.terminator = ";")
    (noEnd : ¬ sequel.Ends) {accepted : AlterOption → Prop}
    (clause : Continues left accepted sequel scope AlterOption.grammar)
    {options : List AlterOption} (found : clauses.Finds scope shorter options final)
    (done : final.ahead = []) (nonempty : options ≠ [])
    (extension : Cursor.Extends sequel shorter longer)
    (commas : ∀ token ∈ shorter.ahead, token.spells "," = true → token.placeless = Token.comma)
    (last : ¬ shorter.EndsInComma → ∀ among ∈ options.getLast?, accepted among) :
    (∃ finalLonger, clauses.Finds scope longer options finalLonger ∧
        Cursor.Extends left final finalLonger) ∨
      (shorter.EndsInComma ∧
        ∀ values finalLonger, ¬ clauses.Finds scope longer values finalLonger) := by
  rw [finds_clauses_iff] at found
  split at found
  · exact absurd found.1.symm nonempty
  rename_i inside
  obtain ⟨first, others, middle, rfl, before, run⟩ := found
  have more := AlterOption.progresses_alterOption.ahead_ne_nil before
  have insideLonger : ¬ endsClauses scope longer = true := by
    rwa [endsClauses_inside extension more]
  simp only [finds_clauses_iff, if_neg insideLonger]
  rcases continue_clause clause before run extension last (fun more middleLonger extended =>
    continue_laterClauses semicolon noEnd clause run done more extended fun token member =>
      commas token (before.reaches.ahead.mem member)) with
    ⟨middleLonger, finalLonger, foundLonger, runLonger, continued⟩ | ⟨ends, none⟩
  · exact .inl ⟨finalLonger, ⟨first, others, middleLonger, rfl, foundLonger, runLonger⟩, continued⟩
  · refine .inr ⟨ends, ?_⟩
    rintro values finalLonger ⟨value, rest, middleLonger, -, foundLonger, runLonger⟩
    exact none value middleLonger rest finalLonger foundLonger runLonger

/-! ## Alterations -/

/-- What follows the alteration belongs to its last clause. -/
def IsOpen (alteration : AlterTable) : Prop :=
  alteration.partitioning = none ∧ ∃ option ∈ alteration.options.getLast?, option.payload.IsOpen

/-- Reads the end of an alteration. -/
def ending (alteration : AlterTable) : Grammar AlterTable := do
  unless ← atTerminator do refuse (.expected "\",\" or end of ALTER TABLE statement")
  if alteration.options.isEmpty && alteration.partitioning.isNone then
    refuse (.expected "ALTER TABLE clause")
  return alteration

theorem finds_ending_iff {alteration found : AlterTable} :
    (ending alteration).Finds scope start found final ↔
      (start.atEnd || start.current.spells scope.settings.terminator) = true ∧
        (alteration.options.isEmpty && alteration.partitioning.isNone) = false ∧
          alteration = found ∧ start = final := by
  rw [ending, atTerminator, finds_look_bind_iff]
  cases start.atEnd || start.current.spells scope.settings.terminator with
  | false => simp
  | true =>
      cases alteration.options.isEmpty && alteration.partitioning.isNone with
      | false => simp
      | true => simp

/-- Reads what follows the clauses. -/
def afterClauses (tableName : String) (options : List AlterOption) : Grammar AlterTable := do
  let partitioning ← if ← sees "PARTITION" then some <$> Partitioning.grammar else pure none
  ending ⟨tableName, options, partitioning⟩

theorem finds_afterClauses_iff {tableName : String} {options : List AlterOption}
    {alteration : AlterTable} :
    (afterClauses tableName options).Finds scope start alteration final ↔
      if start.current.spells "PARTITION" then
        ∃ partitioning middle, Partitioning.grammar.Finds scope start partitioning middle ∧
          (ending ⟨tableName, options, some partitioning⟩).Finds scope middle alteration final
      else (ending ⟨tableName, options, none⟩).Finds scope start alteration final := by
  rw [afterClauses, finds_sees_ite_iff]
  split
  · constructor
    · intro found
      obtain ⟨partitioning, middle, before, after⟩ := finds_bind_iff.mp found
      obtain ⟨read, last, reading, kept⟩ := finds_bind_iff.mp before
      obtain ⟨rfl, rfl⟩ := finds_pure_iff.mp kept
      exact ⟨read, last, reading, after⟩
    · rintro ⟨partitioning, middle, reading, after⟩
      refine finds_bind_iff.mpr ⟨some partitioning, middle, finds_bind_iff.mpr ?_, after⟩
      exact ⟨partitioning, middle, reading, finds_pure_iff.mpr ⟨rfl, rfl⟩⟩
  · exact finds_pure_bind_iff

theorem finds_alterTable_iff {alteration : AlterTable} :
    AlterTable.grammar.Finds scope start alteration final ↔
      start.current.spells "ALTER" = true ∧ start.next.spells "TABLE" = true ∧
        ∃ tableName named options middle,
          Grammar.name.Finds scope start.advance.advance tableName named ∧
          (withStops [scope.settings.terminator, "PARTITION"] clauses).Finds scope named options
            middle ∧
          (afterClauses tableName options).Finds scope middle alteration final := by
  rw [AlterTable.grammar, finds_expect_bind_iff, finds_expect_bind_iff, finds_bind_iff]
  refine and_congr_right fun _ => and_congr_right fun _ => exists_congr fun tableName =>
    exists_congr fun named => ?_
  rw [settings, finds_look_bind_iff, finds_bind_iff]
  constructor
  · rintro ⟨reads, options, middle, found, after⟩
    exact ⟨options, middle, reads, found, after⟩
  · rintro ⟨options, middle, reads, found, after⟩
    exact ⟨reads, options, middle, found, after⟩

theorem not_finds_ending_of_opener (semicolon : scope.settings.terminator = ";")
    (noEnd : ¬ sequel.Ends) (done : shorter.ahead = [])
    (extension : Cursor.Extends sequel shorter longer) {alteration found : AlterTable} :
    ¬ (ending alteration).Finds scope longer found final := by
  rw [finds_ending_iff, semicolon]
  obtain ⟨word, opens, current⟩ := extension.opener noEnd done
  simp [not_atTerminator_of_opener opens current]

/-- The clauses and the end of an alteration, in the scope of its statement. -/
def body (scope : Scope) (tableName : String) : Grammar AlterTable := do
  let options ← withStops [scope.settings.terminator, "PARTITION"] clauses
  afterClauses tableName options

/-- The scope in which clauses are read. -/
def clausesScope (scope : Scope) : Scope :=
  { scope with stops := scope.stops.adding [scope.settings.terminator, "PARTITION"] }

/-- An alteration does not end with the name of the table. -/
theorem ahead_ne_nil_of_body {tableName : String} {alteration : AlterTable}
    (found : (body scope tableName).Finds scope start alteration final) : start.ahead ≠ [] := by
  intro done
  have noPartition : ¬ start.current.spells "PARTITION" = true := by
    simp [Token.spells_of_isEnd (Cursor.isEnd_current_of_ahead_eq_nil done)]
  obtain ⟨options, middle, clauses, after⟩ := finds_bind_iff.mp found
  rw [finds_withStops_iff, finds_clauses_iff, if_pos (endsClauses_at_end done)] at clauses
  obtain ⟨rfl, rfl⟩ := clauses
  rw [finds_afterClauses_iff, if_neg noPartition, finds_ending_iff] at after
  exact absurd after.2.1 (by simp)

/-- On the longer sequence, the name of the table is the same. -/
theorem finds_body_of_finds {alteration : AlterTable}
    (found : AlterTable.grammar.Finds scope shorter alteration final)
    (extension : Cursor.Extends sequel shorter longer) :
    ∃ tableName named namedLonger, shorter.Reaches named ∧
      Cursor.Extends sequel named namedLonger ∧
      (body scope tableName).Finds scope named alteration final ∧
      ∀ other otherFinal, AlterTable.grammar.Finds scope longer other otherFinal ↔
        (body scope tableName).Finds scope namedLonger other otherFinal := by
  obtain ⟨alter, table, tableName, named, options, middle, reads, found, after⟩ :=
    finds_alterTable_iff.mp found
  have more := Cursor.ahead_ne_nil_of_spells alter
  have moreNext := Cursor.ahead_ne_nil_of_spells table
  have next := extension.advance more
  obtain ⟨namedLonger, readsLonger, extended⟩ :=
    stable_name _ _ (next.advance moreNext) _ _ reads (.inl trivial)
  refine ⟨tableName, named, namedLonger, ?_, extended, ?_, fun other otherFinal => ?_⟩
  · exact ((Cursor.Reaches.advance shorter).trans (.advance _)).trans reads.reaches
  · exact finds_bind_iff.mpr ⟨options, middle, found, after⟩
  · rw [finds_alterTable_iff, body, finds_bind_iff, extension.spells_inside more,
      Cursor.next, next.spells_inside moreNext]
    constructor
    · rintro ⟨-, -, otherName, otherNamed, otherOptions, otherMiddle, otherReads, otherRest⟩
      obtain ⟨rfl, rfl⟩ := otherReads.functional readsLonger
      exact ⟨otherOptions, otherMiddle, otherRest⟩
    · rintro ⟨otherOptions, otherMiddle, otherRest⟩
      exact ⟨alter, table, tableName, namedLonger, otherOptions, otherMiddle, readsLonger,
        otherRest⟩

section

variable (semicolon : scope.settings.terminator = ";") (noEnd : ¬ sequel.Ends)
  {tableName : String} {alteration : AlterTable}
  (found : (body scope tableName).Finds scope shorter alteration final) (done : final.ahead = [])
  (extension : Cursor.Extends sequel shorter longer)
include semicolon noEnd found done extension

/-- Nothing can follow a partitioning. -/
theorem not_finds_of_partitioned (partitioned : alteration.partitioning ≠ none)
    {other : AlterTable} {otherFinal : Cursor} :
    ¬ (body scope tableName).Finds scope longer other otherFinal := by
  intro foundLonger
  obtain ⟨options, middle, clauses, after⟩ := finds_bind_iff.mp found
  obtain ⟨otherOptions, otherMiddle, otherClauses, otherAfter⟩ := finds_bind_iff.mp foundLonger
  rw [finds_afterClauses_iff] at after otherAfter
  split at after
  · rename_i partition
    have more := Cursor.ahead_ne_nil_of_spells partition
    obtain ⟨middleLonger, clausesLonger, extended⟩ := stable_withStops (stable_clauses
      semicolon False.elim False.elim) _ _ extension _ _ clauses (.inr more)
    obtain ⟨-, rfl⟩ := otherClauses.functional clausesLonger
    rw [extended.spells_inside more, if_pos partition] at otherAfter
    obtain ⟨partitioning, last, reading, ending⟩ := after
    obtain ⟨-, -, -, rfl⟩ := finds_ending_iff.mp ending
    obtain ⟨lastLonger, readingLonger, extendedLast⟩ :=
      Partitioning.stable_partitioning _ _ extended _ _ reading (.inl trivial)
    obtain ⟨_, _, otherReading, otherEnding⟩ := otherAfter
    obtain ⟨-, rfl⟩ := otherReading.functional readingLonger
    exact not_finds_ending_of_opener semicolon noEnd done extendedLast otherEnding
  · obtain ⟨-, -, rfl, -⟩ := finds_ending_iff.mp after
    exact absurd rfl partitioned

/-- Without a partitioning, an alteration goes on as its last clause does. -/
theorem continue_body (none : alteration.partitioning = none)
    {accepted : AlterOption → Prop}
    (clause : Continues left accepted sequel (clausesScope scope) AlterOption.grammar)
    (commas : ∀ token ∈ shorter.ahead, token.spells "," = true → token.placeless = Token.comma)
    (last : ¬ shorter.EndsInComma → ∀ option ∈ alteration.options.getLast?, accepted option) :
    (∃ finalLonger, Cursor.Extends left final finalLonger ∧
        ∀ other otherFinal, (body scope tableName).Finds scope longer other otherFinal ↔
          (ending alteration).Finds scope finalLonger other otherFinal) ∨
      (shorter.EndsInComma ∧ ∀ other otherFinal,
        ¬ (body scope tableName).Finds scope longer other otherFinal) := by
  obtain ⟨options, middle, clauses, after⟩ := finds_bind_iff.mp found
  rw [finds_afterClauses_iff] at after
  split at after
  · obtain ⟨partitioning, _, -, ending⟩ := after
    obtain ⟨-, -, rfl, -⟩ := finds_ending_iff.mp ending
    exact absurd none nofun
  rename_i noPartition
  obtain ⟨-, nonempty, rfl, rfl⟩ := finds_ending_iff.mp after
  have nonempty : options ≠ [] := by simpa using nonempty
  have inside : (clausesScope scope).settings.terminator = ";" := semicolon
  rcases continue_clauses inside noEnd clause clauses done nonempty extension commas last with
    ⟨finalLonger, clausesLonger, continued⟩ | ⟨ends, refused⟩
  · refine .inl ⟨finalLonger, continued, fun other otherFinal => ?_⟩
    have noPartitionLonger : ¬ finalLonger.current.spells "PARTITION" = true := by
      rwa [continued.spells (by decide)]
    rw [body, finds_bind_iff]
    constructor
    · rintro ⟨otherOptions, otherMiddle, otherClauses, otherAfter⟩
      obtain ⟨rfl, rfl⟩ := otherClauses.functional clausesLonger
      rwa [finds_afterClauses_iff, if_neg noPartitionLonger] at otherAfter
    · intro ending
      refine ⟨options, finalLonger, clausesLonger, ?_⟩
      rwa [finds_afterClauses_iff, if_neg noPartitionLonger]
  · refine .inr ⟨ends, fun other otherFinal foundLonger => ?_⟩
    obtain ⟨otherOptions, otherMiddle, otherClauses, -⟩ := finds_bind_iff.mp foundLonger
    exact refused otherOptions otherMiddle otherClauses

end

section

variable (semicolon : scope.settings.terminator = ";") (noEnd : ¬ sequel.Ends)
  {alteration : AlterTable} (found : AlterTable.grammar.Finds scope shorter alteration final)
  (done : final.ahead = []) (extension : Cursor.Extends sequel shorter longer)
  (commas : ∀ token ∈ shorter.ahead, token.spells "," = true → token.placeless = Token.comma)
include semicolon noEnd found done extension commas

/-- Nothing can follow an alteration that is not open. -/
theorem not_finds_of_closed (closed : alteration.IsOpen → shorter.EndsInComma)
    {other : AlterTable} {otherFinal : Cursor} :
    ¬ AlterTable.grammar.Finds scope longer other otherFinal := by
  obtain ⟨tableName, named, namedLonger, reaches, extended, body, same⟩ :=
    finds_body_of_finds found extension
  rw [same]
  by_cases none : alteration.partitioning = none
  · have commasThere := fun token member => commas token (reaches.ahead.mem member)
    have last (noComma : ¬ named.EndsInComma) :
        ∀ option ∈ alteration.options.getLast?, ¬ option.payload.IsOpen := by
      intro option member isOpen
      exact noComma ((closed ⟨none, option, member, isOpen⟩).of_reaches reaches
        (ahead_ne_nil_of_body body))
    rcases continue_body semicolon noEnd body done extended none
      AlterOption.continues_alterOption_closed commasThere last with
      ⟨finalLonger, continued, same⟩ | ⟨-, refused⟩
    · rw [same]
      exact not_finds_ending_of_opener semicolon noEnd done continued
    · exact refused other otherFinal
  · exact not_finds_of_partitioned semicolon noEnd body done extended none

/-- An open alteration without a comma at its end takes in an idle sequel. -/
theorem finds_of_open (isOpen : alteration.IsOpen) (noComma : ¬ shorter.EndsInComma)
    (idle : sequel.Idle) (busy : scope.stops.AreBusy) :
    ∃ finalLonger, AlterTable.grammar.Finds scope longer alteration finalLonger ∧
      finalLonger.ahead = [] := by
  obtain ⟨tableName, named, namedLonger, reaches, extended, body, same⟩ :=
    finds_body_of_finds found extension
  obtain ⟨none, last, member, lastOpen⟩ := isOpen
  have clause : Continues .nothing (fun option => option.payload.IsOpen) sequel (clausesScope scope)
      AlterOption.grammar :=
    AlterOption.continues_alterOption_open idle (busy.adding (by rw [semicolon]; decide))
  have commasThere := fun token member => commas token (reaches.ahead.mem member)
  have lastThere (_ : ¬ named.EndsInComma) :
      ∀ option ∈ alteration.options.getLast?, option.payload.IsOpen := by
    intro option among
    obtain rfl : last = option := Option.mem_unique member among
    exact lastOpen
  rcases continue_body semicolon noEnd body done extended none clause commasThere lastThere with
    ⟨finalLonger, continued, sameEnding⟩ | ⟨ends, -⟩
  · have ended : finalLonger.ahead = [] :=
      Cursor.view_eq_nil_iff.mp (continued.view_at_end done)
    refine ⟨finalLonger, ?_, ended⟩
    rw [same, sameEnding, finds_ending_iff]
    have atEnd : finalLonger.atEnd = true := Cursor.isEnd_current_of_ahead_eq_nil ended
    obtain ⟨others, filled⟩ := List.getLast?_eq_some_iff.mp member
    simp [atEnd, filled]
  · exact absurd ((Cursor.EndsInComma.iff_of_reaches reaches (ahead_ne_nil_of_body body)).mpr ends)
      noComma

end

end AlterTable

/-! ## Tables -/

namespace Table

/-- The options of a table go on over an idle sequel. -/
theorem continues_tail (idle : sequel.Idle) (busy : scope.stops.AreBusy) :
    Continues .nothing (fun _ => True) sequel scope tail := by
  refine continues_scan honest_options
    (fun depth tail _ _ extension _ => carries_options depth tail extension)
    (busy.adding nofun) ?_ idle
  intro tail token rest idle
  refine reads_consume_ite_unseen (unseen_cons (idle.spells (by decide))) ?_
  refine reads_sees_bind_unseen (unseen_cons (idle.spells (by decide))) ?_
  exact reads_nextSees_bind_any fun seen => reads_pure _

/-- A table takes in an idle sequel. -/
theorem continues_table (semicolon : scope.settings.terminator = ";") (idle : sequel.Idle)
    (busy : scope.stops.AreBusy) :
    Continues .nothing (fun _ => True) sequel scope Table.grammar := by
  refine continues_bind stable_expect fun _ => continues_bind (stable_consume (by decide)) fun _ =>
    continues_bind stable_expect fun _ => continues_bind stable_readIfNotExists fun _ =>
      continues_bind (stable_orRefuse stable_name) fun name => ?_
  refine continues_settings_bind (continues_before (continues_withStops ?_) ?_ fun parts => ?_)
  · refine continues_bind TableElement.stable_elements fun elements => continues_map ?_
    exact continues_tail idle (busy.adding (by rw [semicolon]; decide))
  · intro parts start table final found
    rw [atTerminator, finds_look_bind_iff] at found
    split at found
    · exact (finds_pure_iff.mp found).2
    · exact (finds_refuse_bind_iff.mp found).elim
  · refine stable_atTerminator_bind semicolon (fun _ => Sequel.ends_nothing) fun _ => ?_
    exact stable_ite (stable_pure _) stable_refuse_bind

end Table

end TableDdl
