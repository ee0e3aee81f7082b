import TableDdl.Proofs.Grammar.Finds
import TableDdl.Proofs.Grammar.Parts
import TableDdl.Proofs.Grammar.Positions

/-!
# Every part moves the cursor on

A grammar progresses if it moves past at least one token wherever it finds something. Every part of
a statement does. Together with the order of cursors this is the discipline of all grammars: they
see only tokens of the sequence, never go back, leave the sequence, the settings and the stop words
as they are, and move on where they succeed.
-/

namespace TableDdl

namespace Grammar

variable {α β : Type}

/-- Wherever the grammar finds something, it moves past a token. -/
def Progresses (grammar : Grammar α) : Prop :=
  ∀ scope start value final,
    grammar.Finds scope start value final → final.remaining < start.remaining

/-- What moves past a token finds nothing at the end of a sequence. -/
theorem Progresses.ahead_ne_nil {grammar : Grammar α} (progresses : Progresses grammar)
    {scope : Scope} {start final : Cursor} {value : α}
    (found : grammar.Finds scope start value final) : start.ahead ≠ [] := by
  intro done
  have moved := progresses scope start value final found
  simp [Cursor.remaining, done] at moved

/-- A cursor on a token that is no end of input can move. -/
theorem remaining_advance_lt {start : Cursor} (inside : start.current.isEnd = false) :
    start.advance.remaining < start.remaining := by
  have := @Cursor.remaining_pos_of_not_atEnd start inside
  rw [Cursor.remaining_advance]
  omega

theorem isEnd_of_spells {token : Token} {text : String} (spelled : token.spells text = true) :
    token.isEnd = false := by
  cases kind : token.kind <;>
    simp_all [Token.spells, Token.isEnd, Token.isPunctuation, Token.Kind.isPunctuation]

theorem isEnd_of_keyword? {token : Token} {word : String} (found : token.keyword? = some word) :
    token.isEnd = false := by
  cases kind : token.kind <;> simp_all [Token.keyword?, Token.isEnd]

theorem Finds.remaining_le {grammar : Grammar α} {scope : Scope} {start final : Cursor} {value : α}
    (found : grammar.Finds scope start value final) : final.remaining ≤ start.remaining :=
  found.reaches.remaining_le

theorem progresses_refuse (fault : Fault) : Progresses (refuse fault : Grammar α) :=
  fun _ _ _ _ found => (finds_refuse_iff.mp found).elim

/-- A sequence progresses if its first part does. -/
theorem Progresses.bind {first : Grammar α} (here : Progresses first) (second : α → Grammar β) :
    Progresses (first >>= second) := by
  intro scope start value final found
  obtain ⟨seen, middle, before, after⟩ := finds_bind_iff.mp found
  exact Nat.lt_of_le_of_lt after.remaining_le (here _ _ _ _ before)

/-- A sequence progresses if its second part does, whatever the first one finds. -/
theorem progresses_after {first : Grammar α} {second : α → Grammar β}
    (there : ∀ value, Progresses (second value)) : Progresses (first >>= second) := by
  intro scope start value final found
  obtain ⟨seen, middle, before, after⟩ := finds_bind_iff.mp found
  exact Nat.lt_of_lt_of_le (there seen _ _ _ _ after) before.remaining_le

theorem progresses_ite {condition : Prop} [Decidable condition] {left right : Grammar α}
    (ifTrue : Progresses left) (ifFalse : Progresses right) :
    Progresses (if condition then left else right) := by
  split
  · exact ifTrue
  · exact ifFalse

theorem progresses_expect (text : String) (fault : Fault) : Progresses (expect text fault) := by
  intro scope start value final found
  obtain ⟨spelled, rfl⟩ := finds_expect_iff.mp found
  exact remaining_advance_lt (isEnd_of_spells spelled)

/-- A keyword that is moved past. -/
theorem progresses_keyword?_bind {second : Option String → Grammar β}
    (some : ∀ word, ∃ next, second (some word) = (advance >>= next))
    (none : Progresses (second none)) : Progresses (keyword? >>= second) := by
  intro scope start value final found
  rw [keyword?, finds_look_bind_iff] at found
  cases word : start.current.keyword? with
  | none =>
      rw [word] at found
      exact none _ _ _ _ found
  | some text =>
      obtain ⟨next, reads⟩ := some text
      rw [word, reads, finds_advance_bind_iff] at found
      exact Nat.lt_of_le_of_lt found.remaining_le (remaining_advance_lt (isEnd_of_keyword? word))

/-! ## Names -/

theorem remaining_lt_of_finds_name? {scope : Scope} {start final : Cursor} {name : String}
    (found : name?.Finds scope start (some name) final) : final.remaining < start.remaining := by
  unfold name? at found
  rw [finds_consume_ite_iff] at found
  split at found
  · exact Nat.lt_of_le_of_lt found.remaining_le (remaining_advance_lt (isEnd_of_spells ‹_›))
  · simp only [seesKind, atStop, current, finds_look_bind_iff] at found
    split at found
    · rename_i bare
      rw [finds_look_bind_iff, finds_advance_bind_iff] at found
      have isWord : start.current.kind = .word := by
        simp only [Bool.and_eq_true, decide_eq_true_eq] at bare
        exact bare.1
      exact Nat.lt_of_le_of_lt found.remaining_le
        (remaining_advance_lt (by simp [Token.isEnd, isWord]))
    · simp at found

theorem progresses_name : Progresses name := by
  intro scope start value final found
  obtain ⟨name, middle, reading, rest⟩ := finds_bind_iff.mp found
  cases name with
  | none => simp at rest
  | some name => exact Nat.lt_of_le_of_lt rest.remaining_le (remaining_lt_of_finds_name? reading)

theorem progresses_parenthesized (opening closing : Fault) (item : Grammar α) :
    Progresses (parenthesized opening closing item) :=
  (progresses_expect _ _).bind _

end Grammar

open Grammar

/-! ## Parts -/

theorem Column.progresses_column : Progresses Column.grammar :=
  progresses_name.bind _

theorem Rename.progresses_rename : Progresses Rename.grammar :=
  progresses_name.bind _

theorem Index.progresses_index : Progresses Index.grammar := by
  intro scope start index final found
  unfold Index.grammar at found
  rw [keyword?, finds_look_bind_iff] at found
  dsimp only at found
  cases role : start.current.keyword?.bind IndexRole.ofKeyword? with
  | some role =>
      -- The keyword of the role is moved past.
      obtain ⟨word, isWord, -⟩ := Option.bind_eq_some_iff.mp role
      rw [role, Option.isSome_some, if_pos rfl, finds_advance_bind_iff] at found
      exact Nat.lt_of_le_of_lt found.remaining_le (remaining_advance_lt (isEnd_of_keyword? isWord))
  | none =>
      -- Without a role one of the words `INDEX` and `KEY` has to be there.
      rw [role] at found
      simp only [Option.isSome_none, Bool.false_eq_true, if_false, Option.any_none, Bool.or_false,
        finds_consumeAny_bind_iff] at found
      split at found
      · rename_i spelled
        obtain ⟨text, -, spelled⟩ := List.any_eq_true.mp spelled
        exact Nat.lt_of_le_of_lt found.remaining_le (remaining_advance_lt (isEnd_of_spells spelled))
      · simp at found

theorem Constraint.progresses_clause : Progresses Constraint.clause := by
  intro scope start text final found
  obtain ⟨tokens, middle, reading, rest⟩ := finds_bind_iff.mp found
  obtain ⟨-, passed, rfl⟩ := finds_consumed_iff.mp reading
  dsimp only at rest
  split at rest
  · simp at rest
  · rename_i written
    obtain ⟨-, rfl⟩ := finds_pure_iff.mp rest
    -- Without progress there would be no token, and so no text.
    refine (Nat.lt_or_ge middle.remaining start.remaining).resolve_right fun standstill => ?_
    have none : start.between middle = [] := by
      simp only [Cursor.between, Nat.sub_eq_zero_of_le standstill, List.take_zero]
    exact written (by rw [none]; rfl)

theorem Constraint.progresses_constraint : Progresses Constraint.grammar := by
  refine progresses_after fun name => progresses_after fun isForeign => progresses_ite ?_ ?_
  · exact Progresses.bind ((progresses_expect _ _).bind _) _
  · refine progresses_after fun settings => progresses_ite (progresses_refuse _) ?_
    exact progresses_clause.bind _

theorem TableOption.progresses_tableOption : Progresses TableOption.grammar := by
  refine Progresses.bind (progresses_keyword?_bind (fun word => ?_) (progresses_refuse _)) _
  by_cases leading : leadingWords.contains word = true
  · simp only [leading, if_true]
    exact ⟨_, rfl⟩
  · simp only [leading]
    exact ⟨_, rfl⟩

theorem PartitionClause.progresses_head (level : PartitionLevel) :
    Progresses (PartitionClause.head level) :=
  (progresses_expect _ _).bind _

theorem Partitioning.progresses_partitioning : Progresses Partitioning.grammar :=
  (PartitionClause.progresses_head .table).bind _

theorem Partitioning.progresses_inner : Progresses Partitioning.innerGrammar :=
  (PartitionClause.progresses_head .partitions).bind _

theorem AlterOption.progresses_readAction : Progresses AlterOption.readAction := by
  intro scope start action final found
  unfold AlterOption.readAction at found
  rw [keyword?, finds_look_bind_iff] at found
  cases known : AlterAction.all.find? fun action =>
      start.current.keyword? = some action.keyword with
  | none =>
      rw [known] at found
      simp at found
  | some action =>
      have isWord := List.find?_some known
      rw [known, finds_advance_bind_iff] at found
      exact Nat.lt_of_le_of_lt found.remaining_le
        (remaining_advance_lt (isEnd_of_keyword? (of_decide_eq_true isWord)))

theorem AlterOption.progresses_alterOption : Progresses AlterOption.grammar :=
  progresses_after fun _ => AlterOption.progresses_readAction.bind _

theorem AlterTable.progresses_alterTable : Progresses AlterTable.grammar :=
  (progresses_expect _ _).bind _

theorem Table.progresses_table : Progresses Table.grammar :=
  (progresses_expect _ _).bind _

theorem Statement.progresses_statement : Progresses Statement.grammar := by
  intro scope start statement final found
  rw [Statement.grammar, finds_sees_ite_iff] at found
  split at found
  · exact Table.progresses_table.bind _ scope start statement final found
  rw [finds_sees_ite_iff] at found
  split at found
  · exact AlterTable.progresses_alterTable.bind _ scope start statement final found
  · simp at found

theorem Part.progresses (part : Part) : Progresses part.grammar := by
  cases part with
  | column => exact Column.progresses_column
  | index => exact Index.progresses_index
  | constraint => exact Constraint.progresses_constraint
  | tableOption => exact TableOption.progresses_tableOption
  | rename => exact Rename.progresses_rename
  | partitioning => exact Partitioning.progresses_partitioning
  | innerPartitioning => exact Partitioning.progresses_inner
  | alterOption => exact AlterOption.progresses_alterOption
  | alterTable => exact AlterTable.progresses_alterTable
  | table => exact Table.progresses_table

/-! ## The discipline of all grammars -/

end TableDdl
