import TableDdl.Column.Grammar
import TableDdl.Proofs.Grammar.Runs
import TableDdl.Table.Grammar

/-!
# Turns of the scans over attributes and options

A scan over the attributes of a column, or over the options of a table, shows every token outside
parentheses to a visitor. Here is, with one rule for each, all that a visitor can do.
-/

namespace TableDdl

open Grammar

variable {scope : Scope} {start final : Cursor}

namespace Column

/-- What reading an attribute does. -/
inductive ReadsAttribute (scope : Scope) (draft : Draft) (start : Cursor) :
    Bool → Draft → Cursor → Prop where
  /-- An inline reference begins. -/
  | reference (spelled : start.current.spells "REFERENCES") :
      ReadsAttribute scope draft start false { draft with inReference := true } start
  /-- The column takes no missing values. -/
  | notNull (spelled : start.current.spells "NOT") (null : start.next.spells "NULL") :
      ReadsAttribute scope draft start true
        { draft with column := { draft.column with isNullable := false } } start.advance.advance
  /-- The column takes missing values. -/
  | null (spelled : start.current.spells "NULL") :
      ReadsAttribute scope draft start true
        { draft with column := { draft.column with isNullable := true } } start.advance
  /-- There is a default. -/
  | default {literal : Literal} {final : Cursor} (spelled : start.current.spells "DEFAULT")
      (found : Literal.grammar.Finds scope start.advance literal final) :
      ReadsAttribute scope draft start true
        { draft with column := { draft.column with defaultValue := some literal } } final
  /-- There is a value after a change. -/
  | onUpdate {literal : Literal} {final : Cursor} (spelled : start.current.spells "ON")
      (update : start.next.spells "UPDATE")
      (found : Literal.grammar.Finds scope start.advance.advance literal final) :
      ReadsAttribute scope draft start true
        { draft with column := { draft.column with onUpdate := some literal } } final
  /-- There is a comment. -/
  | comment (spelled : start.current.spells "COMMENT") (quoted : start.next.kind = .quotedString) :
      ReadsAttribute scope draft start true
        { draft with column := { draft.column with comment := some start.next.text } }
        start.advance.advance
  /-- The values are numbered by themselves. -/
  | autoIncrement (spelled : start.current.spells "AUTO_INCREMENT") :
      ReadsAttribute scope draft start false
        { draft with column := { draft.column with isAutoIncrement := true } } start
  /-- No attribute begins. -/
  | other : ReadsAttribute scope draft start false draft start

theorem readsAttribute_of_finds {draft changed : Draft} {taken : Bool}
    (found : (readAttribute draft).Finds scope start (taken, changed) final) :
    ReadsAttribute scope draft start taken changed final := by
  unfold readAttribute at found
  rw [finds_sees_ite_iff] at found
  split at found
  · obtain ⟨⟨⟩, rfl⟩ := finds_pure_iff.mp found
    exact .reference ‹_›
  rw [finds_consume_ite_iff] at found
  split at found
  · obtain ⟨null, reading⟩ := finds_expect_bind_iff.mp found
    obtain ⟨⟨⟩, rfl⟩ := finds_pure_iff.mp reading
    exact .notNull ‹_› null
  rw [finds_consume_ite_iff] at found
  split at found
  · obtain ⟨⟨⟩, rfl⟩ := finds_pure_iff.mp found
    exact .null ‹_›
  rw [finds_consume_ite_iff] at found
  split at found
  · obtain ⟨literal, middle, reading, rest⟩ := finds_bind_iff.mp found
    obtain ⟨⟨⟩, rfl⟩ := finds_pure_iff.mp rest
    exact .default ‹_› reading
  simp only [sees, nextSees, finds_look_bind_iff] at found
  split at found
  · rename_i words
    simp only [Bool.and_eq_true] at words
    simp only [finds_advance_bind_iff] at found
    obtain ⟨literal, middle, reading, rest⟩ := finds_bind_iff.mp found
    obtain ⟨⟨⟩, rfl⟩ := finds_pure_iff.mp rest
    exact .onUpdate words.1.2 words.2 reading
  rw [finds_consume_ite_iff] at found
  split at found
  · simp only [seesKind, current, finds_look_bind_iff] at found
    split at found
    · rename_i quoted
      rw [finds_look_bind_iff, finds_advance_bind_iff] at found
      obtain ⟨⟨⟩, rfl⟩ := finds_pure_iff.mp found
      exact .comment ‹_› (of_decide_eq_true quoted)
    · simp at found
  simp only [finds_look_bind_iff] at found
  split at found
  · obtain ⟨⟨⟩, rfl⟩ := finds_pure_iff.mp found
    exact .autoIncrement ‹_›
  · obtain ⟨⟨⟩, rfl⟩ := finds_pure_iff.mp found
    exact .other

end Column

namespace Table

/-- What reading an option of a table does. -/
inductive ReadsOption (scope : Scope) (tail : Tail) (start : Cursor) :
    Bool → Tail → Cursor → Prop where
  /-- There is a comment. -/
  | comment {middle : Cursor} (spelled : start.current.spells "COMMENT")
      (sign : middle = start.advance ∨
        start.next.spells "=" ∧ middle = start.advance.advance)
      (quoted : middle.current.kind = .quotedString) :
      ReadsOption scope tail start true { tail with comment := some middle.current.text }
        middle.advance
  /-- There is a partitioning. -/
  | partitioning {partitioning : Partitioning} {final : Cursor}
      (found : Partitioning.grammar.Finds scope start partitioning final) :
      ReadsOption scope tail start true { tail with partitioning := some partitioning } final
  /-- No such option begins. -/
  | other : ReadsOption scope tail start false tail start

theorem readsOption_of_finds {tail changed : Tail} {taken : Bool}
    (found : (readOption tail).Finds scope start (taken, changed) final) :
    ReadsOption scope tail start taken changed final := by
  unfold readOption at found
  rw [finds_consume_ite_iff] at found
  split at found
  · rename_i spelled
    obtain ⟨middle, sign, reading⟩ := finds_of_finds_optional_bind found
    simp only [seesKind, current, finds_look_bind_iff] at reading
    split at reading
    · rename_i quoted
      rw [finds_look_bind_iff, finds_advance_bind_iff] at reading
      obtain ⟨⟨⟩, rfl⟩ := finds_pure_iff.mp reading
      exact .comment spelled sign (of_decide_eq_true quoted)
    · simp at reading
  simp only [sees, nextSees, finds_look_bind_iff] at found
  split at found
  · obtain ⟨partitioning, middle, reading, rest⟩ := finds_bind_iff.mp found
    obtain ⟨⟨⟩, rfl⟩ := finds_pure_iff.mp rest
    exact .partitioning reading
  · obtain ⟨⟨⟩, rfl⟩ := finds_pure_iff.mp found
    exact .other

end Table

end TableDdl
