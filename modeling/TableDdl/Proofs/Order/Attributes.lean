import Mathlib.Data.List.Pairwise
import TableDdl.Proofs.Extension.References
import TableDdl.Proofs.Lexer.Marks
import TableDdl.Proofs.RoundTrip.Continuations

/-!
# The order of attributes

After its data type, a column has attributes in any order, with other words among them that are
passed over. Each attribute is known by its first word and changes a field of its own, so that the
order in which they stand does not matter, as long as none is given twice. A literal takes in none of
what follows it, because no attribute begins with a parenthesis.
-/

namespace TableDdl

/-! ## Entire sequences -/

namespace Grammar

variable {α β γ : Type} {scope : Scope} {grammar : Grammar α} {tokens : List Token} {value : α}

/-- What is read from the tokens alone exhausts them. -/
theorem Reads.exhausts (reads : grammar.Reads scope (tokens.map Token.placeless) value []) :
    grammar.Exhausts scope tokens value := by
  intro place
  have ended : (Cursor.ofTokens [Token.finish place]).view = [] := rfl
  refine Reads.finds_ofTokens ?_ (List.cons_ne_nil _ _)
  rwa [ended, List.append_nil]

/-- What exhausts the tokens before one end of input exhausts them before every other. -/
theorem exhausts_of_outcome (place : Location) (persists : Persists [] scope grammar)
    (accepted : (grammar scope (Cursor.ofTokens (tokens ++ [Token.finish place]))).result = .ok value)
    (entire : (grammar scope (Cursor.ofTokens (tokens ++ [Token.finish place]))).cursor.ahead = []) :
    grammar.Exhausts scope tokens value := by
  refine Reads.exhausts fun start view => ?_
  have same : Cursor.Precedes [] (Cursor.ofTokens (tokens ++ [Token.finish place])) start := by
    rw [Cursor.Precedes, view, Cursor.ofTokens_append_finish, List.append_nil, Cursor.view]
  obtain ⟨final, found, ended⟩ := persists _ _ same value _ ⟨accepted, rfl⟩
  refine ⟨final, found, ?_⟩
  rw [ended, List.append_nil, Cursor.view_eq_nil_iff, entire]

theorem bind_assoc (first : Grammar α) (second : α → Grammar β) (third : β → Grammar γ) :
    first >>= second >>= third = first >>= fun found => second found >>= third := by
  funext scope start
  simp only [bind, Grammar.bind]
  rcases first scope start with ⟨error | found, cursor, reaches⟩
  · rfl
  · dsimp only
    rcases second found scope cursor with ⟨error | next, later, after⟩ <;> rfl

end Grammar

/-! ## Keywords -/

namespace Token

variable {token : Token} {keyword : String}

theorem spells_of_isKeyword (isKeyword : token.isKeyword keyword = true) :
    token.placeless.spells = (Token.bare .word keyword).spells := by
  simp only [Token.isKeyword, Bool.and_eq_true, decide_eq_true_eq, Text.sameWord, beq_iff_eq]
    at isKeyword
  funext text
  simp [Token.spells, Text.sameWord, isKeyword.1, isKeyword.2]

theorem kind_of_isKeyword (isKeyword : token.isKeyword keyword = true) : token.kind = .word := by
  simp only [Token.isKeyword, Bool.and_eq_true, decide_eq_true_eq] at isKeyword
  exact isKeyword.1

theorem spells_of_not_isKeyword (isWord : token.kind = .word)
    (other : token.isKeyword keyword = false) : token.placeless.spells keyword = false := by
  simpa [Token.isKeyword, Token.spells, isWord] using other

end Token

namespace Column

open Grammar

/-! ## Groups of tokens -/

/-- A group of tokens among the attributes of a column: an attribute, or a word that is none. -/
inductive Attribute where
  /-- The words `NOT NULL`. -/
  | notNull (not null : Token)
  /-- The word `DEFAULT` and a literal. -/
  | default (keyword : Token) (tokens : List Token) (literal : Literal)
  /-- The words `ON UPDATE` and a literal. -/
  | onUpdate (on update : Token) (tokens : List Token) (literal : Literal)
  /-- The word `COMMENT` and a string. -/
  | comment (keyword text : Token)
  /-- The word `AUTO_INCREMENT`. -/
  | autoIncrement (keyword : Token)
  /-- A word that is passed over. -/
  | other (word : Token)

namespace Attribute

/-- The first token of the group. -/
def first : Attribute → Token
  | notNull not _ => not
  | default keyword _ _ => keyword
  | onUpdate on _ _ _ => on
  | comment keyword _ => keyword
  | autoIncrement keyword => keyword
  | other word => word

/-- The tokens of the group. -/
def tokens : Attribute → List Token
  | notNull not null => [not, null]
  | default keyword tokens _ => keyword :: tokens
  | onUpdate on update tokens _ => on :: update :: tokens
  | comment keyword text => [keyword, text]
  | autoIncrement keyword => [keyword]
  | other word => [word]

/-- The first word of the group, if it is an attribute that is kept. -/
def keyword? : Attribute → Option String
  | notNull .. => some "NOT"
  | default .. => some "DEFAULT"
  | onUpdate .. => some "ON"
  | comment .. => some "COMMENT"
  | autoIncrement .. => some "AUTO_INCREMENT"
  | other _ => none

/-- The column with the attribute. -/
def apply (column : Column) : Attribute → Column
  | notNull .. => { column with isNullable := false }
  | default _ _ literal => { column with defaultValue := some literal }
  | onUpdate _ _ _ literal => { column with onUpdate := some literal }
  | comment _ text => { column with comment := some text.text }
  | autoIncrement _ => { column with isAutoIncrement := true }
  | other _ => column

/-- The words that begin an attribute, an inline reference or more of the data type. -/
def reserved : List String :=
  ["NOT", "NULL", "DEFAULT", "ON", "COMMENT", "AUTO_INCREMENT", "REFERENCES", "UNSIGNED", "SIGNED",
    "ZEROFILL", "CHARACTER", "CHARSET", "COLLATE"]

/-- The tokens of the group are those of its kind. A word that is passed over is a word of a text and
none of the reserved ones. -/
def Written (scope : Scope) : Attribute → Prop
  | notNull not null => not.isKeyword "NOT" = true ∧ null.isKeyword "NULL" = true
  | default keyword tokens literal =>
      keyword.isKeyword "DEFAULT" = true ∧ Literal.grammar.Exhausts scope tokens literal
  | onUpdate on update tokens literal =>
      on.isKeyword "ON" = true ∧ update.isKeyword "UPDATE" = true ∧
        Literal.grammar.Exhausts scope tokens literal
  | comment keyword text => keyword.isKeyword "COMMENT" = true ∧ text.kind = .quotedString
  | autoIncrement keyword => keyword.isKeyword "AUTO_INCREMENT" = true
  | other word => word.kind = .word ∧ Lexer.Marked word ∧
      ∀ text ∈ reserved, word.isKeyword text = false

end Attribute

/-! ## Columns without attributes -/

/-- Reads a column up to its attributes. -/
def head : Grammar Column := do
  let name ← Grammar.name
  match ← keyword? with
  | none => refuse (.expected ("data type of column '" ++ name ++ "'"))
  | some typeName =>
      advance
      let column ← withParameters { name, typeName }
      let _ ← many characterSet?
      return column

/-- A column is what stands before its attributes, with its attributes. -/
theorem grammar_eq_head_bind : Column.grammar = head >>= withAttributes := by
  rw [Column.grammar, head, bind_assoc]
  congr 1
  funext name
  rw [afterName, bind_assoc]
  congr 1
  funext word
  cases word with
  | none => rfl
  | some typeName =>
      have ended (column : Column) : ((do
            let _ ← many characterSet?
            return column : Grammar Column) >>= withAttributes) =
          (do
            let _ ← many characterSet?
            withAttributes column) := bind_assoc _ _ _
      simp only [bind_assoc, ended]

theorem persists_head {more : List Token} {scope : Scope}
    (unseen : ∀ text ∈ headWords, Unseen text more) : Persists more scope head := by
  refine persists_name.bind fun name => persists_keyword?_bind (fun typeName => ?_) ⟨_, rfl⟩
  refine ⟨_, rfl, (persists_withParameters _ unseen).bind fun column => ?_⟩
  exact (persists_many (persists_characterSet? unseen)).bind fun _ => persists_pure column

/-! ## Reading one group -/

namespace Attribute

variable {part : Attribute} {parts : List Attribute} {scope : Scope}

/-- The group begins with a word. -/
theorem Written.isWord (written : part.Written scope) : part.first.kind = .word := by
  cases part with
  | notNull | default | onUpdate | comment => exact Token.kind_of_isKeyword written.1
  | autoIncrement => exact Token.kind_of_isKeyword written
  | other => exact written.1

/-- The first word of a group does not go on with the data type. -/
theorem Written.unseen (written : part.Written scope) :
    ∀ text ∈ headWords, part.first.placeless.spells text = false := by
  have keyword {token : Token} {keyword : String} (isKeyword : token.isKeyword keyword = true)
      (other : ∀ text ∈ headWords, (Token.bare .word keyword).spells text = false) :
      ∀ text ∈ headWords, token.placeless.spells text = false := by
    rwa [Token.spells_of_isKeyword isKeyword]
  cases part with
  | notNull | default | onUpdate | comment => exact keyword written.1 (by decide)
  | autoIncrement => exact keyword written (by decide)
  | other word =>
      obtain ⟨isWord, marked, noKeyword⟩ := written
      intro text member
      have known : ∀ text ∈ headWords, text ∈ reserved ∨ text ∈ ['(', ','].map String.singleton := by
        decide
      obtain isReserved | isMark := known text member
      · exact Token.spells_of_not_isKeyword isWord (noKeyword text isReserved)
      · obtain ⟨character, listed, rfl⟩ := List.mem_map.1 isMark
        have marks : ∀ character ∈ ['(', ','], character ∈ Lexer.marks :=
          Text.forall_mem_of_all (by decide)
        exact marked.spells_of_word isWord (marks character listed)

/-! ## Reading all groups -/

/-- The tokens of groups, without their places. -/
def view (parts : List Attribute) : List Token := (parts.flatMap tokens).map Token.placeless

theorem tokens_eq_cons (part : Attribute) : ∃ others, part.tokens = part.first :: others := by
  cases part <;> exact ⟨_, rfl⟩

theorem view_cons (part : Attribute) (parts : List Attribute) :
    view (part :: parts) = part.tokens.map Token.placeless ++ view parts := by
  simp [view]

/-- No group goes on with the data type, or with the literal before it. -/
theorem unseen_view (written : ∀ part ∈ parts, part.Written scope) :
    ∀ text ∈ headWords, Unseen text (view parts) := by
  intro text member
  cases parts with
  | nil => exact unseen_nil text
  | cons part parts =>
      obtain ⟨others, tokens⟩ := tokens_eq_cons part
      rw [view_cons, tokens]
      exact unseen_cons ((written part List.mem_cons_self).unseen text member)

variable {column : Column} {rest after : List Token} {result : Draft}

/-- A group changes the column by its attribute, whatever follows that is no parenthesis. -/
theorem readsScan_part (written : part.Written scope)
    (noStop : (scope.stops.adding [","]).stopAt part.first = false) (noCall : Unseen "(" rest)
    (there : ReadsScan (scope.stops.adding [","]) attributeVisitor scope 0
      ⟨part.apply column, false⟩ rest result after) :
    ReadsScan (scope.stops.adding [","]) attributeVisitor scope 0 ⟨column, false⟩
      (part.tokens.map Token.placeless ++ rest) result after := by
  have isWord := written.isWord
  -- The first word is shown to the visitor, which takes the group or leaves a single word to the scan.
  have shown : Shown (scope.stops.adding [","]) 0 part.first.placeless :=
    ⟨by simp [Token.isEnd, isWord], by simp [isWord], by simp [isWord], fun _ => noStop⟩
  have shorter : rest.length < (part.tokens.map Token.placeless ++ rest).length := by
    obtain ⟨others, tokens⟩ := tokens_eq_cons part
    simp only [tokens, List.map_cons, List.cons_append, List.length_cons, List.length_append]
    omega
  cases part with
  | notNull not null =>
      have isNull : null.placeless.spells "NULL" = true := by
        rw [Token.spells_of_isKeyword written.2]
        decide
      exact readsScan_taken shown
        (reads_notNull (Token.spells_of_isKeyword written.1) isNull) shorter there
  | default keyword tokens literal =>
      have reads := written.2.reads (persists_literal noCall)
      exact readsScan_taken shown
        (reads_default (Token.spells_of_isKeyword written.1) reads) shorter there
  | onUpdate on update tokens literal =>
      have isUpdate : update.placeless.spells "UPDATE" = true := by
        rw [Token.spells_of_isKeyword written.2.1]
        decide
      have reads := written.2.2.reads (persists_literal noCall)
      exact readsScan_taken shown
        (reads_onUpdate (Token.spells_of_isKeyword written.1) isUpdate rfl reads) shorter there
  | comment keyword text =>
      exact readsScan_taken shown
        (reads_comment (Token.spells_of_isKeyword written.1) written.2) shorter there
  | autoIncrement keyword =>
      exact readsScan_passed shown (reads_autoIncrement (Token.spells_of_isKeyword written)) there
  | other word =>
      have idle {text : String} (member : text ∈ reserved) :
          word.placeless.spells text = false :=
        Token.spells_of_not_isKeyword isWord (written.2.2 text member)
      have known : ∀ text ∈ "REFERENCES" :: Column.attributes, text ∈ reserved := by decide
      exact readsScan_passed shown
        (reads_idle (fun text member => idle (known text member)) (.inr (idle (by decide)))) there

/-- The groups change the column one after another. -/
theorem readsScan_parts (written : ∀ part ∈ parts, part.Written scope)
    (noStop : ∀ part ∈ parts, (scope.stops.adding [","]).stopAt part.first = false) :
    ReadsScan (scope.stops.adding [","]) attributeVisitor scope 0 ⟨column, false⟩ (view parts)
      ⟨parts.foldl apply column, false⟩ [] := by
  induction parts generalizing column with
  | nil => exact readsScan_done (ends_nil _)
  | cons part parts ih =>
      obtain ⟨here, others⟩ := List.forall_mem_cons.mp written
      obtain ⟨shown, shownOthers⟩ := List.forall_mem_cons.mp noStop
      rw [view_cons]
      exact readsScan_part here shown (unseen_view others _ (by decide)) (ih others shownOthers)

/-- What stands before the attributes and the attributes are read together. -/
theorem exhausts_parts {head : List Token} (begins : Column.head.Exhausts scope head column)
    (written : ∀ part ∈ parts, part.Written scope)
    (noStop : ∀ part ∈ parts, (scope.stops.adding [","]).stopAt part.first = false) :
    Column.grammar.Exhausts scope (head ++ parts.flatMap tokens) (parts.foldl apply column) := by
  refine Reads.exhausts ?_
  rw [grammar_eq_head_bind, List.map_append]
  have attributes : (withAttributes column).Reads scope (view parts) (parts.foldl apply column) [] :=
    (reads_scan (readsScan_parts written noStop)).bind (reads_pure _)
  exact (begins.reads (persists_head (unseen_view written))).bind attributes

/-! ## Reordering -/

/-- Attributes of different kinds change different fields. -/
theorem apply_comm {left right : Attribute}
    (different : ∀ keyword, left.keyword? = some keyword →
      ∀ other, right.keyword? = some other → keyword ≠ other) (column : Column) :
    right.apply (left.apply column) = left.apply (right.apply column) := by
  cases left <;> cases right <;> first | rfl | exact absurd rfl (different _ rfl _ rfl)

/-- If no attribute is given twice, the order does not matter. -/
theorem foldl_apply_perm {order : List Attribute} (distinct : (parts.filterMap keyword?).Nodup)
    (reordered : order.Perm parts) (column : Column) :
    order.foldl apply column = parts.foldl apply column := by
  have commute : ∀ left ∈ parts, ∀ right ∈ parts, ∀ column : Column,
      right.apply (left.apply column) = left.apply (right.apply column) := by
    have : Std.Symm fun left right : Attribute => ∀ column : Column,
        right.apply (left.apply column) = left.apply (right.apply column) :=
      ⟨fun _ _ same column => (same column).symm⟩
    -- Two attributes of one kind are one and the same group, which commutes with itself.
    refine List.Pairwise.forall_of_forall (fun _ _ _ => rfl) ?_
    exact (List.pairwise_filterMap.mp distinct).imp apply_comm
  exact (reordered.symm.foldl_eq' commute column).symm

/-- The group is an attribute that is kept. -/
def isKept (part : Attribute) : Bool := part.keyword?.isSome

/-- The words that are passed over change nothing. -/
theorem foldl_apply_filter (parts : List Attribute) (column : Column) :
    (parts.filter isKept).foldl apply column = parts.foldl apply column := by
  induction parts generalizing column with
  | nil => rfl
  | cons part parts ih => cases part <;> exact ih _

/-- Attributes of which none is given twice may stand in any order after the data type of a column,
and the words that are passed over among them may be left out: the column that is read is the same. -/
theorem exhausts_of_perm {head : List Token} {order : List Attribute}
    (begins : Column.head.Exhausts scope head column)
    (written : ∀ part ∈ parts, part.Written scope)
    (noStop : ∀ part ∈ parts, (scope.stops.adding [","]).stopAt part.first = false)
    (distinct : (parts.filterMap keyword?).Nodup) (reordered : order.Perm parts) :
    Column.grammar.Exhausts scope (head ++ order.flatMap tokens) (parts.foldl apply column) ∧
      Column.grammar.Exhausts scope (head ++ (order.filter isKept).flatMap tokens)
        (parts.foldl apply column) := by
  have inside {part : Attribute} (member : part ∈ order) : part ∈ parts := reordered.subset member
  rw [← foldl_apply_perm distinct reordered]
  refine ⟨exhausts_parts begins (fun part member => written part (inside member))
    fun part member => noStop part (inside member), ?_⟩
  rw [← foldl_apply_filter]
  have kept {part : Attribute} (member : part ∈ order.filter isKept) : part ∈ parts :=
    inside (List.mem_of_mem_filter member)
  exact exhausts_parts begins (fun part member => written part (kept member))
    fun part member => noStop part (kept member)

/-- A default and `NOT NULL` in either order, with and without the word `KEY`. -/
theorem exhausts_of_perm_key :
    let scope : Scope := ⟨.standard, .none⟩
    let word (text : String) : Token := .bare .word text
    let head : List Token := [word "a", word "INT", word "UNSIGNED"]
    let notNull : Attribute := .notNull (word "not") (word "null")
    let default : Attribute := .default (word "DEFAULT") [.bare .integer "1"] (.integer 1)
    let key : Attribute := .other (word "KEY")
    let column : Column :=
      { name := "a", typeName := "INT", isUnsigned := true, isNullable := false,
        defaultValue := some (.integer 1) }
    Column.grammar.Exhausts scope (head ++ [key, default, notNull].flatMap tokens) column ∧
      Column.grammar.Exhausts scope (head ++ [default, notNull].flatMap tokens) column := by
  intro scope word head notNull default key column
  let plain : Column := { name := "a", typeName := "INT", isUnsigned := true }
  have begins : Column.head.Exhausts scope head plain := by
    have persists : Persists [] scope Column.head := persists_head fun text _ => unseen_nil text
    refine exhausts_of_outcome .start persists (eq_ok_of_toOption ?_) ?_ <;> decide +kernel
  have one : Literal.grammar.Exhausts scope [.bare .integer "1"] (.integer 1) := by
    have persists : Persists [] scope Literal.grammar := persists_literal (unseen_nil "(")
    refine exhausts_of_outcome .start persists (eq_ok_of_toOption ?_) ?_ <;> decide +kernel
  have isKey : key.Written scope := by
    refine ⟨rfl, ⟨nofun, fun _ => ?_⟩, by decide⟩
    exact Text.forall_mem_of_all (by decide)
  have written : ∀ part ∈ [notNull, default, key], part.Written scope :=
    List.forall_mem_cons.mpr ⟨⟨by decide, by decide⟩, List.forall_mem_cons.mpr
      ⟨⟨by decide, one⟩, List.forall_mem_singleton.mpr isKey⟩⟩
  exact exhausts_of_perm begins written (by decide) (by decide)
    (List.reverse_perm [notNull, default, key])

end Attribute

end Column

end TableDdl
