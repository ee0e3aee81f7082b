import Mathlib.Data.List.Forall2
import TableDdl.Proofs.Segments.Definitions

/-!
# The definitions of a table

The commas outside all parentheses cut what stands between the parentheses of a table into
segments. Where a table is read, every segment on its own is one definition of the table, and the
table has no other ones: no comma is lost, and no definition reads past one.
-/

namespace TableDdl

/-! ## Segments -/

namespace Token

/-- What stands between the commas outside all parentheses. -/
def segments : Nat → List Token → List (List Token)
  | _, [] => [[]]
  | depth, token :: rest =>
      if depth = 0 ∧ token.kind = .comma then [] :: segments 0 rest
      else (segments (token.depthAfter depth) rest).modifyHead (token :: ·)

variable {token : Token} {tokens rest inner beyond : List Token} {depth : Nat}

theorem length_segments_pos (depth : Nat) (tokens : List Token) :
    0 < (segments depth tokens).length := by
  induction tokens generalizing depth with
  | nil => simp [segments]
  | cons token rest ih =>
      rw [segments]
      split
      · simp
      · rw [List.length_modifyHead]
        exact ih _

theorem segments_comma (isComma : token.kind = .comma) :
    segments 0 (token :: rest) = [] :: segments 0 rest := by
  simp [segments, isComma]

/-- Up to the token that ends it, a segment has no comma of its own. -/
theorem segments_of_divide (divided : divide depth tokens = (inner, beyond)) (more : beyond ≠ [])
    (others : List Token) :
    segments depth (inner ++ others) = (segments 0 others).modifyHead (inner ++ ·) := by
  induction tokens generalizing depth inner with
  | nil => simp_all [divide]
  | cons token tokens ih =>
      cases ends : endsSegment depth token with
      | true =>
          rw [divide_cons_of_ends ends] at divided
          obtain ⟨rfl, rfl⟩ := Prod.mk.inj divided
          obtain rfl : depth = 0 := by simp_all [endsSegment]
          exact (congrFun List.modifyHead_id (segments 0 others)).symm
      | false =>
          rw [divide_cons ends] at divided
          obtain ⟨rfl, rfl⟩ := Prod.mk.inj divided
          have inside : ¬ (depth = 0 ∧ token.kind = .comma) := by
            rintro ⟨rfl, isComma⟩
            simp [endsSegment, isComma] at ends
          rw [List.cons_append, segments, if_neg inside, ih rfl, List.modifyHead_modifyHead]
          rfl

end Token

namespace Grammar

open Token (divide segments)

variable {token : Token} {tokens rest inner beyond : List Token} {depth : Nat}

theorem closingIndex?_cons (notEnd : token.isEnd = false)
    (inside : depth = 0 → token.kind ≠ .rightParen) :
    closingIndex? depth (token :: rest) =
      (closingIndex? (token.depthAfter depth) rest).map (· + 1) := by
  cases kind : token.kind with
  | endOfInput => simp [Token.isEnd, kind] at notEnd
  | rightParen =>
      cases depth with
      | zero => exact absurd kind (inside rfl)
      | succ outer => simp [closingIndex?, Token.depthAfter, kind]
  | _ => simp [closingIndex?, Token.depthAfter, kind]

/-- A segment has no closing parenthesis but for those that it opens. -/
theorem closingIndex?_of_divide (divided : divide depth tokens = (inner, beyond))
    (noEnd : ∀ token ∈ tokens, token.isEnd = false) :
    closingIndex? depth tokens = (closingIndex? 0 beyond).map (· + inner.length) := by
  induction tokens generalizing depth inner with
  | nil =>
      obtain ⟨rfl, rfl⟩ := Prod.mk.inj divided
      rfl
  | cons token tokens ih =>
      cases ends : Token.endsSegment depth token with
      | true =>
          rw [Token.divide_cons_of_ends ends] at divided
          obtain ⟨rfl, rfl⟩ := Prod.mk.inj divided
          obtain rfl : depth = 0 := by simp_all [Token.endsSegment]
          simp
      | false =>
          rw [Token.divide_cons ends] at divided
          obtain ⟨rfl, rfl⟩ := Prod.mk.inj divided
          have inside : depth = 0 → token.kind ≠ .rightParen := by
            rintro rfl closes
            simp [Token.endsSegment, closes] at ends
          rw [closingIndex?_cons (noEnd token List.mem_cons_self) inside,
            ih rfl fun other member => noEnd other (List.mem_cons_of_mem _ member), Option.map_map]
          rfl

end Grammar

/-! ## Definitions -/

namespace TableElement

open Grammar

variable {settings : Settings}

/-- The bare word with which the tokens start, in upper case, or nothing. -/
def firstWord (tokens : List Token) : String := (tokens.head?.bind Token.keyword?).getD ""

/-- Followed by nothing but an end of input, and with the terminator as the only stop word, the
tokens are the value that the grammar finds, to the last of them. -/
def Alone (settings : Settings) {α : Type} (grammar : Grammar α) (tokens : List Token)
    (value : α) : Prop :=
  ∀ place, grammar.Finds ⟨settings, .ofList [settings.terminator]⟩
    (Cursor.ofTokens (tokens ++ [Token.finish place])) value (Cursor.ofTokens [Token.finish place])

/-- The segment on its own is the definition, and its first word says what it is. -/
inductive Stands (settings : Settings) (segment : List Token) : TableElement → Prop where
  /-- An index. -/
  | index {definition : Index} (starts : Index.startsWith (firstWord segment) = true)
      (found : Alone settings Index.grammar segment definition) :
      Stands settings segment (.index definition)
  /-- A constraint. -/
  | constraint {definition : Constraint} (noIndex : Index.startsWith (firstWord segment) = false)
      (starts : firstWord segment ∈ constraintWords)
      (found : Alone settings Constraint.grammar segment definition) :
      Stands settings segment (.constraint definition)
  /-- A column. -/
  | column {definition : Column} (noIndex : Index.startsWith (firstWord segment) = false)
      (noConstraint : firstWord segment ∉ constraintWords)
      (found : Alone settings Column.grammar segment definition) :
      Stands settings segment (.column definition)

/-- Up to the parenthesis that closes them, the tokens are the definitions, with commas between
them. -/
def Lists (settings : Settings) (tokens : List Token) (elements : List TableElement) : Prop :=
  ∃ length, closingIndex? 0 tokens = some length ∧
    List.Forall₂ (Stands settings) (Token.segments 0 (tokens.take length)) elements

/-- Up to the parenthesis that closes them, the tokens go on with the definitions, each of them
after a comma. -/
def Prolongs (settings : Settings) (tokens : List Token) (elements : List TableElement) : Prop :=
  ∃ length others, closingIndex? 0 tokens = some length ∧
    Token.segments 0 (tokens.take length) = [] :: others ∧
      List.Forall₂ (Stands settings) others elements

variable {α : Type} {start middle final : Cursor} {segment tokens rest : List Token}
  {element : TableElement} {elements : List TableElement}

theorem firstWord_of_divide (regular : ∀ token ∈ start.ahead, token.Regular)
    (divided : Token.divide 0 start.ahead = (segment, rest)) :
    firstWord segment = start.current.keyword?.getD "" := by
  let shorter : Cursor := ⟨segment, Token.finish .start, rfl⟩
  have severed : Cursor.Severed rest 0 start shorter := ⟨divided, regular⟩
  rw [← severed.keyword?]
  cases segment with
  | nil => rfl
  | cons token others => rfl

/-- What is found before a comma or a closing parenthesis is found on its own. -/
theorem alone_of_finds {grammar : Grammar α} {value : α}
    (confined : ∀ beyond,
      Confined beyond ⟨settings, .ofList [settings.terminator]⟩ 0 0 grammar)
    (regular : ∀ token ∈ start.ahead, token.Regular)
    (ends : Token.endsSegment 0 middle.current = true)
    (found : grammar.Finds ⟨settings, .ofList [settings.terminator]⟩ start value middle) :
    ∃ segment, Token.divide 0 start.ahead = (segment, middle.ahead) ∧
      Alone settings grammar segment value := by
  rcases parts : Token.divide 0 start.ahead with ⟨segment, beyond⟩
  have short (place : Location) : ∃ final,
      grammar.Finds ⟨settings, .ofList [settings.terminator]⟩
        ⟨segment, Token.finish place, rfl⟩ value final ∧
      Cursor.Severed beyond 0 middle final ∧ final.ahead = [] := by
    have severed : Cursor.Severed beyond 0 start ⟨segment, Token.finish place, rfl⟩ :=
      ⟨parts, regular⟩
    obtain ⟨final, reading, last⟩ := confined beyond _ _ _ _ severed found
    exact ⟨final, reading, last, last.ahead_eq_nil ends⟩
  obtain ⟨final, -, last, done⟩ := short .start
  have same : middle.ahead = beyond := by rw [last.ahead, done, List.nil_append]
  refine ⟨segment, by rw [same], fun place => ?_⟩
  obtain ⟨⟨ahead, finish, isEnd⟩, reading, -, rfl⟩ := short place
  obtain rfl : finish = Token.finish place := reading.reaches.finish
  rw [Cursor.ofTokens_append_finish]
  exact reading

/-- The same where the grammar finds a part of the definition. -/
theorem alone_of_finds_map {grammar : Grammar α} {build : α → TableElement}
    (confined : ∀ beyond,
      Confined beyond ⟨settings, .ofList [settings.terminator]⟩ 0 0 grammar)
    (regular : ∀ token ∈ start.ahead, token.Regular)
    (ends : Token.endsSegment 0 middle.current = true)
    (found : (do return build (← grammar)).Finds ⟨settings, .ofList [settings.terminator]⟩ start
      element middle) :
    ∃ segment definition, build definition = element ∧
      Token.divide 0 start.ahead = (segment, middle.ahead) ∧
      firstWord segment = start.current.keyword?.getD "" ∧
      Alone settings grammar segment definition := by
  obtain ⟨definition, cursor, reading, result⟩ := finds_bind_iff.mp found
  obtain ⟨rfl, rfl⟩ := finds_pure_iff.mp result
  obtain ⟨segment, divided, alone⟩ := alone_of_finds confined regular ends reading
  exact ⟨segment, definition, rfl, divided, firstWord_of_divide regular divided, alone⟩

/-- A definition that ends before a comma or a closing parenthesis is a segment. -/
theorem stands_of_finds (regular : ∀ token ∈ start.ahead, token.Regular)
    (ends : Token.endsSegment 0 middle.current = true)
    (found : grammar.Finds ⟨settings, .ofList [settings.terminator]⟩ start element middle) :
    ∃ segment, Token.divide 0 start.ahead = (segment, middle.ahead) ∧
      Stands settings segment element := by
  unfold grammar at found
  simp only [keyword?, finds_look_bind_iff] at found
  split at found
  · rename_i starts
    obtain ⟨segment, definition, rfl, divided, word, alone⟩ :=
      alone_of_finds_map (fun _ => Index.confined_index) regular ends found
    rw [← word] at starts
    exact ⟨segment, divided, .index starts alone⟩
  rename_i noIndex
  split at found
  · rename_i starts
    obtain ⟨segment, definition, rfl, divided, word, alone⟩ :=
      alone_of_finds_map (fun _ => Constraint.confined_constraint) regular ends found
    rw [← word] at noIndex starts
    exact ⟨segment, divided, .constraint (by simpa using noIndex) (by simpa using starts) alone⟩
  · rename_i noConstraint
    obtain ⟨segment, definition, rfl, divided, word, alone⟩ :=
      alone_of_finds_map (fun _ => Column.confined_column) regular ends found
    rw [← word] at noIndex noConstraint
    exact ⟨segment, divided, .column (by simpa using noIndex) (by simpa using noConstraint) alone⟩

/-! ## Lists of definitions -/

theorem Prolongs.nil {token : Token} (closes : token.kind = .rightParen) :
    Prolongs settings (token :: rest) [] :=
  ⟨0, [], by simp [closingIndex?, closes], rfl, .nil⟩

theorem Lists.comma {token : Token} (lists : Lists settings tokens elements)
    (isComma : token.kind = .comma) : Prolongs settings (token :: tokens) elements := by
  obtain ⟨length, closing, stands⟩ := lists
  refine ⟨length + 1, _, ?_, ?_, stands⟩
  · simp [closingIndex?, isComma, closing]
  · rw [List.take_succ_cons, Token.segments_comma isComma]

/-- A segment in front of a list whose definitions come after commas. -/
theorem Prolongs.cons (prolongs : Prolongs settings rest elements)
    (noEnd : ∀ token ∈ tokens, token.isEnd = false)
    (divided : Token.divide 0 tokens = (segment, rest)) (stands : Stands settings segment element) :
    Lists settings tokens (element :: elements) := by
  obtain ⟨length, others, closing, segments, all⟩ := prolongs
  have more : rest ≠ [] := by
    rintro rfl
    simp [closingIndex?] at closing
  refine ⟨length + segment.length, ?_, ?_⟩
  · rw [closingIndex?_of_divide divided noEnd, closing]
    rfl
  · rw [Token.append_of_divide divided, Nat.add_comm, List.take_length_add_append,
      Token.segments_of_divide divided more, segments, List.modifyHead_cons, List.append_nil]
    exact .cons stands all

/-- Reads a definition after a comma, if there is one. -/
def afterComma? : Grammar (Option TableElement) := do
  if ← consume "," then
    return some (← grammar)
  else
    return none

variable {scope : Scope}

theorem finds_afterComma?_some (found : afterComma?.Finds scope start (some element) final) :
    start.current.spells "," = true ∧ grammar.Finds scope start.advance element final := by
  rw [afterComma?, finds_consume_ite_iff] at found
  split at found
  · rename_i spelled
    obtain ⟨value, cursor, reading, result⟩ := finds_bind_iff.mp found
    obtain ⟨⟨⟩, rfl⟩ := finds_pure_iff.mp result
    exact ⟨spelled, reading⟩
  · simp at found

theorem finds_afterComma?_none (found : afterComma?.Finds scope start none final) :
    final = start := by
  rw [afterComma?, finds_consume_ite_iff] at found
  split at found
  · obtain ⟨value, cursor, reading, result⟩ := finds_bind_iff.mp found
    simp at result
  · exact (finds_pure_iff.mp found).2.symm

/-- After each definition comes the closing parenthesis, or a comma and the next definition. -/
theorem prolongs_of_repeats (regular : ∀ token ∈ start.ahead, token.Regular)
    (closed : final.current.spells ")" = true)
    (run : Repeats afterComma? ⟨settings, .ofList [settings.terminator]⟩ start elements final) :
    Token.endsSegment 0 start.current = true ∧ Prolongs settings start.ahead elements := by
  -- What comes after a definition has to be known to end it, so both are proved in one induction.
  induction run with
  | @done start final none =>
      obtain rfl := finds_afterComma?_none none
      have ahead := Cursor.ahead_eq_cons (Cursor.ahead_ne_nil_of_spells closed)
      have closes := (regular _ (by simp [ahead])).closing.mp closed
      rw [ahead]
      exact ⟨by simp [Token.endsSegment, closes], .nil closes⟩
  | @more start middle final element elements found progress after ih =>
      obtain ⟨spelled, reading⟩ := finds_afterComma?_some found
      have ahead := Cursor.ahead_eq_cons (Cursor.ahead_ne_nil_of_spells spelled)
      have isComma := (regular _ (by simp [ahead])).comma.mp spelled
      have regularNext : ∀ token ∈ start.advance.ahead, token.Regular := fun token member =>
        regular token (List.mem_of_mem_tail member)
      obtain ⟨ends, prolongs⟩ := ih
        (fun token member => regular token (found.reaches.ahead.subset member)) closed
      obtain ⟨segment, divided, stands⟩ := stands_of_finds regularNext ends reading
      have noEnd : ∀ token ∈ start.advance.ahead, token.isEnd = false := fun token member =>
        (regularNext token member).inside
      rw [ahead]
      exact ⟨by simp [Token.endsSegment, isComma],
        (prolongs.cons noEnd divided stands).comma isComma⟩
  | @stuck start final element found standstill =>
      -- The comma is moved past.
      obtain ⟨spelled, reading⟩ := finds_afterComma?_some found
      have ahead := Cursor.ahead_eq_cons (Cursor.ahead_ne_nil_of_spells spelled)
      have moved := reading.reaches.remaining_le
      simp only [Cursor.remaining, ahead, List.length_cons] at standstill moved
      omega

/-- The definitions of a table are the segments between its parentheses. -/
theorem lists_of_finds (regular : ∀ token ∈ start.ahead, token.Regular)
    (found : list.Finds ⟨settings, .ofList [settings.terminator]⟩ start elements final) :
    start.current.spells "(" = true ∧ Lists settings start.advance.ahead elements := by
  obtain ⟨opened, middle, items, closed, rfl⟩ := finds_parenthesized_iff.mp found
  obtain ⟨first, cursor, reading, others⟩ := finds_bind_iff.mp items
  obtain ⟨further, last, repeats, result⟩ := finds_bind_iff.mp others
  obtain ⟨rfl, rfl⟩ := finds_pure_iff.mp result
  have regularNext : ∀ token ∈ start.advance.ahead, token.Regular := fun token member =>
    regular token (List.mem_of_mem_tail member)
  have run : Repeats afterComma? _ cursor further last := repeats_of_finds_many repeats
  obtain ⟨ends, prolongs⟩ := prolongs_of_repeats
    (fun token member => regularNext token (reading.reaches.ahead.subset member)) closed run
  obtain ⟨segment, divided, stands⟩ := stands_of_finds regularNext ends reading
  exact ⟨opened, prolongs.cons (fun token member => (regularNext token member).inside)
    divided stands⟩

end TableElement

/-! ## Tables -/

namespace Cursor

variable {earlier middle later cursor : Cursor}

/-- If the tokens are regular, no parenthesis opens between the cursors. -/
def Clears (earlier later : Cursor) : Prop :=
  (∀ token ∈ earlier.ahead, token.Regular) →
    ∃ before, earlier.ahead = before ++ later.ahead ∧ ∀ token ∈ before, token.kind ≠ .leftParen

theorem Clears.refl (cursor : Cursor) : cursor.Clears cursor := fun _ => ⟨[], rfl, nofun⟩

theorem Clears.trans (first : earlier.Clears middle) (second : middle.Clears later) :
    earlier.Clears later := by
  intro regular
  obtain ⟨before, ahead, closed⟩ := first regular
  have regularMiddle : ∀ token ∈ middle.ahead, token.Regular := fun token member =>
    regular token (ahead ▸ List.mem_append_right before member)
  obtain ⟨between, aheadMiddle, closedMiddle⟩ := second regularMiddle
  refine ⟨before ++ between, by rw [ahead, aheadMiddle, List.append_assoc], ?_⟩
  intro token member
  exact (List.mem_append.mp member).elim (closed token) (closedMiddle token)

theorem clears_advance (other : cursor.current.kind ≠ .leftParen) :
    cursor.Clears cursor.advance := by
  intro _
  by_cases done : cursor.ahead = []
  · exact ⟨[], by simp [advance, done], nofun⟩
  · exact ⟨[cursor.current], ahead_eq_cons done, by simpa using other⟩

theorem clears_of_spells {text : String} (spelled : cursor.current.spells text = true)
    (plain : Token.isPlain text = true) : cursor.Clears cursor.advance := by
  intro regular
  have ahead := ahead_eq_cons (ahead_ne_nil_of_spells spelled)
  have other := (regular cursor.current (by simp [ahead])).divides_eq_false spelled plain
  refine clears_advance (fun opens => ?_) regular
  simp [opens, Token.Kind.divides] at other

end Cursor

namespace Grammar

variable {scope : Scope} {start final : Cursor}

theorem clears_of_consume {text : String} {seen : Bool} (plain : Token.isPlain text = true)
    (found : (consume text).Finds scope start seen final) : start.Clears final := by
  by_cases spelled : start.current.spells text = true
  · obtain ⟨-, rfl⟩ : true = seen ∧ start.advance = final := by
      simpa [consume, sees, spelled] using found
    exact Cursor.clears_of_spells spelled plain
  · obtain ⟨-, rfl⟩ : false = seen ∧ start = final := by
      simpa [consume, sees, spelled] using found
    exact .refl start

theorem clears_of_readIfNotExists {isThere : Bool}
    (found : Table.readIfNotExists.Finds scope start isThere final) : start.Clears final := by
  rw [Table.readIfNotExists, finds_consume_ite_iff] at found
  split at found
  · rename_i spelled
    obtain ⟨spelledNot, found⟩ := finds_expect_bind_iff.mp found
    obtain ⟨spelledExists, found⟩ := finds_expect_bind_iff.mp found
    obtain ⟨-, rfl⟩ := finds_pure_iff.mp found
    exact ((Cursor.clears_of_spells spelled (by decide)).trans
      (Cursor.clears_of_spells spelledNot (by decide))).trans
        (Cursor.clears_of_spells spelledExists (by decide))
  · obtain ⟨-, rfl⟩ := finds_pure_iff.mp found
    exact .refl start

theorem clears_of_name? {found? : Option String}
    (found : name?.Finds scope start found? final) : start.Clears final := by
  rw [name?, finds_consume_ite_iff] at found
  split at found
  · rename_i spelled
    simp only [seesKind, current, finds_look_bind_iff] at found
    split at found
    · rename_i isIdentifier
      rw [finds_look_bind_iff, finds_advance_bind_iff] at found
      obtain ⟨spelledAgain, found⟩ := finds_expect_bind_iff.mp found
      obtain ⟨-, rfl⟩ := finds_pure_iff.mp found
      have other : start.advance.current.kind ≠ .leftParen := by
        simp [of_decide_eq_true isIdentifier]
      exact ((Cursor.clears_of_spells spelled (by decide)).trans
        (Cursor.clears_advance other)).trans (Cursor.clears_of_spells spelledAgain (by decide))
    · simp at found
  · simp only [seesKind, atStop, current, finds_look_bind_iff] at found
    split at found
    · rename_i bare
      rw [finds_look_bind_iff, finds_advance_bind_iff] at found
      obtain ⟨-, rfl⟩ := finds_pure_iff.mp found
      have isWord : start.current.kind = .word := by
        simp only [Bool.and_eq_true, decide_eq_true_eq] at bare
        exact bare.1
      exact Cursor.clears_advance (by simp [isWord])
    · obtain ⟨-, rfl⟩ := finds_pure_iff.mp found
      exact .refl start

theorem clears_of_name {name : String} (found : Grammar.name.Finds scope start name final) :
    start.Clears final := by
  obtain ⟨found?, middle, reading, result⟩ := finds_bind_iff.mp found
  cases found? with
  | none => simp at result
  | some found =>
      obtain ⟨-, rfl⟩ := finds_pure_iff.mp result
      exact clears_of_name? reading

end Grammar

open Grammar in
/-- The definitions of a table begin with the first parenthesis of all. -/
theorem Table.exists_of_finds {settings : Settings} {start final : Cursor} {table : Table}
    (found : Table.grammar.Finds ⟨settings, .none⟩ start table final) :
    ∃ opening elements middle, start.Clears opening ∧
      TableElement.list.Finds ⟨settings, .ofList [settings.terminator]⟩ opening elements middle ∧
      table.columns = TableElement.columns elements ∧
      table.indexes = TableElement.indexes elements ∧
      table.constraints = TableElement.constraints elements := by
  obtain ⟨create, found⟩ := finds_expect_bind_iff.mp found
  obtain ⟨isTemporary, afterTemporary, temporary, found⟩ := finds_bind_iff.mp found
  obtain ⟨spelled, found⟩ := finds_expect_bind_iff.mp found
  obtain ⟨ifNotExists, afterExists, existing, found⟩ := finds_bind_iff.mp found
  obtain ⟨name, opening, named, found⟩ := finds_bind_iff.mp found
  simp only [Grammar.settings, finds_look_bind_iff] at found
  obtain ⟨⟨elements, tail⟩, ended, read, found⟩ := finds_bind_iff.mp found
  obtain ⟨listed, middle, list, rest⟩ := finds_bind_iff.mp (finds_withStops_iff.mp read)
  obtain ⟨tailFound, cursor, tailRead, result⟩ := finds_bind_iff.mp rest
  obtain ⟨same, rfl⟩ := finds_pure_iff.mp result
  obtain ⟨rfl, rfl⟩ := Prod.mk.inj same
  have head : start.Clears opening :=
    ((((Cursor.clears_of_spells create (by decide)).trans
      (clears_of_consume (by decide) temporary)).trans
        (Cursor.clears_of_spells spelled (by decide))).trans
          (clears_of_readIfNotExists existing)).trans (clears_of_name (finds_orRefuse_iff.mp named))
  simp only [atTerminator, finds_look_bind_iff] at found
  split at found
  · obtain ⟨rfl, -⟩ := finds_pure_iff.mp found
    exact ⟨opening, listed, middle, head, list, rfl, rfl, rfl⟩
  · simp at found

/-- Every definition is a column, an index or a constraint. -/
theorem TableElement.length_eq (elements : List TableElement) :
    (columns elements).length + (indexes elements).length + (constraints elements).length =
      elements.length := by
  induction elements with
  | nil => rfl
  | cons element elements ih =>
      cases element <;> simp_all [columns, indexes, constraints] <;> omega

open Grammar in
/-- The definitions of a table neither get lost nor run together, and keep their order. The first
parenthesis of a text from which a table is read begins them, and the commas outside of further
parentheses cut what lies between it and the parenthesis that closes it into as many segments as
the table has definitions. Each of them on its own is the definition that its first word announces,
to its last token, and the columns, the indexes and the constraints of the table are those among
them, one after the other. -/
theorem Table.parse_segments {settings : Settings} {text : String} {table : Table}
    (read : Table.grammar.parse settings text = .ok table) :
    ∃ before opening rest length elements,
      Token.tokenize text = .ok (before ++ opening :: rest) ∧
      (∀ token ∈ before, token.kind ≠ .leftParen) ∧ opening.kind = .leftParen ∧
      closingIndex? 0 rest = some length ∧
      List.Forall₂ (TableElement.Stands settings) (Token.segments 0 (rest.take length)) elements ∧
      table.columns = TableElement.columns elements ∧
      table.indexes = TableElement.indexes elements ∧
      table.constraints = TableElement.constraints elements ∧
      1 ≤ (Token.segments 0 (rest.take length)).length ∧
      table.columns.length + table.indexes.length + table.constraints.length =
        (Token.segments 0 (rest.take length)).length := by
  obtain ⟨tokens, final, lexed, found⟩ := parse_eq_ok_iff.mp read
  have regular := Lexer.regular_ofTokens lexed
  obtain ⟨cursor, elements, middle, clears, list, columns, indexes, constraints⟩ :=
    exists_of_finds found
  obtain ⟨before, ahead, noOpening⟩ := clears regular
  have regularHere : ∀ token ∈ cursor.ahead, token.Regular := fun token member =>
    regular token (ahead ▸ List.mem_append_right before member)
  obtain ⟨opened, length, closing, stands⟩ := TableElement.lists_of_finds regularHere list
  have aheadHere := Cursor.ahead_eq_cons (Cursor.ahead_ne_nil_of_spells opened)
  have opens := (regularHere cursor.current (by simp [aheadHere])).opening.mp opened
  obtain ⟨body, last, rfl, -⟩ := Lexer.lexes_of_tokensFrom lexed
  rw [Cursor.ofTokens_append_finish, aheadHere] at ahead
  obtain rfl : body = before ++ cursor.current :: cursor.advance.ahead := ahead
  -- The end of input lies behind the parenthesis that closes the definitions.
  have taken : (cursor.advance.ahead ++ [Token.finish last]).take length =
      cursor.advance.ahead.take length :=
    List.take_append_of_le_length (Nat.le_of_lt (closingIndex?_lt closing))
  refine ⟨before, cursor.current, cursor.advance.ahead ++ [Token.finish last], length, elements,
    ?_, noOpening, opens, closingIndex?_append _ closing, ?_, columns, indexes, constraints, ?_, ?_⟩
  · rw [lexed, List.append_assoc, List.cons_append]
  · rwa [taken]
  · exact Token.length_segments_pos _ _
  · rw [taken, stands.length_eq, ← TableElement.length_eq, columns, indexes, constraints]

/-- Four definitions, each of which has commas of its own. -/
theorem Table.parse_segments_nested :
    let text := "CREATE TABLE t (a SET('x', 'y'), KEY (a, b), CHECK (f(a, b)), " ++
      "b DECIMAL(4, 2) DEFAULT g(1, 2))"
    let table : Table := {
      name := "t", isTemporary := false, ifNotExists := false
      columns := [{ name := "a", typeName := "SET", variants := some [.string "x", .string "y"] },
        { name := "b", typeName := "DECIMAL", width := some 4, decimals := some 2
          defaultValue := some (.raw "g(1, 2)") }]
      indexes := [⟨none, none, none, ["a", "b"]⟩]
      constraints := [⟨none, .unsupported "CHECK (f(a, b))"⟩]
      comment := none, partitioning := none }
    Table.grammar.parse .standard text = .ok table ∧
      ∃ before opening rest length elements,
        Token.tokenize text = .ok (before ++ opening :: rest) ∧
        Grammar.closingIndex? 0 rest = some length ∧
        List.Forall₂ (TableElement.Stands .standard) (Token.segments 0 (rest.take length))
          elements ∧
        (Token.segments 0 (rest.take length)).length = 4 := by
  intro text table
  have read : Table.grammar.parse .standard text = .ok table :=
    eq_ok_of_toOption (by decide +kernel)
  obtain ⟨before, opening, rest, length, elements, lexed, -, -, closing, stands, others⟩ :=
    Table.parse_segments read
  obtain ⟨-, -, -, -, count⟩ := others
  exact ⟨read, before, opening, rest, length, elements, lexed, closing, stands, count.symm⟩

end TableDdl
