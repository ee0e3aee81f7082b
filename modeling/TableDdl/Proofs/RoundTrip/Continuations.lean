import TableDdl.Proofs.Lockstep.Definitions
import TableDdl.Proofs.RoundTrip.Partitions

/-!
# Rendered parts before other tokens

A column and a partitioning are read as parts of larger statements, so that other tokens follow
them. The text of a canonical column is read back before a comma, a closing parenthesis, a stop word
or an end of input, whatever comes behind, and the text of a canonical partitioning before a
semicolon or an end of input. The cursor is left on the token that follows.
-/

namespace TableDdl

/-! ## Cursors in joined sequences -/

namespace Cursor

variable {tokens rest : List Token} {first token : Token} {start left right cursor : Cursor}

/-- Tokens in front of others lie ahead of them in the same sequence. -/
theorem ofTokens_append (more : rest ≠ []) : ofTokens (tokens ++ rest) =
    ⟨tokens ++ (ofTokens rest).ahead, (ofTokens rest).finish, (ofTokens rest).finish_isEnd⟩ := by
  have last : (tokens ++ rest).getLast? = some (rest.getLast more) := by
    rw [List.getLast?_append_of_ne_nil tokens more, List.getLast?_eq_some_getLast more]
  have lastRest : rest.getLast? = some (rest.getLast more) := List.getLast?_eq_some_getLast more
  by_cases isEnd : (rest.getLast more).isEnd = true
  · simp [ofTokens, last, lastRest, isEnd, List.dropLast_append_of_ne_nil more]
  · simp [ofTokens, last, lastRest, isEnd]

theorem reaches_ofTokens_append (more : rest ≠ []) :
    (ofTokens (tokens ++ rest)).Reaches (ofTokens rest) := by
  rw [ofTokens_append more]
  exact ⟨List.suffix_append _ _, rfl⟩

theorem view_ofTokens_append (more : rest ≠ []) :
    (ofTokens (tokens ++ rest)).view = tokens.map Token.placeless ++ (ofTokens rest).view := by
  rw [ofTokens_append more, view, List.map_append]
  rfl

theorem current_ofTokens_cons : (ofTokens (first :: rest)).current = first := by
  by_cases done : rest = []
  · subst done
    by_cases isEnd : first.isEnd = true <;> simp [ofTokens, current, isEnd]
  · have joined : first :: rest = [first] ++ rest := rfl
    rw [joined, ofTokens_append done]
    rfl

/-- A sequence has one cursor for each number of tokens that lie ahead. -/
theorem Reaches.eq_of_remaining (reaches : start.Reaches left) (other : start.Reaches right)
    (same : left.remaining = right.remaining) : left = right := by
  apply ext_of_tokens
  rw [reaches.tokens_eq_drop, other.tokens_eq_drop, same]

/-- The first token of the view is the current one. -/
theorem eq_placeless_current (member : token ∈ cursor.view.head?) :
    token = cursor.current.placeless := by
  cases ahead : cursor.ahead with
  | nil => simp [view, ahead] at member
  | cons head others =>
      rw [current_of_ahead_eq_cons ahead]
      simpa [view, ahead, eq_comm] using member

theorem unseen_view {text : String} (other : cursor.current.spells text = false) :
    Unseen text cursor.view := by
  intro token member
  rwa [eq_placeless_current member, Token.spells_placeless]

end Cursor

namespace Grammar

variable {α : Type} {grammar : Grammar α} {scope : Scope} {value : α} {text : String}
  {tokens expected rest : List Token} {first : Token}

/-- What is read from the tokens of a text before the tokens of a sequence is found in the joined
sequence. -/
theorem Reads.finds_ofTokens
    (reads : grammar.Reads scope (tokens.map Token.placeless ++ (Cursor.ofTokens rest).view) value
      (Cursor.ofTokens rest).view) (more : rest ≠ []) :
    grammar.Finds scope (Cursor.ofTokens (tokens ++ rest)) value (Cursor.ofTokens rest) := by
  obtain ⟨final, found, view⟩ := reads _ (Cursor.view_ofTokens_append more)
  have same : final = Cursor.ofTokens rest := by
    refine found.reaches.eq_of_remaining (Cursor.reaches_ofTokens_append more) ?_
    rw [← Cursor.length_view, ← Cursor.length_view, view]
  rwa [← same]

/-- What is found before an end of input is found where further tokens lie behind that one, too. -/
theorem Finds.before_more
    (matching : ∀ behind, Matches ⟨.exact, [], behind, 0⟩ scope id grammar grammar)
    (isEnd : first.isEnd = true)
    (found : grammar.Finds scope (Cursor.ofTokens (tokens ++ [first])) value
      (Cursor.ofTokens [first])) :
    grammar.Finds scope (Cursor.ofTokens (tokens ++ first :: rest)) value
      (Cursor.ofTokens (first :: rest)) := by
  have ended : Cursor.ofTokens [first] = ⟨[], first, isEnd⟩ := by simp [Cursor.ofTokens, isEnd]
  obtain ⟨behind, sequence⟩ : ∃ behind,
      (Cursor.ofTokens (first :: rest)).tokens = first :: behind := by
    have head := (Cursor.ofTokens (first :: rest)).head?_tokens
    rw [Cursor.current_ofTokens_cons, List.head?_eq_some_iff] at head
    exact head
  -- Both sequences agree up to the end of input.
  let pace : Lockstep := ⟨.exact, [], behind, 0⟩
  have abreast : pace.Abreast (Cursor.ofTokens (tokens ++ [first]))
      (Cursor.ofTokens (tokens ++ first :: rest)) := by
    refine ⟨tokens ++ [first], tokens ++ [first], ?_, ?_, ?_, by simp [pace]⟩
    · rw [Cursor.ofTokens_append (by simp), ended]
      simp [Cursor.tokens, pace]
    · have joined : (Cursor.ofTokens (tokens ++ first :: rest)).tokens =
          tokens ++ (Cursor.ofTokens (first :: rest)).tokens := by
        rw [Cursor.ofTokens_append (by simp), Cursor.tokens, Cursor.tokens, List.append_assoc]
      rw [joined, sequence]
      simp [pace]
    · exact List.forall₂_same.mpr fun _ _ => ⟨rfl, rfl, fun _ => rfl⟩
  obtain ⟨finalRight, foundRight, last⟩ := (matching behind).finds abreast found (Nat.zero_le _)
  have place : finalRight = Cursor.ofTokens (first :: rest) := by
    refine foundRight.reaches.eq_of_remaining (Cursor.reaches_ofTokens_append (by simp)) ?_
    have remaining : (Cursor.ofTokens [first]).remaining + behind.length =
        finalRight.remaining + 0 := last.remaining
    have lengths := congrArg List.length sequence
    rw [Cursor.length_tokens, List.length_cons] at lengths
    rw [ended] at remaining
    simp only [Cursor.remaining, List.length_nil] at remaining lengths ⊢
    omega
  rwa [← place]

/-- A text that is read as given tokens has these tokens, each at some place. -/
theorem exists_tokenize (spelled : Lexer.Spelled false text expected) :
    ∃ tokens place, Token.tokenize text = .ok (tokens ++ [Token.finish place]) ∧
      tokens.map Token.placeless = expected := by
  have lexes := spelled [] Lexer.gap_nil
  rw [List.append_nil] at lexes
  exact Lexer.tokenize_iff.mpr lexes

end Grammar

open Grammar

/-! ## Columns -/

namespace Column

variable {column : Column}

/-- The token ends a column: a comma, a closing parenthesis, an end of input or a stop word, but no
opening parenthesis. -/
def EndsBefore (stops : Stops) (token : Token) : Prop :=
  token.placeless = Token.comma ∨ token.placeless = Token.closing ∨ token.isEnd = true ∨
    stops.stopAt token = true ∧ token.kind ≠ .leftParen ∧ token.spells "(" = false

theorem EndsBefore.followed {stops : Stops} {first : Token} {rest : List Token}
    (ends : EndsBefore stops first) (inside : first.isEnd = false ∨ rest = []) :
    Followed stops (Cursor.ofTokens (first :: rest)).view := by
  constructor
  · intro token member
    have notEnd : first.isEnd = false := by
      refine inside.elim id fun done => ?_
      subst done
      by_contra isEnd
      rw [Bool.not_eq_false] at isEnd
      simp [Cursor.ofTokens, isEnd, Cursor.view] at member
    rw [Cursor.eq_placeless_current member, Cursor.current_ofTokens_cons]
    rcases ends with comma | closing | isEnd | ⟨stop, notOpen, -⟩
    · exact ends_comma stops [] _ (by simp [comma])
    · exact .inl (by simp [closing, Token.closing])
    · simp [isEnd] at notEnd
    · have here : Ends stops [first.placeless] := by
        intro token member
        obtain rfl : first.placeless = token := by simpa using member
        exact .inr ⟨notEnd, notOpen, stop⟩
      exact here.adding [","] _ rfl
  · refine Cursor.unseen_view ?_
    rw [Cursor.current_ofTokens_cons, ← Token.spells_placeless]
    rcases ends with comma | closing | isEnd | ⟨-, -, noCall⟩
    · rw [comma]
      decide
    · rw [closing]
      decide
    · exact Token.spells_of_isEnd isEnd _
    · exact noCall

/-- The text of a canonical column is read back as that column, whatever follows a token at which
the column ends. -/
theorem finds_rendered_column (canonical : column.Canonical) (noPosition : column.position = none)
    (settings : Settings) {stops : Stops} (isOpen : Open stops) :
    ∃ tokens place, Token.tokenize column.render = .ok (tokens ++ [Token.finish place]) ∧
      ∀ first rest, EndsBefore stops first →
        Column.grammar.Finds ⟨settings, stops⟩ (Cursor.ofTokens (tokens ++ first :: rest)) column
          (Cursor.ofTokens (first :: rest)) := by
  obtain ⟨tokens, place, tokenized, spelled⟩ := exists_tokenize canonical.spelled
  refine ⟨tokens, place, tokenized, fun first rest ends => ?_⟩
  have short {rest : List Token} (inside : first.isEnd = false ∨ rest = []) :
      Column.grammar.Finds ⟨settings, stops⟩ (Cursor.ofTokens (tokens ++ first :: rest)) column
        (Cursor.ofTokens (first :: rest)) := by
    refine Reads.finds_ofTokens ?_ (by simp)
    rw [spelled]
    exact canonical.reads noPosition isOpen (ends.followed inside)
  cases isEnd : first.isEnd with
  | false => exact short (.inl isEnd)
  | true =>
      have matching (behind : List Token) :
          Matches ⟨.exact, [], behind, 0⟩ ⟨settings, stops⟩ (Column.mapTexts id) Column.grammar
            Column.grammar := Column.matches_column
      rw [Column.mapTexts_id] at matching
      exact (short (.inr rfl)).before_more matching isEnd

/-- A column with a call and a group before a stop word, and before an end of input in the middle of
a sequence. -/
theorem finds_rendered_column_changed :
    let column : Column := {
      name := "changed", typeName := "TIMESTAMP", width := some 6, isNullable := false
      defaultValue := some (.raw "(1)"), onUpdate := some (.raw "NOW(6)"), comment := some "it's" }
    let stops := Stops.ofList [";", "PARTITION"]
    ∃ tokens place, Token.tokenize column.render = .ok (tokens ++ [Token.finish place]) ∧
      ∀ first ∈ [Token.bare .word "partition", Token.finish .start],
        Column.grammar.Finds ⟨.standard, stops⟩
          (Cursor.ofTokens (tokens ++ [first, Token.bare .leftParen "("])) column
          (Cursor.ofTokens [first, Token.bare .leftParen "("]) := by
  intro column stops
  have group : (Literal.raw ("(" ++ "1" ++ ")")).Canonical :=
    .group (Token.isExpression_of_isOwnExpression (by decide +kernel))
  have call : (Literal.raw ("NOW" ++ "(" ++ "6" ++ ")")).Canonical :=
    .call (by decide +kernel) (Token.isExpression_of_isOwnExpression (by decide +kernel))
  have canonical : column.Canonical := by
    refine ⟨by decide, by decide +kernel, by decide +kernel, by decide, ?_, ?_, ?_⟩
    · refine ⟨by decide +kernel, nofun, nofun, ?_, ?_, by decide, ?_⟩ <;> decide +kernel
    · rintro literal ⟨⟩
      exact group
    · rintro literal ⟨⟩
      exact ⟨call, by decide⟩
  have isOpen : Open stops := by
    unfold Open
    decide
  obtain ⟨tokens, place, tokenized, finds⟩ :=
    finds_rendered_column canonical rfl .standard isOpen
  refine ⟨tokens, place, tokenized, fun first member => finds first _ ?_⟩
  rcases List.mem_cons.mp member with rfl | member
  · exact .inr (.inr (.inr (by decide)))
  · exact .inr (.inr (.inl (by simp_all [Token.isEnd, Token.finish])))

end Column

/-! ## Partitionings -/

namespace Partitioning

variable {partitioning : Partitioning}

/-- The text of a canonical partitioning is read back as that partitioning, whatever follows the
semicolon or the end of input behind it. -/
theorem finds_rendered_partitioning (canonical : partitioning.Canonical) (scope : Scope) :
    ∃ tokens place, Token.tokenize partitioning.render = .ok (tokens ++ [Token.finish place]) ∧
      ∀ first rest, first.isEnd = true ∨ first.placeless = .bare .semicolon ";" →
        Partitioning.grammar.Finds scope (Cursor.ofTokens (tokens ++ first :: rest)) partitioning
          (Cursor.ofTokens (first :: rest)) := by
  obtain ⟨tokens, place, tokenized, spelled⟩ := exists_tokenize canonical.spelled
  refine ⟨tokens, place, tokenized, fun first rest ends => ?_⟩
  refine Reads.finds_ofTokens ?_ (by simp)
  rw [spelled]
  refine canonical.reads fun text member => Cursor.unseen_view ?_
  rw [Cursor.current_ofTokens_cons]
  rcases ends with isEnd | isSemicolon
  · exact Token.spells_of_isEnd isEnd text
  · have others : ∀ text ∈ followers, (Token.bare .semicolon ";").spells text = false := by decide
    rw [← Token.spells_placeless, isSemicolon, others text member]

/-- Ranges of two columns that are divided again by a key without columns, before a semicolon. -/
theorem finds_rendered_partitioning_ranges :
    let ranges : PartitionClause := {
      kind := .range, isColumns := true, columns := ["year", "month"], count := some 2
      definitions := [⟨"old", some .lessThan, [.integer (-1), .string "a"], []⟩,
        ⟨"new", none, [], []⟩] }
    let keys : PartitionClause := { kind := .key, isLinear := true, algorithm := some 1 }
    let partitioning : Partitioning := .nested ranges (.single keys)
    ∃ tokens place, Token.tokenize partitioning.render = .ok (tokens ++ [Token.finish place]) ∧
      Partitioning.grammar.Finds ⟨.standard, .none⟩
        (Cursor.ofTokens (tokens ++ [Token.bare .semicolon ";", Token.bare .word "ALTER"]))
        partitioning (Cursor.ofTokens [Token.bare .semicolon ";", Token.bare .word "ALTER"]) := by
  intro ranges keys partitioning
  have rangesCanonical : ranges.Canonical := by
    refine ⟨⟨by decide, by decide, by decide, by decide, nofun, by decide⟩, nofun, by decide, ?_⟩
    intro definition member
    simp only [ranges, List.mem_cons, List.not_mem_nil, or_false] at member
    rcases member with rfl | rfl
    · refine ⟨by decide, rfl, by decide, fun literal member => ?_⟩
      simp only [List.mem_cons, List.not_mem_nil, or_false] at member
      rcases member with rfl | rfl
      · exact .integer _
      · exact .string _
    · exact ⟨by decide, rfl, by decide, nofun⟩
  have keysCanonical : keys.Canonical :=
    ⟨⟨by decide, by decide, by decide, by decide, by decide +kernel, by decide⟩, nofun, nofun,
      nofun⟩
  obtain ⟨tokens, place, tokenized, finds⟩ :=
    finds_rendered_partitioning (.nested rangesCanonical keysCanonical (.inr rfl) rfl)
      ⟨.standard, .none⟩
  exact ⟨tokens, place, tokenized, finds _ _ (.inr rfl)⟩

end Partitioning

end TableDdl
