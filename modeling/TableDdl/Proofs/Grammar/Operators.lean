import TableDdl.Proofs.Extension.Commas
import TableDdl.Proofs.Nesting.Steps

/-!
# Operators in kept expressions

An operator of two characters, such as `>=`, is two tokens, and the text of a run of tokens has one
blank between every two tokens of operators that follow each other, whether or not there was one in
the source. The clauses, literals and partition expressions that are kept as text are such texts of
what was read, so that the same holds of them.
-/

namespace TableDdl

/-! ## The text of a run of tokens -/

namespace Token

/-- The token is a character of an operator. -/
def isOperator (token : Token) : Bool := token.kind = .symbol || token.kind = .equals

variable {before after : List Token} {first second : Token}

theorem kind_of_isOperator {token : Token} (operator : token.isOperator = true) :
    token.kind = .symbol ∨ token.kind = .equals := by
  simpa [isOperator] using operator

theorem joined_of_operators (isFirst : first.isOperator = true)
    (isSecond : second.isOperator = true) : joined first second = false := by
  rcases kind_of_isOperator isFirst with firstKind | firstKind <;>
    rcases kind_of_isOperator isSecond with secondKind | secondKind <;>
      simp [joined, firstKind, secondKind]

theorem spelling_of_isOperator {token : Token} (operator : token.isOperator = true) :
    token.spelling = token.text := by
  rcases kind_of_isOperator operator with kind | kind <;> simp [spelling, kind]

theorem isWritten_of_isOperator {token : Token} (operator : token.isOperator = true) :
    token.isWritten = true := by
  rcases kind_of_isOperator operator with kind | kind <;> simp [isWritten, isEnd, kind]

theorem spelledAfter_append (previous : Token) (before after : List Token) (first second : Token) :
    spelledAfter previous (before ++ first :: second :: after) =
      spelledAfter previous (before ++ [first]) ++
        ((if joined first second then "" else " ") ++ spelled (second :: after)) := by
  induction before generalizing previous with
  | nil => simp [spelledAfter, spelled, String.append_assoc]
  | cons token before ih =>
      simp only [List.cons_append, spelledAfter]
      rw [ih token]
      simp only [String.append_assoc]

/-- The text of tokens is made of the texts of two parts and what stands between them. -/
theorem spelled_append (before after : List Token) (first second : Token) :
    spelled (before ++ first :: second :: after) =
      spelled (before ++ [first]) ++
        ((if joined first second then "" else " ") ++ spelled (second :: after)) := by
  cases before with
  | nil => simp [spelledAfter, spelled, String.append_assoc]
  | cons token before =>
      have start (others : List Token) :
          spelled (token :: others) = token.spelling ++ spelledAfter token others := rfl
      rw [List.cons_append, List.cons_append, start, start, spelledAfter_append,
        String.append_assoc]

theorem spelled_concat (before : List Token) (last : Token) :
    ∃ front, spelled (before ++ [last]) = front ++ last.spelling := by
  rcases List.eq_nil_or_concat before with rfl | ⟨others, token, rfl⟩
  · exact ⟨"", by simp [spelled, spelledAfter]⟩
  · refine ⟨spelled (others ++ [token]) ++ if joined token last then "" else " ", ?_⟩
    rw [List.concat_eq_append, List.append_assoc, List.singleton_append, spelled_append,
      String.append_assoc]
    simp [spelled, spelledAfter]

/-- Between two operator tokens that follow each other stands one blank. -/
theorem renderRaw_of_operators (isFirst : first.isOperator = true)
    (isSecond : second.isOperator = true) :
    renderRaw (before ++ first :: second :: after) =
      renderRaw (before ++ [first]) ++ " " ++ renderRaw (second :: after) := by
  have firstWritten := isWritten_of_isOperator isFirst
  have secondWritten := isWritten_of_isOperator isSecond
  simp only [renderRaw, List.filter_append, List.filter_cons, firstWritten, secondWritten, if_true,
    List.filter_nil]
  rw [spelled_append, joined_of_operators isFirst isSecond, String.append_assoc]
  rfl

/-- In the text, one blank stands between every two operator tokens that follow each other. -/
def Spaced (tokens : List Token) (text : String) : Prop :=
  ∀ before first second after, tokens = before ++ first :: second :: after →
    first.isOperator = true → second.isOperator = true →
      ∃ front back, text = front ++ first.text ++ " " ++ second.text ++ back

theorem spaced_renderRaw (tokens : List Token) : Spaced tokens (renderRaw tokens) := by
  rintro before first second after rfl isFirst isSecond
  obtain ⟨front, ends⟩ := spelled_concat (before.filter isWritten) first
  rw [spelling_of_isOperator isFirst] at ends
  have left : renderRaw (before ++ [first]) = front ++ first.text := by
    simp [renderRaw, isWritten_of_isOperator isFirst, ends]
  have right : renderRaw (second :: after) =
      second.text ++ spelledAfter second (after.filter isWritten) := by
    simp [renderRaw, isWritten_of_isOperator isSecond, spelled, spelling_of_isOperator isSecond]
  refine ⟨front, spelledAfter second (after.filter isWritten), ?_⟩
  rw [renderRaw_of_operators isFirst isSecond, left, right]
  simp only [String.append_assoc]

namespace Spaced

variable {tokens : List Token} {token : Token} {text : String}

theorem of_length (short : tokens.length ≤ 1) (text : String) : Spaced tokens text := by
  rintro before first second after rfl
  simp only [List.length_append, List.length_cons] at short
  omega

theorem enclose (spaced : Spaced tokens text) (lead trail : String) :
    Spaced tokens (lead ++ text ++ trail) := by
  intro before first second after split isFirst isSecond
  obtain ⟨front, back, rfl⟩ := spaced before first second after split isFirst isSecond
  exact ⟨lead ++ front, back ++ trail, by simp only [String.append_assoc]⟩

theorem cons (spaced : Spaced tokens text) (other : token.isOperator = false) :
    Spaced (token :: tokens) text := by
  intro before first second after split isFirst isSecond
  cases before with
  | nil =>
      obtain ⟨rfl, -⟩ := List.cons.inj split
      rw [isFirst] at other
      cases other
  | cons _ before =>
      exact spaced before first second after (List.cons.inj split).2 isFirst isSecond

theorem concat (spaced : Spaced tokens text) (other : token.isOperator = false) :
    Spaced (tokens ++ [token]) text := by
  intro before first second after split isFirst isSecond
  rcases List.eq_nil_or_concat after with rfl | ⟨inner, last, rfl⟩
  · have whole : tokens ++ [token] = (before ++ [first]) ++ [second] := by simpa using split
    obtain ⟨-, same⟩ := List.append_inj' whole rfl
    obtain rfl : token = second := List.singleton_inj.mp same
    rw [isSecond] at other
    cases other
  · have whole : tokens ++ [token] = (before ++ first :: second :: inner) ++ [last] := by
      simpa using split
    obtain ⟨same, -⟩ := List.append_inj' whole rfl
    exact spaced before first second inner same isFirst isSecond

end Spaced

end Token

/-! ## What is read -/

namespace Cursor

variable {start final : Cursor}

theorem between_of_append {tokens : List Token} (ahead : start.ahead = tokens ++ final.ahead) :
    start.between final = tokens := by
  rw [between, remaining, remaining, ahead, List.length_append, Nat.add_sub_cancel,
    List.take_left]

theorem between_of_cons {token : Token} {others : List Token}
    (ahead : start.ahead = token :: others) (reaches : start.advance.Reaches final) :
    start.between final = token :: start.advance.between final := by
  obtain ⟨tokens, split⟩ := reaches.ahead
  have rest : start.advance.ahead = others := by simp [advance, ahead]
  rw [between_of_append split.symm, between_of_append]
  rw [List.cons_append, split, rest, ahead]

end Cursor

namespace Grammar

open Token (Spaced)

variable {scope : Scope} {start final : Cursor} {text : String}

/-- A group is read from one parenthesis to the other. -/
theorem exists_of_finds_group (found : group.Finds scope start text final) :
    ∃ opening inner closing, start.ahead = opening :: (inner ++ closing :: final.ahead) ∧
      opening.spells "(" = true ∧ closing.kind = .rightParen ∧ text = Token.renderRaw inner := by
  obtain ⟨opened, length, closing, rfl, rfl⟩ := finds_group_iff.mp found
  obtain ⟨token, there, closes⟩ := kind_of_closingIndex? closing
  obtain ⟨opening, others, ahead⟩ :=
    List.exists_cons_of_ne_nil (Cursor.ahead_ne_nil_of_spells opened)
  rw [Cursor.current_of_ahead_eq_cons ahead] at opened
  rw [ahead, List.tail_cons] at there ⊢
  obtain ⟨bound, rfl⟩ := List.getElem?_eq_some_iff.mp there
  refine ⟨opening, others.take length, others[length], ?_, opened, closes, rfl⟩
  simp only [Cursor.skip, ahead, List.drop_succ_cons]
  rw [← List.drop_eq_getElem_cons bound, List.take_append_drop]

/-- What is kept of a group has a blank between its operators. -/
theorem spaced_of_group (paired : ∀ token ∈ start.ahead, token.Paired)
    (found : group.Finds scope start text final) : Spaced (start.between final) text := by
  obtain ⟨opening, inner, closing, ahead, opened, closes, rfl⟩ := exists_of_finds_group found
  have read : start.between final = opening :: (inner ++ [closing]) :=
    Cursor.between_of_append (by simp [ahead])
  have opens : opening.kind = .leftParen :=
    (paired opening (by simp [ahead])).opening.mp opened
  rw [read]
  apply Spaced.cons
  · exact (Token.spaced_renderRaw inner).concat (by simp [Token.isOperator, closes])
  · simp [Token.isOperator, opens]

/-- What is kept of a clause has a blank between its operators. -/
theorem spaced_of_clause (found : Constraint.clause.Finds scope start text final) :
    Spaced (start.between final) text := by
  obtain ⟨tokens, middle, read, checked⟩ := finds_bind_iff.mp found
  obtain ⟨-, -, rfl⟩ := finds_consumed_iff.mp read
  dsimp only at checked
  split at checked
  · simp at checked
  · obtain ⟨rfl, rfl⟩ := finds_pure_iff.mp checked
    exact Token.spaced_renderRaw _

/-- What is kept of a partition expression has a blank between its operators. -/
theorem spaced_of_expression (paired : ∀ token ∈ start.ahead, token.Paired)
    (found : PartitionClause.readExpression.Finds scope start text final) :
    Spaced (start.between final) text := by
  obtain ⟨inner, middle, read, checked⟩ := finds_bind_iff.mp found
  split at checked
  · simp at checked
  · obtain ⟨rfl, rfl⟩ := finds_pure_iff.mp checked
    exact spaced_of_group paired read

theorem length_between_advance (start : Cursor) : (start.between start.advance).length ≤ 1 := by
  rw [Cursor.between, Cursor.remaining_advance, List.length_take]
  omega

/-- What is kept of a literal has a blank between its operators. -/
theorem spaced_of_literal (paired : ∀ token ∈ start.ahead, token.Paired)
    (found : Literal.grammar.Finds scope start (.raw text) final) :
    Spaced (start.between final) text := by
  have short (same : start.advance = final) : Spaced (start.between final) text :=
    .of_length (same ▸ length_between_advance start) text
  have single {literal : Literal}
      (read : (do advance; return literal).Finds scope start (.raw text) final) :
      Spaced (start.between final) text := by
    rw [finds_advance_bind_iff] at read
    exact short (finds_pure_iff.mp read).2
  unfold Literal.grammar at found
  simp only [current, finds_look_bind_iff] at found
  split at found
  · exact single found
  · exact single found
  · exact single found
  · exact single found
  · rename_i isWord
    rw [finds_advance_bind_iff, finds_sees_ite_iff] at found
    split at found
    · obtain ⟨inner, middle, read, result⟩ := finds_bind_iff.mp found
      obtain ⟨same, rfl⟩ := finds_pure_iff.mp result
      have notEnd : start.current.kind ≠ .endOfInput := by simp [isWord]
      obtain ⟨word, others, ahead⟩ :=
        List.exists_cons_of_ne_nil (Cursor.ahead_ne_nil_of_kind notEnd)
      have wordKind : word.kind = .word := by
        rw [← Cursor.current_of_ahead_eq_cons ahead, isWord]
      rw [Cursor.between_of_cons ahead read.reaches]
      have pairedOthers : ∀ token ∈ start.advance.ahead, token.Paired :=
        fun token member => paired token (List.mem_of_mem_tail member)
      cases same
      apply Spaced.cons
      · exact (spaced_of_group pairedOthers read).enclose _ ")"
      · simp [Token.isOperator, wordKind]
    · exact short (finds_pure_iff.mp found).2
  · obtain ⟨inner, middle, read, result⟩ := finds_bind_iff.mp found
    obtain ⟨same, rfl⟩ := finds_pure_iff.mp result
    cases same
    exact (spaced_of_group paired read).enclose "(" ")"
  · simp at found

end Grammar

open Grammar in
/-- What is kept of a constraint is the clause after its name. -/
theorem Constraint.spaced_of_unsupported {scope : Scope} {start final : Cursor}
    {name : Option String} {clause : String}
    (found : Constraint.grammar.Finds scope start ⟨name, .unsupported clause⟩ final) :
    ∃ body, constraintName?.Finds scope start name body ∧
      Token.Spaced (body.between final) clause := by
  obtain ⟨named, body, nameFound, after⟩ := finds_bind_iff.mp found
  rw [finds_sees_ite_iff] at after
  split at after
  · obtain ⟨key, middle, keyFound, result⟩ := finds_bind_iff.mp after
    cases (finds_pure_iff.mp result).1
  · simp only [settings, finds_look_bind_iff] at after
    split at after
    · simp at after
    · obtain ⟨kept, middle, clauseFound, result⟩ := finds_bind_iff.mp after
      obtain ⟨same, rfl⟩ := finds_pure_iff.mp result
      cases same
      exact ⟨body, nameFound, Grammar.spaced_of_clause clauseFound⟩

/-- Two operator tokens of a text that follow each other are always written with one blank between
them, also where they have no character between them in the text. So are those of every clause,
literal and partition expression that is kept as text. -/
theorem Token.tokenize_operators_spaced {text : String} {tokens : List Token}
    (read : tokenize text = .ok tokens) :
    (∀ before first second after, tokens = before ++ first :: second :: after →
      first.isOperator = true → second.isOperator = true →
        renderRaw tokens = renderRaw (before ++ [first]) ++ " " ++ renderRaw (second :: after)) ∧
    Spaced tokens (renderRaw tokens) ∧
    ∀ scope start final, (Cursor.ofTokens tokens).Reaches start →
      (∀ name clause, Constraint.grammar.Finds scope start ⟨name, .unsupported clause⟩ final →
        ∃ body, Constraint.constraintName?.Finds scope start name body ∧
          Spaced (body.between final) clause) ∧
      (∀ literal, Literal.grammar.Finds scope start (.raw literal) final →
        Spaced (start.between final) literal) ∧
      ∀ expression, PartitionClause.readExpression.Finds scope start expression final →
        Spaced (start.between final) expression := by
  refine ⟨?_, spaced_renderRaw tokens, ?_⟩
  · rintro before first second after rfl isFirst isSecond
    exact renderRaw_of_operators isFirst isSecond
  intro scope start final reaches
  have paired : ∀ token ∈ start.ahead, token.Paired := fun token member =>
    Lexer.paired_ofTokens read token (reaches.ahead.subset member)
  refine ⟨?_, fun literal => Grammar.spaced_of_literal paired,
    fun expression => Grammar.spaced_of_expression paired⟩
  intro name clause found
  exact Constraint.spaced_of_unsupported found

/-- The two characters of `>=` are written apart, also in the group that is kept. -/
theorem Token.tokenize_operators_spaced_atLeast :
    let text := "(a >= 1)"
    let scope : Scope := ⟨⟨";", false⟩, .none⟩
    ∃ tokens final, tokenize text = .ok tokens ∧ renderRaw tokens = "(a > = 1)" ∧
      Literal.grammar.Finds scope (Cursor.ofTokens tokens) (.raw "(a > = 1)") final ∧
      Spaced ((Cursor.ofTokens tokens).between final) "(a > = 1)" := by
  intro text scope
  have read : tokenize text = .ok ([⟨.leftParen, "(", ⟨1, 1⟩⟩, ⟨.word, "a", ⟨1, 2⟩⟩] ++
      ⟨.symbol, ">", ⟨1, 4⟩⟩ :: ⟨.equals, "=", ⟨1, 5⟩⟩ :: [⟨.integer, "1", ⟨1, 7⟩⟩,
        ⟨.rightParen, ")", ⟨1, 8⟩⟩, finish ⟨1, 9⟩]) :=
    eq_ok_of_toOption (by decide +kernel)
  obtain ⟨rendered, -, kept⟩ := tokenize_operators_spaced read
  refine ⟨_, _, read, ?_, ⟨rfl, rfl⟩, (kept scope _ _ (.refl _)).2.1 _ ⟨rfl, rfl⟩⟩
  rw [rendered _ _ _ _ rfl rfl rfl]
  rfl

end TableDdl
