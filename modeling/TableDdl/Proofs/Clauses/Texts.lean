import TableDdl.Proofs.Clauses.Alterations
import TableDdl.Proofs.Script.EntryPoints
import TableDdl.Proofs.Segments.Steps

/-!
# The clauses of a text

The clauses of an alteration that is read from a text are accepted one by one, and commas stand
between them. A comma may also stand behind the last clause, and that is the only way in which an
alteration without a partitioning can end in one, since no clause ends in a separator.
-/

namespace TableDdl

open Grammar
open AlterOption (clauseStops)

/-! ## Separators -/

/-- A token as it comes from a text: it spells a separator only if it is that one, and it is no end
of input. -/
structure Token.Separable (token : Token) : Prop where
  /-- A comma. -/
  comma : token.spells "," = true ∨ token.kind = .comma → token.placeless = Token.comma
  /-- A semicolon. -/
  semicolon : token.spells ";" = true → token.placeless = Token.semicolon
  /-- The token is not the last one. -/
  inside : token.isEnd = false

theorem Lexer.separable_ofTokens {text : String} {tokens : List Token}
    (lexed : Token.tokenize text = .ok tokens) :
    ∀ token ∈ (Cursor.ofTokens tokens).ahead, token.Separable := by
  intro token member
  obtain ⟨lexes, -⟩ := lexes_ofTokens lexed
  have there : token.placeless ∈ (Cursor.ofTokens tokens).view := List.mem_map_of_mem member
  refine ⟨?_, fun spelled => ?_, lexes.isEnd_eq_false token.placeless there⟩
  · rintro (spelled | isComma)
    · exact eq_comma_of_spells lexes member spelled
    · have text : token.text = "," := (lexes.forall_mem Step.proper _ there).comma isComma
      rw [Token.placeless, isComma, text]
      rfl
  · have kind : some Token.Kind.semicolon = some token.placeless.kind :=
      (marked_of_lexes lexes member).kind_of_spells (show ';' ∈ marks by decide) spelled
    have isSemicolon : token.kind = .semicolon := (Option.some.inj kind).symm
    have text : token.text = ";" := by
      simpa [Token.spells, isSemicolon, Token.isPunctuation, Token.Kind.isPunctuation] using spelled
    rw [Token.placeless, isSemicolon, text]
    rfl

namespace Cursor

variable {start : Cursor} {terminator : String}

theorem separable_of_reaches {final : Cursor} (separable : ∀ token ∈ start.ahead, token.Separable)
    (reaches : start.Reaches final) : ∀ token ∈ final.ahead, token.Separable :=
  fun token member => separable token (reaches.ahead.mem member)

theorem separable_current (separable : ∀ token ∈ start.ahead, token.Separable)
    (more : start.ahead ≠ []) : start.current.Separable :=
  separable _ (by rw [ahead_eq_cons more]; exact List.mem_cons_self)

/-- Among the tokens of a text only the last one is an end of input. -/
theorem ahead_eq_nil_of_atEnd (separable : ∀ token ∈ start.ahead, token.Separable)
    (ended : start.atEnd = true) : start.ahead = [] := by
  by_contra more
  have inside := (separable_current separable more).inside
  rw [atEnd, inside] at ended
  exact Bool.noConfusion ended

theorem between_pastTerminators :
    start.between (start.pastTerminators terminator) =
      start.ahead.takeWhile (·.spells terminator) := by
  refine between_of_append ?_
  rw [pastTerminators, skip, Lexer.drop_length_takeWhile, List.takeWhile_append_dropWhile]

theorem between_cons {final : Cursor} (inside : start.atEnd = false)
    (reaches : start.advance.Reaches final) :
    start.between final = start.current :: start.advance.between final :=
  between_of_cons (ahead_eq_cons (ahead_ne_nil_of_not_atEnd inside)) reaches

theorem view_eq_cons (more : start.ahead ≠ []) :
    start.view = start.current.placeless :: start.advance.view := by
  rw [view, ahead_eq_cons more]
  rfl

end Cursor

namespace AlterTable

variable {start final : Cursor} {name : String} {others : List AlterOption}

/-- A clause ends before a separator of a text. -/
theorem bounds_of_separator (separable : ∀ token ∈ start.ahead, token.Separable) {mark : String}
    (isMark : mark ∈ [",", ";"]) (spelled : start.current.spells mark = true) :
    Bounds clauseStops start.view := by
  have more := Cursor.ahead_ne_nil_of_spells spelled
  have here := Cursor.separable_current separable more
  rw [Cursor.view_eq_cons more]
  simp only [List.mem_cons, List.not_mem_nil, or_false] at isMark
  rcases isMark with rfl | rfl
  · rw [here.comma (.inl spelled)]
    exact bounds_of_spells (show "," ∈ Token.clauseMarks by decide) (by decide) (by decide)
  · rw [here.semicolon spelled]
    exact bounds_of_spells (show ";" ∈ Token.clauseMarks by decide) (by decide) (by decide)

theorem bounds_of_isOver (separable : ∀ token ∈ start.ahead, token.Separable)
    (isOver : (start.atEnd || start.current.spells ";") = true) :
    Bounds clauseStops start.view := by
  rw [Bool.or_eq_true] at isOver
  rcases isOver with ended | spelled
  · rw [Cursor.view_eq_nil_iff.mpr (Cursor.ahead_eq_nil_of_atEnd separable ended)]
    exact .nil
  · exact bounds_of_separator separable (by simp) spelled

/-- The clauses after the first one are accepted one by one. A comma stands before each of them, and
a further one may stand behind the last. -/
theorem exists_further_of_repeats (separable : ∀ token ∈ start.ahead, token.Separable)
    (run : Repeats laterClause? ⟨.standard, clauseStops⟩ start others final)
    (isOver : (final.atEnd || final.current.spells ";") = true) :
    Bounds clauseStops start.view ∧ ∃ clauses dangling, dangling ∈ [[], [Token.comma]] ∧
      (start.between final).map Token.placeless =
        Token.further (List.map Token.placeless) clauses ++ dangling ∧
      List.Forall₂ (AlterOption.grammar.ReadsAlone clauseStops) clauses others := by
  induction run with
  | @done start final none =>
      rw [finds_laterClause?_iff] at none
      split at none
      · rename_i comma
        split at none
        · obtain ⟨-, rfl⟩ := none
          refine ⟨bounds_of_separator separable (by simp) comma, [], [Token.comma], by simp, ?_,
            .nil⟩
          have more := Cursor.ahead_ne_nil_of_spells comma
          have here := (Cursor.separable_current separable more).comma (.inl comma)
          have passed : start.between start.advance = [start.current] :=
            Cursor.between_of_append (Cursor.ahead_eq_cons more)
          rw [passed, List.map_singleton, here]
          rfl
        · obtain ⟨_, ⟨⟩, _⟩ := none
      · obtain ⟨-, rfl⟩ := none
        refine ⟨bounds_of_isOver separable isOver, [], [], by simp, ?_, .nil⟩
        simp [Cursor.between, Token.further]
  | @more start middle final option others later progress after ih =>
      obtain ⟨comma, -, found⟩ := finds_laterClause?_some_iff.mp later
      have more := Cursor.ahead_ne_nil_of_spells comma
      have here := (Cursor.separable_current separable more).comma (.inl comma)
      obtain ⟨bounds, clauses, dangling, isDangling, read, alone⟩ :=
        ih (Cursor.separable_of_reaches separable later.reaches) isOver
      refine ⟨bounds_of_separator separable (by simp) comma,
        start.advance.between middle :: clauses, dangling, isDangling, ?_,
        .cons (AlterOption.alone_of_finds found bounds) alone⟩
      have further := (finds_many_of_repeats after).reaches
      rw [Cursor.between_cons (isEnd_of_spells comma) (found.reaches.trans further),
        Cursor.between_append found.reaches further, List.map_cons, here, List.map_append, read,
        Token.further_cons, List.cons_append, List.append_assoc]
  | stuck later standstill => exact absurd (progresses_laterClause? later) standstill

theorem names_of_finds {settings : Settings}
    (found : Grammar.name.Finds ⟨settings, .none⟩ start name final) :
    Names name (start.between final) := by
  have none (cursor : Cursor) : cursor.between cursor = [] := by simp [Cursor.between]
  obtain ⟨name?, middle, reading, result⟩ := finds_bind_iff.mp found
  cases name? with
  | none => simp at result
  | some read =>
      obtain ⟨rfl, rfl⟩ := finds_pure_iff.mp result
      rw [Grammar.name?, finds_consume_ite_iff] at reading
      split at reading
      · rename_i opens
        simp only [seesKind, current, finds_look_bind_iff] at reading
        split at reading
        · rename_i isIdentifier
          rw [finds_look_bind_iff, finds_advance_bind_iff] at reading
          obtain ⟨closes, reading⟩ := finds_expect_bind_iff.mp reading
          obtain ⟨text, rfl⟩ := finds_pure_iff.mp reading
          have kind := of_decide_eq_true isIdentifier
          have toClosing : start.advance.Reaches start.advance.advance.advance :=
            (Cursor.Reaches.advance _).trans (.advance _)
          rw [Cursor.between_cons (isEnd_of_spells opens) toClosing,
            Cursor.between_cons (isEnd_of_kind kind (by decide)) (.advance _),
            Cursor.between_cons (isEnd_of_spells closes) (.refl _), none]
          exact .quoted opens kind closes (Option.some.inj text)
        · simp at reading
      · rename_i unquoted
        simp only [seesKind, atStop, current, finds_look_bind_iff] at reading
        split at reading
        · rename_i bare
          rw [finds_look_bind_iff, finds_advance_bind_iff] at reading
          obtain ⟨text, rfl⟩ := finds_pure_iff.mp reading
          simp only [Bool.and_eq_true, decide_eq_true_eq] at bare
          rw [Cursor.between_cons (isEnd_of_kind bare.1 (by decide)) (.refl _), none]
          exact .bare bare.1 (by simpa using unquoted) (Option.some.inj text)
        · simp at reading

/-! ## The documented form -/

/-- The documented form of an alteration without a partitioning: its keywords, the name of the table
and the clauses with commas between them, each of which is accepted on its own. -/
def HasForm (alteration : AlterTable) (tokens : List Token) : Prop :=
  ∃ head list clauses, tokens = head ++ list ∧ Heads alteration.tableName head ∧ clauses ≠ [] ∧
    list.map Token.placeless = Token.separated (List.map Token.placeless) clauses ∧
    List.Forall₂ (AlterOption.grammar.ReadsAlone clauseStops) clauses alteration.options

/-- What is read as an alteration without a partitioning has the documented form, up to a comma
behind the last clause. -/
theorem exists_form_of_finds {alteration : AlterTable}
    (separable : ∀ token ∈ start.ahead, token.Separable)
    (found : AlterTable.grammar.Finds ⟨.standard, .none⟩ start alteration final)
    (whole : alteration.partitioning = none) :
    ∃ tokens dangling, start.between final = tokens ++ dangling ∧ alteration.HasForm tokens ∧
      dangling.map Token.placeless ∈ [[], [Token.comma]] := by
  obtain ⟨alters, tables, name, behind, options, middle, naming, list, rest⟩ :=
    finds_alterTable_iff.mp found
  rw [finds_afterClauses_iff] at rest
  split at rest
  · obtain ⟨partitioning, _, -, ended⟩ := rest
    obtain ⟨-, -, rfl, -⟩ := finds_ending_iff.mp ended
    exact absurd whole nofun
  obtain ⟨isOver, nonempty, rfl, rfl⟩ := finds_ending_iff.mp rest
  rw [finds_withStops_iff, finds_clauses_iff] at list
  split at list
  · rw [← list.1] at nonempty
    exact absurd nonempty (by simp)
  obtain ⟨first, others, last, rfl, reading, run⟩ := list
  have toName : start.Reaches behind :=
    ((Cursor.Reaches.advance start).trans (.advance _)).trans naming.reaches
  have toEnd := (finds_many_of_repeats run).reaches
  obtain ⟨bounds, clauses, dangling, isDangling, read, alone⟩ := exists_further_of_repeats
    (Cursor.separable_of_reaches separable (toName.trans reading.reaches)) run isOver
  -- The keywords and the name come first, then the first clause and those after it.
  have head : start.between behind = start.current :: start.advance.current ::
      start.advance.advance.between behind := by
    rw [Cursor.between_cons (isEnd_of_spells alters) ((Cursor.Reaches.advance _).trans
      naming.reaches), Cursor.between_cons (isEnd_of_spells tables) naming.reaches]
  have list : (behind.between middle).map Token.placeless =
      Token.separated (List.map Token.placeless) (behind.between last :: clauses) ++ dangling := by
    rw [Cursor.between_append reading.reaches toEnd, List.map_append, read, Token.separated_cons,
      List.append_assoc]
  obtain ⟨listed, left, split, joined, rfl⟩ := List.map_eq_append_iff.mp list
  refine ⟨start.between behind ++ listed, left, ?_, ⟨start.between behind, listed, _, rfl, ?_,
    by simp, joined, .cons (AlterOption.alone_of_finds reading bounds) alone⟩, isDangling⟩
  · rw [Cursor.between_append toName (reading.reaches.trans toEnd), split, List.append_assoc]
  · rw [head]
    exact .intro alters tables (names_of_finds naming)

/-- Clauses with commas between them do not end in a separator. -/
theorem exists_last_of_clauses {clauses : List (List Token)} {options : List AlterOption}
    (nonempty : clauses ≠ [])
    (alone : List.Forall₂ (AlterOption.grammar.ReadsAlone clauseStops) clauses options) :
    ∃ token ∈ (Token.separated (List.map Token.placeless) clauses).getLast?,
      ¬ token.Separates := by
  induction alone with
  | nil => exact absurd rfl nonempty
  | @cons clause option clauses options first others ih =>
      cases others with
      | nil =>
          obtain ⟨token, last, other⟩ := AlterOption.exists_last_of_alone first
          refine ⟨token.placeless, ?_, other⟩
          rw [Token.separated, List.getLast?_map, Option.mem_def.mp last]
          rfl
      | cons second others =>
          obtain ⟨token, last, other⟩ := ih (by simp)
          refine ⟨token, ?_, other⟩
          rw [Token.separated, List.getLast?_append_of_ne_nil _ (by simp), List.getLast?_cons,
            Option.mem_def.mp last]
          rfl

/-- No alteration of the documented form ends in a separator. -/
theorem HasForm.not_separates {alteration : AlterTable} {tokens : List Token}
    (form : alteration.HasForm tokens) : ∀ token ∈ tokens.getLast?, ¬ token.Separates := by
  obtain ⟨head, list, clauses, rfl, -, nonempty, joined, alone⟩ := form
  obtain ⟨last, isLast, other⟩ := exists_last_of_clauses nonempty alone
  rw [← joined, List.getLast?_map] at isLast
  obtain ⟨token, isToken, rfl⟩ := Option.map_eq_some_iff.mp isLast
  intro found member
  rw [List.getLast?_append, isToken, Option.some_or] at member
  obtain rfl : token = found := Option.some.inj member
  exact other

/-- The documented form is accepted, and so is a comma more. -/
theorem HasForm.reads {alteration : AlterTable} {tokens dangling after : List Token}
    (form : alteration.HasForm tokens) (whole : alteration.partitioning = none)
    (isDangling : dangling ∈ [[], [Token.comma]]) (ended : Table.Ended after) :
    AlterTable.grammar.Reads ⟨.standard, .none⟩
      (tokens.map Token.placeless ++ (dangling ++ after)) alteration after := by
  obtain ⟨name, options, partitioning⟩ := alteration
  obtain rfl : partitioning = none := whole
  obtain ⟨head, list, clauses, rfl, heads, nonempty, joined, alone⟩ := form
  have someOptions : options ≠ [] := by
    rintro rfl
    exact nonempty (List.forall₂_nil_right_iff.mp alone)
  intro start view
  rw [List.map_append, List.append_assoc, joined] at view
  obtain ⟨middle, -, viewMiddle, goesOn⟩ :=
    exists_afterClauses heads nonempty alone isDangling (endsList_of_ended ended) view
  refine ⟨middle, goesOn _ _ ?_, viewMiddle⟩
  have noPartition : middle.current.spells "PARTITION" = false :=
    Cursor.not_spells_of_unseen viewMiddle (ended.unseen (by decide))
  have isOver : (middle.atEnd || middle.current.spells Settings.standard.terminator) = true :=
    ended.atTerminator viewMiddle rfl
  rw [finds_afterClauses_iff, if_neg (by simp [noPartition])]
  exact finds_ending someOptions none isOver

end AlterTable

/-! ## Texts -/

namespace Cursor

variable {start : Cursor}

/-- What is passed over before a statement are semicolons. -/
theorem placeless_of_mem_pastTerminators (separable : ∀ token ∈ start.ahead, token.Separable) :
    ∀ token ∈ start.between (start.pastTerminators ";"), token.placeless = Token.semicolon := by
  intro token member
  rw [between_pastTerminators] at member
  have there : token ∈ start.ahead := (List.takeWhile_prefix _).mem member
  have spelled := List.mem_takeWhile_imp member
  exact (separable token there).semicolon spelled

/-- Where nothing but terminators is left, semicolons are left. -/
theorem placeless_of_mem_ahead (separable : ∀ token ∈ start.ahead, token.Separable)
    (ended : (start.pastTerminators ";").atEnd = true) :
    ∀ token ∈ start.ahead, token.placeless = Token.semicolon := by
  have reaches : start.Reaches (start.pastTerminators ";") := .skip _ _
  have done := ahead_eq_nil_of_atEnd (separable_of_reaches separable reaches) ended
  have whole := reaches.ahead_eq
  rw [done, List.append_nil] at whole
  rw [whole]
  exact placeless_of_mem_pastTerminators separable

/-- Semicolons before a token that is none are passed over. -/
theorem view_pastTerminators_of_semicolons {before after : List Token}
    (view : start.view = before.map Token.placeless ++ after)
    (semicolons : ∀ token ∈ before, token.placeless = Token.semicolon)
    (other : Unseen ";" after) : (start.pastTerminators ";").view = after := by
  have spelled : ∀ token ∈ before.map Token.placeless, token.spells ";" = true := by
    intro token member
    obtain ⟨origin, there, rfl⟩ := List.mem_map.mp member
    rw [semicolons origin there]
    decide
  rw [view_pastTerminators, view, List.dropWhile_append_of_pos spelled]
  cases after with
  | nil => rfl
  | cons token others => exact List.dropWhile_cons_of_neg (by simp [other token rfl])

end Cursor

namespace Statement

variable {start final : Cursor} {text : String} {alteration : AlterTable}

theorem finds_alone_alterTable_iff :
    alone.Finds ⟨.standard, .none⟩ start (alterTable alteration) final ↔
      ∃ middle, AlterTable.grammar.Finds ⟨.standard, .none⟩ (start.pastTerminators ";") alteration
          middle ∧
        (middle.pastTerminators ";").atEnd = true ∧ middle.pastTerminators ";" = final := by
  rw [finds_alone_past_iff, finds_whole_iff]
  simp only [finds_alterTable_iff]
  rfl

/-- Apart from semicolons before and behind them, the tokens are those of the text. -/
def IsStatementOf (text : String) (tokens : List Token) : Prop :=
  ∃ before after place,
    Token.tokenize text = .ok (before ++ (tokens ++ (after ++ [Token.finish place]))) ∧
      ∀ token ∈ before ++ after, token.placeless = Token.semicolon

/-- An alteration that is read from a text is found among its tokens. -/
theorem exists_statement_of_parse
    (read : Statement.parse .standard text = .ok (alterTable alteration)) :
    ∃ start final, (∀ token ∈ start.ahead, token.Separable) ∧
      AlterTable.grammar.Finds ⟨.standard, .none⟩ start alteration final ∧
        IsStatementOf text (start.between final) := by
  obtain ⟨lexemes, last, lexed, found⟩ := parse_eq_ok_iff.mp read
  obtain ⟨final, found, ended, -⟩ := finds_alone_alterTable_iff.mp found
  have separable := Lexer.separable_ofTokens lexed
  obtain ⟨body, place, rfl, -⟩ := Lexer.lexes_of_tokensFrom lexed
  let first := Cursor.ofTokens (body ++ [Token.finish place])
  have reaches : first.Reaches (first.pastTerminators ";") := .skip _ _
  have separableHere := Cursor.separable_of_reaches separable reaches
  refine ⟨_, final, separableHere, found, first.between (first.pastTerminators ";"), final.ahead,
    place, ?_, fun token member => ?_⟩
  · have whole : body = first.ahead := by simp only [first, Cursor.ofTokens_append_finish]
    rw [lexed, whole, reaches.ahead_eq, found.reaches.ahead_eq, List.append_assoc,
      List.append_assoc]
  · rcases List.mem_append.mp member with passed | left
    · exact Cursor.placeless_of_mem_pastTerminators separable token passed
    · exact Cursor.placeless_of_mem_ahead
        (Cursor.separable_of_reaches separableHere found.reaches) ended token left

/-- An alteration that is read from tokens before semicolons is read from a text with these
tokens. -/
theorem parse_of_isStatementOf {tokens : List Token} (isStatement : IsStatementOf text tokens)
    (starts : ∃ token others, tokens = token :: others ∧ token.spells "ALTER" = true)
    (reads : ∀ after, Table.Ended after → AlterTable.grammar.Reads ⟨.standard, .none⟩
      (tokens.map Token.placeless ++ after) alteration after) :
    Statement.parse .standard text = .ok (alterTable alteration) := by
  obtain ⟨before, after, place, lexed, semicolons⟩ := isStatement
  let first := Cursor.ofTokens (before ++ (tokens ++ (after ++ [Token.finish place])))
  have view : first.view =
      before.map Token.placeless ++ (tokens.map Token.placeless ++ after.map Token.placeless) := by
    have joined : before ++ (tokens ++ (after ++ [Token.finish place])) =
        (before ++ (tokens ++ after)) ++ [Token.finish place] := by simp
    simp only [first, joined, Cursor.view_ofTokens_finish, List.map_append]
  have noTerminator : Unseen ";" (tokens.map Token.placeless ++ after.map Token.placeless) := by
    obtain ⟨token, others, rfl, alters⟩ := starts
    refine unseen_cons ?_
    rw [← Bool.not_eq_true, Token.spells_placeless]
    exact fun spelled => absurd (Token.upper_eq_of_spells spelled alters) (by decide)
  have ended : Table.Ended (after.map Token.placeless) := by
    intro token member
    rw [List.head?_map] at member
    obtain ⟨origin, isFirst, rfl⟩ := Option.map_eq_some_iff.mp member
    exact semicolons origin (List.mem_append_right _ (List.mem_of_head? isFirst))
  obtain ⟨final, found, viewFinal⟩ := reads _ ended (first.pastTerminators ";")
    (Cursor.view_pastTerminators_of_semicolons view
      (fun token member => semicolons token (List.mem_append_left _ member)) noTerminator)
  have done : (final.pastTerminators ";").view = [] := by
    refine Cursor.view_pastTerminators_of_semicolons (by rw [viewFinal, List.append_nil])
      (fun token member => semicolons token (List.mem_append_right _ member)) (unseen_nil _)
  exact parse_eq_ok_iff.mpr ⟨_, _, lexed, finds_alone_alterTable_iff.mpr
    ⟨final, found, Cursor.isEnd_of_view_nil done, rfl⟩⟩

/-- A text is read as an alteration without a partitioning exactly if, apart from semicolons before
and behind it, it has the documented form, or that form with one comma more. The form itself ends in
neither a comma nor a semicolon, so that the last token is a comma only in the second case. -/
theorem parse_clause_list_iff (text name : String) (options : List AlterOption) :
    Statement.parse .standard text = .ok (alterTable ⟨name, options, none⟩) ↔
      ∃ tokens dangling, IsStatementOf text (tokens ++ dangling) ∧
        AlterTable.HasForm ⟨name, options, none⟩ tokens ∧
        (∀ token ∈ tokens.getLast?, token.kind ≠ .comma ∧ token.spells ";" = false) ∧
        dangling.map Token.placeless ∈ [[], [Token.comma]] := by
  constructor
  · intro read
    obtain ⟨start, final, separable, found, isStatement⟩ := exists_statement_of_parse read
    obtain ⟨tokens, dangling, split, form, isDangling⟩ :=
      AlterTable.exists_form_of_finds separable found rfl
    rw [split] at isStatement
    refine ⟨tokens, dangling, isStatement, form, fun token last => ?_, isDangling⟩
    have other := form.not_separates token last
    have isToken : token.Separable := by
      refine separable token ?_
      rw [found.reaches.ahead_eq, split]
      simp [List.mem_of_getLast? last]
    constructor
    · intro isComma
      exact other (by simp [Token.Separates, isToken.comma (.inr isComma)])
    · rw [← Bool.not_eq_true]
      intro spelled
      exact other (by simp [Token.Separates, isToken.semicolon spelled])
  · rintro ⟨tokens, dangling, isStatement, form, -, isDangling⟩
    refine parse_of_isStatementOf isStatement ?_ fun after ended => ?_
    · obtain ⟨head, list, clauses, rfl, heads, -⟩ := form
      obtain ⟨alters, -, -⟩ := heads
      exact ⟨_, _, rfl, alters⟩
    · rw [List.map_append, List.append_assoc]
      exact form.reads rfl isDangling ended

/-- A text whose last token before the end of input is a comma is accepted. -/
theorem parse_clause_list_iff_comma :
    let text := "ALTER TABLE t ADD COLUMN a INT,"
    let tokens : List Token := [⟨.word, "ALTER", ⟨1, 1⟩⟩, ⟨.word, "TABLE", ⟨1, 7⟩⟩,
      ⟨.word, "t", ⟨1, 13⟩⟩, ⟨.word, "ADD", ⟨1, 15⟩⟩, ⟨.word, "COLUMN", ⟨1, 19⟩⟩,
      ⟨.word, "a", ⟨1, 26⟩⟩, ⟨.word, "INT", ⟨1, 28⟩⟩]
    let option : AlterOption := ⟨.column, .add, .column { name := "a", typeName := "INT" }, []⟩
    Token.tokenize text = .ok (tokens ++ [⟨.comma, ",", ⟨1, 31⟩⟩, Token.finish ⟨1, 32⟩]) ∧
      AlterTable.HasForm ⟨"t", [option], none⟩ tokens ∧
      Statement.parse .standard text = .ok (alterTable ⟨"t", [option], none⟩) := by
  intro text tokens option
  have lexed : Token.tokenize text =
      .ok (tokens ++ [⟨.comma, ",", ⟨1, 31⟩⟩, Token.finish ⟨1, 32⟩]) :=
    eq_ok_of_toOption (by decide +kernel)
  have alone : AlterOption.grammar.ReadsAlone clauseStops (tokens.drop 3) option :=
    ⟨.start, eq_ok_of_toOption (by decide +kernel), Cursor.ext_of_tokens (by decide +kernel)⟩
  have form : AlterTable.HasForm ⟨"t", [option], none⟩ tokens :=
    ⟨tokens.take 3, tokens.drop 3, [tokens.drop 3], rfl,
      .intro (by decide) (by decide) (.bare rfl (by decide) rfl), by simp, rfl, .cons alone .nil⟩
  refine ⟨lexed, form, (parse_clause_list_iff text "t" [option]).mpr
    ⟨tokens, [⟨.comma, ",", ⟨1, 31⟩⟩], ⟨[], [], ⟨1, 32⟩, lexed, nofun⟩, form, ?_, by decide⟩⟩
  decide

end Statement

end TableDdl
