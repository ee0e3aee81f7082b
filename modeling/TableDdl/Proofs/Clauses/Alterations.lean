import TableDdl.Proofs.Clauses.Definitions
import TableDdl.Proofs.Extension.Alterations
import TableDdl.Proofs.RoundTrip.Alterations
import TableDdl.Proofs.RoundTrip.Continuations

/-!
# Alterations as lists of clauses

Clauses that are accepted one by one are accepted in one alteration, with commas between them, and a
partitioning may follow the last one without a comma. Each clause ends before a comma, a semicolon
or a partitioning as it does where nothing follows it.
-/

namespace TableDdl

open Grammar
open AlterOption (clauseStops)

/-! ## Tokens on their own -/

/-- Followed by nothing but an end of input, the tokens are the value that the grammar finds, to the
last of them. -/
def Grammar.ReadsAlone {α : Type} (grammar : Grammar α) (stops : Stops) (tokens : List Token)
    (value : α) : Prop :=
  ∃ place, grammar.Finds ⟨.standard, stops⟩ (Cursor.ofTokens (tokens ++ [Token.finish place])) value
    (Cursor.ofTokens [Token.finish place])

namespace Cursor

variable {start final : Cursor}

theorem view_ofTokens_finish (tokens : List Token) (place : Location) :
    (ofTokens (tokens ++ [Token.finish place])).view = tokens.map Token.placeless := by
  rw [ofTokens_append_finish, view]

theorem Reaches.ahead_eq (reaches : start.Reaches final) :
    start.ahead = start.between final ++ final.ahead := by
  obtain ⟨before, split⟩ := reaches.ahead
  rw [between_of_append split.symm, split]

/-- The cursor at the end of a sequence. -/
theorem Reaches.eq_end {place : Location} (reaches : start.Reaches final)
    (finish : start.finish = Token.finish place) (done : final.view = []) :
    final = ofTokens [Token.finish place] := by
  have last : start.Reaches (ofTokens [Token.finish place]) := ⟨List.nil_suffix, finish.symm⟩
  refine reaches.eq_of_remaining last ?_
  rw [← length_view, done]
  rfl

theorem Reaches.view_eq (reaches : start.Reaches final) :
    start.view = (start.between final).map Token.placeless ++ final.view := by
  rw [view, reaches.ahead_eq, List.map_append]
  rfl

end Cursor

/-- A token that spells one of the marks ends a clause, unless it opens a parenthesis. -/
theorem bounds_of_spells {token : Token} {rest : List Token} {mark : String}
    (isMark : mark ∈ Token.clauseMarks) (spelled : token.spells mark = true)
    (notOpen : token.kind ≠ .leftParen) : Bounds clauseStops (token :: rest) := by
  have known : ∀ mark ∈ Token.clauseMarks, Text.upper mark = mark ∧
      (clauseStops.adding [","]).words.contains mark = true := by decide
  obtain ⟨upper, isStop⟩ := known mark isMark
  refine ⟨?_, AlterOption.ends_cons (.inr ⟨isEnd_of_spells spelled, notOpen, ?_⟩)⟩
  · intro first member
    obtain rfl : token = first := by simpa using member
    exact ⟨mark, isMark, spelled⟩
  · rw [Token.spells] at spelled
    rw [Stops.stopAt]
    split at spelled
    · rw [if_pos ‹_›]
      rw [Text.sameWord, beq_iff_eq] at spelled
      rwa [spelled, upper]
    · rw [if_neg ‹_›]
      simp only [Bool.and_eq_true, beq_iff_eq] at spelled ⊢
      exact ⟨spelled.1, spelled.2 ▸ isStop⟩

/-! ## Clauses on their own -/

namespace AlterOption

variable {scope : Scope} {start final : Cursor} {option : AlterOption} {clause after : List Token}

/-- The words with which a clause can begin: the keys of table options and the actions. -/
def openingWords : List String :=
  TableOption.keyWords ++ AlterAction.all.map AlterAction.keyword

theorem exists_keyword_of_finds (found : AlterOption.grammar.Finds scope start option final) :
    ∃ word, start.current.keyword? = some word ∧ Text.upper word ∈ openingWords := by
  obtain ⟨options, middle, before, after⟩ := finds_bind_iff.mp found
  cases starts : TableOption.startsAt start.current start.next with
  | true =>
      unfold TableOption.startsAt at starts
      split at starts
      · cases starts
      · rename_i word isWord
        refine ⟨word, isWord, ?_⟩
        split at starts
        · rename_i isDefault
          rw [isDefault]
          decide
        split at starts
        · rename_i isPair
          rcases isPair with rfl | rfl <;> decide
        · refine List.mem_append_left _ ?_
          simpa [TableOption.isKeyWord] using starts
  | false =>
      have noOption : TableOption.options.Finds scope start [] start := by
        refine finds_many_of_repeats (.done ?_)
        rw [TableOption.atStart, finds_look_bind_iff, starts]
        simp
      obtain ⟨-, rfl⟩ := before.functional noOption
      obtain ⟨action, last, reading, -⟩ := finds_bind_iff.mp after
      rw [readAction, keyword?, finds_look_bind_iff] at reading
      split at reading
      · rename_i action known
        refine ⟨action.keyword, by simpa using List.find?_some known, ?_⟩
        cases action <;> decide
      · exact (finds_refuse_iff.mp reading).elim

/-- A clause does not begin where the clauses are over. -/
theorem endsClauses_of_finds (semicolon : scope.settings.terminator = ";")
    (found : AlterOption.grammar.Finds scope start option final) :
    AlterTable.endsClauses scope start = false := by
  obtain ⟨word, isWord, opens⟩ := exists_keyword_of_finds found
  have inside : start.atEnd = false := isEnd_of_keyword? isWord
  have unseen (mark : String) (other : Text.upper (Text.upper mark) ∉ openingWords) :
      start.current.spells mark = false := by
    by_contra spelled
    rw [Token.keyword?] at isWord
    split at isWord
    · rename_i kind
      simp only [Token.spells, kind, if_true, Text.sameWord, Bool.not_eq_false,
        beq_iff_eq] at spelled
      rw [spelled] at isWord
      rw [← Option.some.inj isWord] at opens
      exact other opens
    · cases isWord
  rw [AlterTable.endsClauses, semicolon, inside, unseen ";" (by decide),
    unseen "PARTITION" (by decide)]
  rfl

theorem shares_alone (view : start.view = clause.map Token.placeless ++ after) (place : Location) :
    Cursor.Shares [] after (Cursor.ofTokens (clause ++ [Token.finish place])) start :=
  ⟨clause.map Token.placeless, by rw [Cursor.view_ofTokens_finish, List.append_nil], view⟩

/-- A clause that is accepted on its own is accepted before whatever ends a clause. -/
theorem reads_of_alone (alone : AlterOption.grammar.ReadsAlone clauseStops clause option)
    (bounds : Bounds clauseStops after) :
    AlterOption.grammar.Reads ⟨.standard, clauseStops⟩ (clause.map Token.placeless ++ after) option
      after := by
  intro start view
  obtain ⟨place, found⟩ := alone
  have boundary : Boundary clauseStops [] after := ⟨.nil, bounds, by decide⟩
  obtain ⟨-, finalRight, foundRight, last⟩ :=
    clausal_alterOption boundary _ _ _ _ (shares_alone view place) found (Nat.zero_le _)
  exact ⟨finalRight, foundRight, (last.view_of_not_before (Nat.lt_irrefl 0)).2⟩

/-- A clause that is found before what ends a clause is accepted on its own. -/
theorem alone_of_finds
    (found : AlterOption.grammar.Finds ⟨.standard, clauseStops⟩ start option final)
    (bounds : Bounds clauseStops final.view) :
    AlterOption.grammar.ReadsAlone clauseStops (start.between final) option := by
  have boundary : Boundary clauseStops final.view [] := ⟨bounds, .nil, by decide⟩
  let short := Cursor.ofTokens (start.between final ++ [Token.finish .start])
  have shares : Cursor.Shares final.view [] start short :=
    ⟨(start.between final).map Token.placeless, found.reaches.view_eq, by
      rw [Cursor.view_ofTokens_finish, List.append_nil]⟩
  obtain ⟨-, finalShort, foundShort, last⟩ :=
    clausal_alterOption boundary _ _ _ _ shares found (by rw [Cursor.length_view])
  have done := (last.view_of_not_before (by simp [Cursor.length_view])).2
  have finish : short.finish = Token.finish .start := by
    simp only [short, Cursor.ofTokens_append_finish]
  exact ⟨.start, foundShort.reaches.eq_end finish done ▸ foundShort⟩

/-- A clause has tokens, and its last one is no separator. -/
theorem exists_last_of_alone (alone : AlterOption.grammar.ReadsAlone clauseStops clause option) :
    ∃ token ∈ clause.getLast?, ¬ token.Separates := by
  obtain ⟨place, found⟩ := alone
  have boundary : Boundary clauseStops [] [] := ⟨.nil, .nil, by decide⟩
  have shares (cursor : Cursor) : Cursor.Shares [] [] cursor cursor :=
    ⟨cursor.view, by simp, by simp⟩
  obtain ⟨lands, -⟩ := clausal_alterOption boundary _ _ _ _ (shares _) found (Nat.zero_le _)
  have progress := progresses_alterOption _ _ _ _ found
  have read : (Cursor.ofTokens (clause ++ [Token.finish place])).between
      (Cursor.ofTokens [Token.finish place]) = clause :=
    Cursor.between_of_append (by rw [Cursor.ofTokens_append (by simp)])
  rw [Cursor.Lands, read] at lands
  cases last : clause.getLast? with
  | none =>
      rw [List.getLast?_eq_none_iff.mp last] at progress
      exact absurd progress (Nat.lt_irrefl _)
  | some token => exact ⟨token, rfl, lands token last⟩

end AlterOption

/-! ## Reading a list of clauses -/

namespace AlterTable

variable {start final : Cursor} {name : String} {head after rest dangling : List Token}
  {clauses : List (List Token)} {options : List AlterOption}

/-- What may lie behind the clauses: nothing, a semicolon or a partitioning. -/
structure EndsList (after : List Token) : Prop where
  /-- A clause ends before it. -/
  bounds : Bounds clauseStops after
  /-- No further clause follows. -/
  noComma : Unseen "," after

theorem reads_atClausesEnd_bind {β : Type} {scope : Scope} {second : Bool → Grammar β} {value : β}
    {before : List Token} {isOver : Bool}
    (seen : ∀ start : Cursor, start.view = before → endsClauses scope start = isOver)
    (there : (second isOver).Reads scope before value after) :
    (atClausesEnd >>= second).Reads scope before value after := by
  intro start view
  obtain ⟨final, found, viewAfter⟩ := there start view
  refine ⟨final, finds_atClausesEnd_bind_iff.mpr ?_, viewAfter⟩
  rwa [seen start view]

theorem EndsList.endsClauses {scope : Scope} (ends : EndsList after)
    (semicolon : scope.settings.terminator = ";") (view : start.view = after) :
    AlterTable.endsClauses scope start = true := by
  cases after with
  | nil => exact endsClauses_at_end (Cursor.view_eq_nil_iff.mp view)
  | cons token rest =>
      obtain ⟨mark, isMark, spelled⟩ := ends.bounds.marked token rfl
      rw [← Cursor.spells_of_view view] at spelled
      simp only [Token.clauseMarks, List.mem_cons, List.not_mem_nil, or_false] at isMark
      rcases isMark with rfl | rfl | rfl
      · rw [Cursor.spells_of_view view, ends.noComma token rfl] at spelled
        cases spelled
      · simp [AlterTable.endsClauses, semicolon, spelled]
      · simp [AlterTable.endsClauses, spelled]

theorem endsClauses_of_alone {clause : List Token} {option : AlterOption}
    (alone : AlterOption.grammar.ReadsAlone clauseStops clause option)
    (view : start.view = clause.map Token.placeless ++ after) :
    AlterTable.endsClauses ⟨.standard, clauseStops⟩ start = false := by
  obtain ⟨place, found⟩ := alone
  have shares := AlterOption.shares_alone view place
  have before := Nat.lt_of_le_of_lt (Nat.zero_le _)
    (AlterOption.progresses_alterOption _ _ _ _ found)
  have spells (text : String) : start.current.spells text =
      (Cursor.ofTokens (clause ++ [Token.finish place])).current.spells text := by
    rw [← Token.spells_placeless, shares.current before, Token.spells_placeless]
  have goesOn := AlterOption.endsClauses_of_finds rfl found
  rwa [AlterTable.endsClauses, ← shares.atEnd before, ← spells, ← spells] at goesOn

theorem EndsList.bounds_further (ends : EndsList after)
    (isDangling : dangling ∈ [[], [Token.comma]]) (clauses : List (List Token)) :
    Bounds clauseStops
      (Token.further (List.map Token.placeless) clauses ++ (dangling ++ after)) := by
  have comma (rest : List Token) : Bounds clauseStops (Token.comma :: rest) :=
    bounds_of_spells (show "," ∈ Token.clauseMarks by decide) (by decide) (by decide)
  cases clauses with
  | cons clause others => exact comma _
  | nil =>
      simp only [List.mem_cons, List.not_mem_nil, or_false] at isDangling
      rcases isDangling with rfl | rfl
      · exact ends.bounds
      · exact comma _

/-- Further clauses are read after commas, and a comma that no clause follows is passed over. -/
theorem reads_laterClauses
    (alone : List.Forall₂ (AlterOption.grammar.ReadsAlone clauseStops) clauses options)
    (isDangling : dangling ∈ [[], [Token.comma]]) (ends : EndsList after) :
    Reads (many laterClause?) ⟨.standard, clauseStops⟩
      (Token.further (List.map Token.placeless) clauses ++ (dangling ++ after)) options after := by
  induction alone with
  | nil =>
      have isOver (start : Cursor) (view : start.view = after) :
          AlterTable.endsClauses ⟨.standard, clauseStops⟩ start = true := ends.endsClauses rfl view
      simp only [List.mem_cons, List.not_mem_nil, or_false] at isDangling
      rcases isDangling with rfl | rfl
      · exact reads_many_nil (reads_consume_ite_unseen ends.noComma (reads_pure none))
      · refine reads_many_nil (reads_consume_ite (by decide) ?_)
        exact reads_atClausesEnd_bind isOver (reads_pure none)
  | @cons clause option clauses options first others ih =>
      have here := AlterOption.reads_of_alone first (ends.bounds_further isDangling clauses)
      rw [Token.further_cons, List.cons_append, List.append_assoc]
      refine reads_many_cons (reads_consume_ite (by decide) ?_) ?_ ih
      · exact reads_atClausesEnd_bind (fun _ => endsClauses_of_alone first)
          (here.bind (reads_pure (some option)))
      · simp only [List.length_cons, List.length_append]
        omega

theorem reads_clauses_of_alone (nonempty : clauses ≠ [])
    (alone : List.Forall₂ (AlterOption.grammar.ReadsAlone clauseStops) clauses options)
    (isDangling : dangling ∈ [[], [Token.comma]]) (ends : EndsList after) :
    AlterTable.clauses.Reads ⟨.standard, clauseStops⟩
      (Token.separated (List.map Token.placeless) clauses ++ (dangling ++ after)) options
      after := by
  cases alone with
  | nil => exact absurd rfl nonempty
  | @cons clause option clauses options first others =>
      have here := AlterOption.reads_of_alone first (ends.bounds_further isDangling clauses)
      rw [Token.separated_cons, List.append_assoc]
      refine reads_atClausesEnd_bind (fun _ => endsClauses_of_alone first) (here.bind ?_)
      exact (reads_laterClauses others isDangling ends).bind (reads_pure _)

/-! ## Reading an alteration -/

/-- The tokens name the table: a bare word, or an identifier between backticks. -/
inductive Names (name : String) : List Token → Prop where
  /-- A bare word. -/
  | bare {token : Token} (isWord : token.kind = .word) (unquoted : token.spells "\x60" = false)
      (text : token.text = name) : Names name [token]
  /-- An identifier between backticks. -/
  | quoted {opening token closing : Token} (opens : opening.spells "\x60" = true)
      (isIdentifier : token.kind = .identifier) (closes : closing.spells "\x60" = true)
      (text : token.text = name) : Names name [opening, token, closing]

/-- The tokens begin the alteration of a table. -/
inductive Heads (name : String) : List Token → Prop where
  /-- The keywords and the name of the table. -/
  | intro {alter table : Token} {names : List Token} (alters : alter.spells "ALTER" = true)
      (tables : table.spells "TABLE" = true) (named : Names name names) :
      Heads name (alter :: table :: names)

theorem Names.reads {settings : Settings} {names : List Token} (named : Names name names) :
    Grammar.name.Reads ⟨settings, .none⟩ (names.map Token.placeless ++ after) name after := by
  have found : name?.Reads ⟨settings, .none⟩ (names.map Token.placeless ++ after) (some name)
      after := by
    cases named with
    | @bare token isWord unquoted text =>
        have noStop : Stops.none.stopAt token.placeless = false := by
          simp [Stops.stopAt, Stops.none, isWord]
        refine reads_consume_ite_unseen (unseen_cons unquoted) (reads_seesKind_bind isWord ?_)
        refine reads_look_bind (fun _ view => (Cursor.stopAt_of_view view _).trans noStop) ?_
        refine reads_current_bind (fun _ => rfl) (reads_advance_bind ?_)
        rw [← text]
        exact reads_pure _
    | @quoted opening token closing opens isIdentifier closes text =>
        refine reads_consume_ite opens (reads_seesKind_bind isIdentifier ?_)
        refine reads_current_bind (fun _ => rfl) (reads_advance_bind ?_)
        refine reads_expect_bind closes ?_
        rw [← text]
        exact reads_pure _
  exact found.bind (reads_pure name)

/-- Clauses that are accepted one by one are read together, and what lies behind them is read as if
there were none. -/
theorem exists_afterClauses (heads : Heads name head) (nonempty : clauses ≠ [])
    (alone : List.Forall₂ (AlterOption.grammar.ReadsAlone clauseStops) clauses options)
    (isDangling : dangling ∈ [[], [Token.comma]]) (ends : EndsList after)
    (view : start.view = head.map Token.placeless ++
      (Token.separated (List.map Token.placeless) clauses ++ (dangling ++ after))) :
    ∃ middle, start.Reaches middle ∧ middle.view = after ∧
      ∀ alteration final,
        (afterClauses name options).Finds ⟨.standard, .none⟩ middle alteration final →
          AlterTable.grammar.Finds ⟨.standard, .none⟩ start alteration final := by
  obtain ⟨alters, tables, named⟩ := heads
  have next := Cursor.view_advance_of_view view
  obtain ⟨behind, naming, viewBehind⟩ :=
    named.reads start.advance.advance (Cursor.view_advance_of_view next)
  obtain ⟨middle, list, viewMiddle⟩ :=
    reads_clauses_of_alone nonempty alone isDangling ends behind viewBehind
  refine ⟨middle, ?_, viewMiddle, fun alteration final found => finds_alterTable_iff.mpr
    ⟨?_, ?_, name, behind, options, middle, naming, finds_withStops_iff.mpr list, found⟩⟩
  · exact (((Cursor.Reaches.advance start).trans (.advance _)).trans naming.reaches).trans
      list.reaches
  · rwa [Cursor.spells_of_view view]
  · rwa [Cursor.next, Cursor.spells_of_view next]

theorem finds_ending (nonempty : options ≠ []) (partitioning : Option Partitioning)
    (isOver : (start.atEnd || start.current.spells ";") = true) :
    (ending ⟨name, options, partitioning⟩).Finds ⟨.standard, .none⟩ start
      ⟨name, options, partitioning⟩ start := by
  refine finds_ending_iff.mpr ⟨isOver, ?_, rfl, rfl⟩
  rw [List.isEmpty_eq_false_iff.mpr nonempty, Bool.false_and]

theorem endsList_of_ended (ended : Table.Ended after) : EndsList after := by
  refine ⟨?_, ended.unseen (by decide)⟩
  cases after with
  | nil => exact .nil
  | cons token others =>
      rw [ended token rfl]
      exact bounds_of_spells (show ";" ∈ Token.clauseMarks by decide) (by decide) (by decide)

theorem endsList_of_partition {token : Token} (spelled : token.spells "PARTITION" = true)
    (notOpen : token.kind ≠ .leftParen) : EndsList (token :: rest) := by
  have noComma : token.spells "," = false := by
    rw [← Bool.not_eq_true]
    exact fun comma => absurd (Token.upper_eq_of_spells comma spelled) (by decide)
  refine ⟨?_, unseen_cons noComma⟩
  exact bounds_of_spells (show "PARTITION" ∈ Token.clauseMarks by decide) spelled notOpen

/-- What follows the clauses up to the end of input: nothing, or a partitioning that is accepted on
its own. Its first token spells a word, and in no text such a token is a parenthesis. -/
inductive Trails : List Token → Option Partitioning → Prop where
  /-- There is no partitioning. -/
  | nothing : Trails [] none
  /-- There is a partitioning. -/
  | partitioned {tokens : List Token} {partitioning : Partitioning}
      (alone : Partitioning.grammar.ReadsAlone .none tokens partitioning)
      (noOpening : ∀ token ∈ tokens.head?, token.kind ≠ .leftParen) :
      Trails tokens (some partitioning)

variable {tokens : List Token} {partitioning : Option Partitioning} {place : Location}

/-- A partitioning begins with the word for it. -/
theorem exists_cons_of_alone {partitioning : Partitioning}
    (alone : Partitioning.grammar.ReadsAlone .none tokens partitioning) :
    ∃ token others, tokens = token :: others ∧ token.spells "PARTITION" = true := by
  obtain ⟨place, found⟩ := alone
  obtain ⟨clause, middle, reading, -⟩ := finds_bind_iff.mp found
  obtain ⟨spelled, -⟩ := finds_expect_bind_iff.mp reading
  rw [Cursor.ofTokens_append_finish] at spelled
  cases tokens with
  | nil => simp [Cursor.current, Token.finish, Token.spells, Token.isPunctuation,
      Token.Kind.isPunctuation] at spelled
  | cons token others => exact ⟨token, others, rfl, spelled⟩

/-- A partitioning that is accepted on its own is accepted wherever nothing follows it. -/
theorem finds_of_alone {partitioning : Partitioning}
    (alone : Partitioning.grammar.ReadsAlone .none tokens partitioning)
    (view : start.view = tokens.map Token.placeless) (finish : start.finish = Token.finish place) :
    Partitioning.grammar.Finds ⟨.standard, .none⟩ start partitioning
      (Cursor.ofTokens [Token.finish place]) := by
  obtain ⟨placeAlone, found⟩ := alone
  let pace : Lockstep := ⟨.exact, [], [], 0⟩
  have abreast : pace.Abreast (Cursor.ofTokens (tokens ++ [Token.finish placeAlone])) start := by
    refine ⟨tokens ++ [Token.finish placeAlone], start.tokens, ?_, ?_, ?_, by simp [pace]⟩
    · simp [Cursor.ofTokens_append_finish, Cursor.tokens, pace]
    · simp [pace]
    · refine Token.forall₂_alike_of_map_placeless ?_
      rw [Cursor.tokens, List.map_append, List.map_append, ← view, finish]
      rfl
  have matching : Matches pace ⟨.standard, .none⟩ (Partitioning.mapTexts id) Partitioning.grammar
      Partitioning.grammar := Partitioning.matches_partitioning
  rw [Partitioning.mapTexts_id] at matching
  obtain ⟨final, foundHere, last⟩ := matching.finds abreast found (Nat.zero_le _)
  have remaining : 0 + 0 = final.remaining + 0 := last.remaining
  have done : final.view = [] := by
    rw [← List.length_eq_zero_iff, Cursor.length_view]
    exact remaining.symm
  rwa [foundHere.reaches.eq_end finish done] at foundHere

theorem Trails.endsList (trails : Trails rest partitioning) :
    EndsList (rest.map Token.placeless) := by
  cases trails with
  | nothing => exact endsList_of_ended Table.ended_nil
  | partitioned alone noOpening =>
      obtain ⟨token, others, rfl, spelled⟩ := exists_cons_of_alone alone
      exact endsList_of_partition spelled (noOpening token rfl)

theorem Trails.finds (trails : Trails rest partitioning) (nonempty : options ≠ [])
    (view : start.view = rest.map Token.placeless) (finish : start.finish = Token.finish place) :
    (afterClauses name options).Finds ⟨.standard, .none⟩ start ⟨name, options, partitioning⟩
      (Cursor.ofTokens [Token.finish place]) := by
  rw [finds_afterClauses_iff]
  cases trails with
  | nothing =>
      obtain rfl : start = Cursor.ofTokens [Token.finish place] :=
        (Cursor.Reaches.refl start).eq_end finish view
      exact finds_ending nonempty none rfl
  | partitioned alone noOpening =>
      have found := finds_of_alone alone view finish
      obtain ⟨token, others, rfl, spelled⟩ := exists_cons_of_alone alone
      rw [if_pos (by rwa [Cursor.spells_of_view view])]
      exact ⟨_, _, found, finds_ending nonempty _ rfl⟩

/-- An alteration is the list of its clauses: those that are accepted one by one are accepted with
commas between them, and with them a partitioning that follows the last one without a comma. -/
theorem finds_alteration_of_clauses (named : name ≠ "") (nonempty : clauses ≠ [])
    (alone : List.Forall₂ (AlterOption.grammar.ReadsAlone clauseStops) clauses options)
    (trails : Trails rest partitioning)
    (spelled : tokens.map Token.placeless = .bare .word "ALTER" :: .bare .word "TABLE" ::
      (nameTokens name ++ (Token.separated (List.map Token.placeless) clauses ++
        rest.map Token.placeless))) (place : Location) :
    AlterTable.grammar.Finds ⟨.standard, .none⟩ (Cursor.ofTokens (tokens ++ [Token.finish place]))
      ⟨name, options, partitioning⟩ (Cursor.ofTokens [Token.finish place]) := by
  have heads : Heads name (.bare .word "ALTER" :: .bare .word "TABLE" :: nameTokens name) := by
    rw [nameTokens_eq named]
    exact .intro (by decide) (by decide) (.quoted (by decide) rfl (by decide) rfl)
  have view : (Cursor.ofTokens (tokens ++ [Token.finish place])).view =
      (.bare .word "ALTER" :: .bare .word "TABLE" :: nameTokens name : List Token).map
        Token.placeless ++ (Token.separated (List.map Token.placeless) clauses ++
          ([] ++ rest.map Token.placeless)) := by
    rw [Cursor.view_ofTokens_finish, spelled, nameTokens_eq named]
    rfl
  have someOptions : options ≠ [] := by
    rintro rfl
    exact nonempty (List.forall₂_nil_right_iff.mp alone)
  obtain ⟨middle, reaches, viewMiddle, goesOn⟩ :=
    exists_afterClauses heads nonempty alone (by simp) trails.endsList view
  refine goesOn _ _ (trails.finds someOptions viewMiddle ?_)
  rw [reaches.finish, Cursor.ofTokens_append_finish]

/-- A clause behind an option of the table that has a comma of its own, a clause that ends in a
keyword and a group of columns, before a partitioning. -/
theorem finds_alteration_of_clauses_mixed :
    let added : List Token := [.bare .word "ENGINE", .bare .equals "=", .bare .word "InnoDB",
      Token.comma, .bare .word "ADD", .bare .word "COLUMN", .bare .word "a", .bare .word "INT"]
    let dropped : List Token := [.bare .word "DROP", .bare .word "PRIMARY", .bare .word "KEY"]
    let group : List Token := [.bare .word "add", Token.opening, .bare .word "b",
      .bare .word "INT", Token.comma, .bare .word "c", .bare .word "TEXT", Token.closing]
    let part : List Token := [.bare .word "partition", .bare .word "BY", .bare .word "KEY",
      Token.opening, Token.closing]
    let tokens : List Token := .bare .word "ALTER" :: .bare .word "TABLE" :: (nameTokens "t" ++
      (added ++ Token.comma :: (dropped ++ Token.comma :: group) ++ part))
    AlterTable.grammar.Finds ⟨.standard, .none⟩ (Cursor.ofTokens (tokens ++ [Token.finish .start]))
      ⟨"t", [⟨.column, .add, .column { name := "a", typeName := "INT" },
          [⟨"ENGINE", .literal (.raw "InnoDB")⟩]⟩,
        ⟨.index, .drop, .name "PRIMARY KEY", []⟩,
        ⟨.column, .add, .columns [{ name := "b", typeName := "INT" },
          { name := "c", typeName := "TEXT" }], []⟩],
        some (.single { kind := .key })⟩
      (Cursor.ofTokens [Token.finish .start]) := by
  intro added dropped group part tokens
  have first : AlterOption.grammar.ReadsAlone clauseStops added ⟨.column, .add,
      .column { name := "a", typeName := "INT" }, [⟨"ENGINE", .literal (.raw "InnoDB")⟩]⟩ :=
    ⟨.start, eq_ok_of_toOption (by decide +kernel), Cursor.ext_of_tokens (by decide +kernel)⟩
  have second : AlterOption.grammar.ReadsAlone clauseStops dropped
      ⟨.index, .drop, .name "PRIMARY KEY", []⟩ :=
    ⟨.start, eq_ok_of_toOption (by decide +kernel), Cursor.ext_of_tokens (by decide +kernel)⟩
  have third : AlterOption.grammar.ReadsAlone clauseStops group ⟨.column, .add,
      .columns [{ name := "b", typeName := "INT" }, { name := "c", typeName := "TEXT" }], []⟩ :=
    ⟨.start, eq_ok_of_toOption (by decide +kernel), Cursor.ext_of_tokens (by decide +kernel)⟩
  have last : Partitioning.grammar.ReadsAlone .none part (.single { kind := .key }) :=
    ⟨.start, eq_ok_of_toOption (by decide +kernel), Cursor.ext_of_tokens (by decide +kernel)⟩
  exact finds_alteration_of_clauses (by decide) (by simp)
    (.cons first (.cons second (.cons third .nil))) (.partitioned last (by decide)) (by decide)
    .start

end AlterTable

end TableDdl
