import TableDdl.Proofs.Extension.Alterations
import TableDdl.Proofs.Lexer.Marks
import TableDdl.Proofs.Script.Composition

/-!
# Statements without a terminator between them

Where another statement follows a statement without a terminator, the text is refused, unless the
first statement ends in a part that is passed over up to the terminator: the options of a table, or
the column without a place or the index with which an alteration ends. Such a part takes in the
other statement.
-/

namespace TableDdl

open Grammar

variable {sequel : Sequel} {scope : Scope} {shorter longer start final : Cursor}

/-! ## Statements -/

namespace Statement

/-- From the cursor, the statement is read up to the terminator, whatever follows it. -/
def IsOpenAt (start : Cursor) : Statement → Prop
  | createTable _ => True
  | alterTable alteration => alteration.IsOpen ∧ ¬ start.EndsInComma

theorem finds_statement_iff {statement : Statement} :
    Statement.grammar.Finds scope start statement final ↔
      if start.current.spells "CREATE" then
        ∃ table, createTable table = statement ∧ Table.grammar.Finds scope start table final
      else start.current.spells "ALTER" = true ∧ ∃ alteration, alterTable alteration = statement ∧
        AlterTable.grammar.Finds scope start alteration final := by
  have mapped {α : Type} {grammar : Grammar α} {change : α → Statement} :
      (do return change (← grammar)).Finds scope start statement final ↔
        ∃ value, change value = statement ∧ grammar.Finds scope start value final := by
    rw [finds_bind_iff]
    constructor
    · rintro ⟨value, middle, found, reading⟩
      obtain ⟨rfl, rfl⟩ := finds_pure_iff.mp reading
      exact ⟨value, rfl, found⟩
    · rintro ⟨value, rfl, found⟩
      exact ⟨value, final, found, finds_pure_iff.mpr ⟨rfl, rfl⟩⟩
  rw [Statement.grammar, finds_sees_ite_iff, finds_sees_ite_iff, mapped, mapped]
  split
  · rfl
  · split <;> simp_all

section

variable (semicolon : scope.settings.terminator = ";") (noEnd : ¬ sequel.Ends)
  {statement : Statement} (found : Statement.grammar.Finds scope shorter statement final)
  (done : final.ahead = []) (extension : Cursor.Extends sequel shorter longer)
  (commas : ∀ token ∈ shorter.ahead, token.spells "," = true → token.placeless = Token.comma)
include semicolon noEnd found done extension commas

theorem not_finds_of_closed (closed : ¬ statement.IsOpenAt shorter) {other : Statement}
    {otherFinal : Cursor} : ¬ Statement.grammar.Finds scope longer other otherFinal := by
  have more := Statement.progresses_statement.ahead_ne_nil found
  rw [finds_statement_iff] at found ⊢
  simp only [extension.spells_inside more]
  split at found
  · obtain ⟨table, rfl, -⟩ := found
    exact absurd trivial closed
  · obtain ⟨-, alteration, rfl, found⟩ := found
    rw [if_neg ‹_›]
    rintro ⟨-, other, -, foundLonger⟩
    refine AlterTable.not_finds_of_closed semicolon noEnd found done extension commas ?_ foundLonger
    intro isOpen
    by_contra noComma
    exact closed ⟨isOpen, noComma⟩

theorem finds_of_open (isOpen : statement.IsOpenAt shorter) (idle : sequel.Idle)
    (busy : scope.stops.AreBusy) :
    ∃ finalLonger, Statement.grammar.Finds scope longer statement finalLonger ∧
      finalLonger.ahead = [] := by
  have more := Statement.progresses_statement.ahead_ne_nil found
  simp only [finds_statement_iff, extension.spells_inside more] at found ⊢
  split at found
  · obtain ⟨table, rfl, found⟩ := found
    obtain ⟨finalLonger, foundLonger, last⟩ :=
      Table.continues_table semicolon idle busy _ _ _ _ extension found trivial done
    refine ⟨finalLonger, ?_, Cursor.view_eq_nil_iff.mp (last.view_at_end done)⟩
    rw [if_pos ‹_›]
    exact ⟨table, rfl, foundLonger⟩
  · obtain ⟨alter, alteration, rfl, found⟩ := found
    obtain ⟨finalLonger, foundLonger, ended⟩ := AlterTable.finds_of_open semicolon noEnd found done
      extension commas isOpen.1 isOpen.2 idle busy
    refine ⟨finalLonger, ?_, ended⟩
    rw [if_neg ‹_›]
    exact ⟨alter, alteration, rfl, foundLonger⟩

end

/-- A statement alone in its text, where there are no terminators. -/
theorem finds_alone_iff {strictConstraints : Bool} {statement : Statement}
    (free : ∀ token ∈ start.ahead, token.spells ";" = false) :
    alone.Finds ⟨⟨";", strictConstraints⟩, .none⟩ start statement final ↔
      Statement.grammar.Finds ⟨⟨";", strictConstraints⟩, .none⟩ start statement final ∧
        final.atEnd = true := by
  let scope : Scope := ⟨⟨";", strictConstraints⟩, .none⟩
  have stays {cursor : Cursor} (reaches : start.Reaches cursor) :
      skipTerminators.Finds scope cursor () cursor := by
    have other : cursor.current.spells ";" = false := by
      cases ahead : cursor.ahead with
      | nil => exact Token.spells_of_isEnd (Cursor.isEnd_current_of_ahead_eq_nil ahead) _
      | cons token rest =>
          rw [Cursor.current_of_ahead_eq_cons ahead]
          exact free token (reaches.ahead.mem (by simp [ahead]))
    have skipped : skipTerminators.Finds scope cursor () (cursor.pastTerminators ";") :=
      finds_skipTerminators cursor
    rwa [Cursor.pastTerminators_of_not_spells other] at skipped
  constructor
  · intro reading
    obtain ⟨_, first, skipped, whole⟩ := finds_bind_iff.mp reading
    obtain ⟨-, rfl⟩ := skipped.functional (stays (.refl start))
    obtain ⟨found, middle, here, after⟩ := finds_bind_iff.mp whole
    obtain ⟨_, last, skippedLast, ending⟩ := finds_bind_iff.mp after
    obtain ⟨-, rfl⟩ := skippedLast.functional (stays here.reaches)
    rw [atEnd, finds_look_bind_iff] at ending
    split at ending
    · obtain ⟨rfl, rfl⟩ := finds_pure_iff.mp ending
      exact ⟨here, ‹_›⟩
    · exact (finds_refuse_bind_iff.mp ending).elim
  · rintro ⟨here, ended⟩
    refine finds_bind_iff.mpr ⟨(), start, stays (.refl start), finds_bind_iff.mpr
      ⟨statement, final, here, finds_bind_iff.mpr ⟨(), final, stays here.reaches, ?_⟩⟩⟩
    rw [atEnd, finds_look_bind_iff, if_pos ended]
    exact finds_pure_iff.mpr ⟨rfl, rfl⟩

end Statement

/-! ## Texts -/

namespace Lexer

variable {text : String} {tokens : List Token} {token : Token}

/-- The tokens of a text but the last one lie ahead of a cursor on the first of them. -/
theorem lexes_ofTokens (lexed : Token.tokenize text = .ok tokens) :
    Lexes false text.toList (Cursor.ofTokens tokens).view [] ∧
      (Cursor.ofTokens tokens).ahead = tokens.dropLast := by
  obtain ⟨body, last, rfl, lexes⟩ := lexes_of_tokensFrom lexed
  rw [Cursor.ofTokens_append_finish]
  exact ⟨lexes, by simp⟩

theorem marked_of_lexes (lexes : Lexes false text.toList start.view [])
    (member : token ∈ start.ahead) : Marked token.placeless :=
  lexes.forall_mem Step.marked _ (List.mem_map_of_mem member)

theorem eq_comma_of_spells (lexes : Lexes false text.toList start.view [])
    (member : token ∈ start.ahead) (spelled : token.spells "," = true) :
    token.placeless = Token.comma := by
  have kind : some Token.Kind.comma = some token.placeless.kind :=
    (marked_of_lexes lexes member).kind_of_spells (show ',' ∈ marks by decide) spelled
  have isComma : token.kind = .comma := (Option.some.inj kind).symm
  have text : token.text = "," := by
    simpa [Token.spells, isComma, Token.isPunctuation, Token.Kind.isPunctuation] using spelled
  rw [Token.placeless, isComma, text]
  rfl

/-- The last token ahead is a comma exactly if it has the kind of one. -/
theorem endsInComma_iff (lexes : Lexes false text.toList start.view []) :
    start.EndsInComma ↔ start.ahead.getLast?.map Token.kind = some .comma := by
  rw [Cursor.EndsInComma, Cursor.view, List.getLast?_map]
  cases last : start.ahead.getLast? with
  | none => simp
  | some token =>
      have member : token.placeless ∈ start.view :=
        List.mem_map_of_mem (List.mem_of_getLast? last)
      have proper := lexes.forall_mem Step.proper _ member
      simp only [Option.map_some, Option.some.injEq]
      constructor
      · intro same
        rw [← Token.kind_placeless, same]
        rfl
      · intro isComma
        have text : token.text = "," := proper.comma isComma
        rw [Token.placeless, isComma, text]
        rfl

/-- A text without semicolons is free of terminators. -/
theorem not_spells_semicolon (lexes : Lexes false text.toList start.view [])
    (member : token ∈ start.ahead) (other : token.kind ≠ .semicolon) :
    token.spells ";" = false := by
  by_contra spelled
  have kind : some Token.Kind.semicolon = some token.placeless.kind :=
    (marked_of_lexes lexes member).kind_of_spells (show ';' ∈ marks by decide)
      (by simpa using spelled)
  exact other (Option.some.inj kind).symm

/-- The tokens of two texts on lines of their own, if the second one starts with a keyword. -/
theorem lexes_lines {first second word : String} {tokens others : List Token}
    (lexesFirst : Lexes false first.toList tokens [])
    (lexesSecond : Lexes false second.toList (.bare .word word :: others) [])
    (opens : Text.upper word ∈ Sequel.openers) :
    Lexes false (first ++ "\n" ++ second).toList (tokens ++ .bare .word word :: others) [] := by
  have text : (first ++ "\n" ++ second).toList = first.toList ++ '\n' :: second.toList := by simp
  have noSign : word.toList.head? ≠ some '-' := by
    intro sign
    have upper : (Text.upper word).toList.head? = some '-' := by
      rw [Text.toList_upper, List.head?_map, sign]
      rfl
    have none : ∀ word ∈ Sequel.openers, word.toList.head? ≠ some '-' := by decide
    exact none _ opens upper
  rw [text]
  refine (lexesFirst.append_line _).append ?_
  exact .step (.blank (by decide)) (lexesSecond.of_word noSign _)

end Lexer

namespace Statement

/-- There is no semicolon among the tokens of the text. -/
def Unterminated (text : String) : Prop :=
  ∀ tokens, Token.tokenize text = .ok tokens → ∀ token ∈ tokens, token.kind ≠ .semicolon

theorem unterminated_of_tokenize {text : String} {tokens : List Token}
    (lexed : Token.tokenize text = .ok tokens)
    (none : ∀ token ∈ tokens, token.kind ≠ .semicolon) : Unterminated text := by
  intro same lexedSame
  obtain rfl : tokens = same := Except.ok.inj (lexed.symm.trans lexedSame)
  exact none

/-- The statement that the tokens write is read up to the terminator, whatever follows: it defines a
table, or its last clause ends with a column without a place or with an index, and neither a comma
nor a partitioning follows the clause. -/
def EndsOpen (tokens : List Token) : Statement → Prop
  | createTable _ => True
  | alterTable alteration =>
      alteration.IsOpen ∧ tokens.dropLast.getLast?.map Token.kind ≠ some .comma

variable {strictConstraints : Bool} {text : String} {tokens : List Token} {statement : Statement}

theorem endsOpen_iff (lexed : Token.tokenize text = .ok tokens) :
    statement.EndsOpen tokens ↔ statement.IsOpenAt (Cursor.ofTokens tokens) := by
  obtain ⟨lexes, ahead⟩ := Lexer.lexes_ofTokens lexed
  cases statement with
  | createTable table => rfl
  | alterTable alteration => rw [EndsOpen, IsOpenAt, Lexer.endsInComma_iff lexes, ahead]

/-- No token of the text ends a statement. -/
theorem not_spells_terminator (lexed : Token.tokenize text = .ok tokens)
    (unterminated : Unterminated text) :
    ∀ token ∈ (Cursor.ofTokens tokens).ahead, token.spells ";" = false := by
  obtain ⟨lexes, ahead⟩ := Lexer.lexes_ofTokens lexed
  intro token member
  refine Lexer.not_spells_semicolon lexes member (unterminated tokens lexed token ?_)
  exact List.dropLast_subset _ (ahead ▸ member)

theorem finds_of_parse (lexed : Token.tokenize text = .ok tokens)
    (unterminated : Unterminated text)
    (read : parse ⟨";", strictConstraints⟩ text = .ok statement) :
    ∃ final, Statement.grammar.Finds ⟨⟨";", strictConstraints⟩, .none⟩ (Cursor.ofTokens tokens)
      statement final ∧ final.ahead = [] := by
  obtain ⟨same, final, lexedSame, found⟩ := parse_eq_ok_iff.mp read
  obtain rfl : tokens = same := Except.ok.inj (lexed.symm.trans lexedSame)
  have lexes := (Lexer.lexes_ofTokens lexed).1
  obtain ⟨here, ended⟩ :=
    (finds_alone_iff (not_spells_terminator lexed unterminated)).mp found
  refine ⟨final, here, ?_⟩
  cases ahead : final.ahead with
  | nil => rfl
  | cons token rest =>
      have member : token ∈ (Cursor.ofTokens tokens).ahead :=
        here.reaches.ahead.mem (by simp [ahead])
      have notEnd := lexes.isEnd_eq_false _ (List.mem_map_of_mem member)
      rw [Cursor.atEnd, Cursor.current_of_ahead_eq_cons ahead, ← Token.isEnd_placeless,
        notEnd] at ended
      exact Bool.noConfusion ended

/-- A statement begins with a word. -/
theorem opener_of_finds (lexes : Lexer.Lexes false text.toList start.view [])
    (found : Statement.grammar.Finds scope start statement final) :
    ∃ word more, Text.upper word ∈ Sequel.openers ∧ start.view = .bare .word word :: more := by
  obtain ⟨token, rest, ahead⟩ :=
    List.exists_cons_of_ne_nil (Statement.progresses_statement.ahead_ne_nil found)
  have marked := Lexer.marked_of_lexes lexes (show token ∈ start.ahead by simp [ahead])
  have opener {keyword : String} (long : keyword.length ≠ 1)
      (spelled : start.current.spells keyword = true) :
      token.kind = .word ∧ Text.upper token.text = Text.upper keyword := by
    rw [Cursor.current_of_ahead_eq_cons ahead] at spelled
    have isWord : token.kind = .word := marked.kind_of_spells_keyword long spelled
    exact ⟨isWord, by simpa [Token.spells, isWord, Text.sameWord] using spelled⟩
  have known : token.kind = .word ∧ Text.upper token.text ∈ Sequel.openers := by
    rw [finds_statement_iff] at found
    split at found
    · rename_i create
      obtain ⟨isWord, same⟩ := opener (by decide) create
      exact ⟨isWord, by rw [same]; decide⟩
    · obtain ⟨isWord, same⟩ := opener (by decide) found.1
      exact ⟨isWord, by rw [same]; decide⟩
  refine ⟨token.text, rest.map Token.placeless, known.2, ?_⟩
  simp [Cursor.view, ahead, Token.placeless, known.1]

/-- Two texts on lines of their own are read from a sequence that extends the one of the first text
by the one of the second. -/
theorem exists_longer (strictConstraints : Bool) {first second word : String}
    {others more : List Token}
    (lexed : Token.tokenize first = .ok tokens) (unterminated : Unterminated first)
    (lexedSecond : Token.tokenize second = .ok others) (unterminatedSecond : Unterminated second)
    (opens : Text.upper word ∈ Sequel.openers)
    (begins : (Cursor.ofTokens others).view = .bare .word word :: more) :
    ∃ longer, Cursor.Extends (.continued word opens more) (Cursor.ofTokens tokens) longer ∧
      ∀ value, parse ⟨";", strictConstraints⟩ (first ++ "\n" ++ second) = .ok value ↔
        ∃ final, Statement.grammar.Finds ⟨⟨";", strictConstraints⟩, .none⟩ longer value final ∧
          final.atEnd = true := by
  have lexes := (Lexer.lexes_ofTokens lexed).1
  have lexesSecond := (Lexer.lexes_ofTokens lexedSecond).1
  rw [begins] at lexesSecond
  obtain ⟨body, last, lexedLines, view⟩ :=
    Lexer.tokenize_iff.mpr (Lexer.lexes_lines lexes lexesSecond opens)
  let longer : Cursor := ⟨body, Token.finish last, rfl⟩
  have free : ∀ token ∈ longer.ahead, token.spells ";" = false := by
    intro token member
    have member : token.placeless ∈
        (Cursor.ofTokens tokens).view ++ (Cursor.ofTokens others).view := by
      rw [begins, ← view]
      exact List.mem_map_of_mem member
    rw [Cursor.view, Cursor.view, ← List.map_append] at member
    obtain ⟨same, member, placeless⟩ := List.mem_map.mp member
    rw [← Token.spells_placeless, ← placeless, Token.spells_placeless]
    rcases List.mem_append.mp member with here | there
    · exact not_spells_terminator lexed unterminated same here
    · exact not_spells_terminator lexedSecond unterminatedSecond same there
  refine ⟨longer, ⟨view, fun token member => ?_⟩, fun value => ?_⟩
  · exact lexes.isEnd_eq_false token.placeless (List.mem_map_of_mem member)
  · simp only [parse, parse_eq_ok_iff, lexedLines, Except.ok.injEq]
    constructor
    · rintro ⟨_, final, rfl, found⟩
      rw [Cursor.ofTokens_append_finish] at found
      exact ⟨final, (finds_alone_iff free).mp found⟩
    · rintro ⟨final, found⟩
      refine ⟨_, final, rfl, ?_⟩
      rw [Cursor.ofTokens_append_finish]
      exact (finds_alone_iff free).mpr found

/-- A statement none of whose words is read or stopped at by what is open. -/
def idle : String := "ALTER TABLE t DROP COLUMN c"

/-- The tokens of the statement. -/
def idleTokens : List Token := [⟨.word, "ALTER", ⟨1, 1⟩⟩, ⟨.word, "TABLE", ⟨1, 7⟩⟩,
  ⟨.word, "t", ⟨1, 13⟩⟩, ⟨.word, "DROP", ⟨1, 15⟩⟩, ⟨.word, "COLUMN", ⟨1, 20⟩⟩,
  ⟨.word, "c", ⟨1, 27⟩⟩, .finish ⟨1, 28⟩]

theorem tokenize_idle : Token.tokenize idle = .ok idleTokens :=
  eq_ok_of_toOption (by decide +kernel)

theorem parse_idle (strictConstraints : Bool) : parse ⟨";", strictConstraints⟩ idle =
    .ok (.alterTable ⟨"t", [⟨.column, .drop, .name "c", []⟩], none⟩) := by
  cases strictConstraints <;> exact eq_ok_of_toOption (by decide +kernel)

theorem unterminated_idle : Unterminated idle :=
  unterminated_of_tokenize tokenize_idle (by decide)

/-- Where another statement follows on the next line without a terminator, the text is refused,
unless the first statement is open at its end. One that is open takes in the statement `idle`. -/
theorem parse_unterminated_succession {first : String}
    (lexed : Token.tokenize first = .ok tokens)
    (read : parse ⟨";", strictConstraints⟩ first = .ok statement)
    (unterminated : Unterminated first) :
    (¬ statement.EndsOpen tokens → ∀ second other,
      parse ⟨";", strictConstraints⟩ second = .ok other → Unterminated second →
        ∃ error, parse ⟨";", strictConstraints⟩ (first ++ "\n" ++ second) = .error error) ∧
    (statement.EndsOpen tokens → ∃ second other,
      parse ⟨";", strictConstraints⟩ second = .ok other ∧ Unterminated second ∧
        parse ⟨";", strictConstraints⟩ (first ++ "\n" ++ second) = .ok statement) := by
  obtain ⟨final, found, done⟩ := finds_of_parse lexed unterminated read
  have lexes := (Lexer.lexes_ofTokens lexed).1
  have commas : ∀ token ∈ (Cursor.ofTokens tokens).ahead, token.spells "," = true →
      token.placeless = Token.comma := fun token member => Lexer.eq_comma_of_spells lexes member
  rw [endsOpen_iff lexed]
  constructor
  · intro closed second other readSecond unterminatedSecond
    obtain ⟨others, -, lexedSecond, -⟩ := parse_eq_ok_iff.mp readSecond
    obtain ⟨_, foundSecond, -⟩ := finds_of_parse lexedSecond unterminatedSecond readSecond
    obtain ⟨word, more, opens, begins⟩ :=
      opener_of_finds (Lexer.lexes_ofTokens lexedSecond).1 foundSecond
    obtain ⟨longer, extension, lines⟩ := exists_longer strictConstraints lexed unterminated
      lexedSecond unterminatedSecond opens begins
    cases joined : parse ⟨";", strictConstraints⟩ (first ++ "\n" ++ second) with
    | error error => exact ⟨error, rfl⟩
    | ok value =>
        obtain ⟨_, foundLonger, -⟩ := (lines value).mp joined
        exact absurd foundLonger (not_finds_of_closed rfl id found done extension commas closed)
  · intro isOpen
    obtain ⟨longer, extension, lines⟩ := exists_longer strictConstraints lexed unterminated
      tokenize_idle unterminated_idle (show Text.upper "ALTER" ∈ Sequel.openers by decide) rfl
    have passed : ∀ token ∈ (Cursor.ofTokens idleTokens).view, token.IsIdle := by decide
    obtain ⟨finalLonger, foundLonger, ended⟩ :=
      finds_of_open rfl id found done extension commas isOpen passed nofun
    refine ⟨idle, _, parse_idle strictConstraints, unterminated_idle, (lines statement).mpr ?_⟩
    exact ⟨finalLonger, foundLonger, Cursor.isEnd_current_of_ahead_eq_nil ended⟩

/-- A definition of a table takes in another one that follows it. -/
theorem parse_table_before_table :
    let first := "CREATE TABLE t (a INT)"
    let second := "CREATE TABLE u (b INT)"
    let table (name column : String) : Table := {
      name, isTemporary := false, ifNotExists := false
      columns := [{ name := column, typeName := "INT" }], indexes := [], constraints := []
      comment := none, partitioning := none }
    parse .standard first = .ok (.createTable (table "t" "a")) ∧ Unterminated first ∧
      parse .standard second = .ok (.createTable (table "u" "b")) ∧ Unterminated second ∧
        parse .standard (first ++ "\n" ++ second) = .ok (.createTable (table "t" "a")) := by
  intro first second table
  let tokens (name column : String) : List Token := [⟨.word, "CREATE", ⟨1, 1⟩⟩,
    ⟨.word, "TABLE", ⟨1, 8⟩⟩, ⟨.word, name, ⟨1, 14⟩⟩, ⟨.leftParen, "(", ⟨1, 16⟩⟩,
    ⟨.word, column, ⟨1, 17⟩⟩, ⟨.word, "INT", ⟨1, 19⟩⟩, ⟨.rightParen, ")", ⟨1, 22⟩⟩,
    .finish ⟨1, 23⟩]
  have lexedFirst : Token.tokenize first = .ok (tokens "t" "a") :=
    eq_ok_of_toOption (by decide +kernel)
  have lexedSecond : Token.tokenize second = .ok (tokens "u" "b") :=
    eq_ok_of_toOption (by decide +kernel)
  exact ⟨eq_ok_of_toOption (by decide +kernel), unterminated_of_tokenize lexedFirst (by decide),
    eq_ok_of_toOption (by decide +kernel), unterminated_of_tokenize lexedSecond (by decide),
    eq_ok_of_toOption (by decide +kernel)⟩

/-- The removal of a column cannot be followed by another statement, but an index that is added
takes one in. -/
theorem parse_unterminated_succession_alterations :
    (∃ error, parse .standard (idle ++ "\n" ++ idle) = .error error) ∧
      ∃ second other, parse .standard second = .ok other ∧ Unterminated second ∧
        parse .standard ("ALTER TABLE t ADD INDEX (a)" ++ "\n" ++ second) = .ok (.alterTable
          ⟨"t", [⟨.index, .add, .index ⟨none, none, none, ["a"]⟩, []⟩], none⟩) := by
  let tokens : List Token := [⟨.word, "ALTER", ⟨1, 1⟩⟩, ⟨.word, "TABLE", ⟨1, 7⟩⟩,
    ⟨.word, "t", ⟨1, 13⟩⟩, ⟨.word, "ADD", ⟨1, 15⟩⟩, ⟨.word, "INDEX", ⟨1, 19⟩⟩,
    ⟨.leftParen, "(", ⟨1, 25⟩⟩, ⟨.word, "a", ⟨1, 26⟩⟩, ⟨.rightParen, ")", ⟨1, 27⟩⟩,
    .finish ⟨1, 28⟩]
  have lexed : Token.tokenize "ALTER TABLE t ADD INDEX (a)" = .ok tokens :=
    eq_ok_of_toOption (by decide +kernel)
  constructor
  · refine (parse_unterminated_succession tokenize_idle (parse_idle false) unterminated_idle).1 ?_
      idle _ (parse_idle false) unterminated_idle
    rintro ⟨⟨-, option, last, isOpen⟩, -⟩
    obtain rfl : ⟨.column, .drop, .name "c", []⟩ = option := by simpa using last
    exact isOpen
  · refine (parse_unterminated_succession lexed (eq_ok_of_toOption (by decide +kernel))
      (unterminated_of_tokenize lexed (by decide))).2 ?_
    exact ⟨⟨rfl, _, rfl, trivial⟩, by decide⟩

end Statement

end TableDdl
