import TableDdl.CommandLine.Prompt
import TableDdl.Proofs.Lexer.Tidy
import TableDdl.Proofs.Nesting.Statements
import TableDdl.Proofs.RoundTrip.Literals
import TableDdl.Proofs.Script.EntryPoints

/-!
# The prompt and scripts

At the prompt, a script is given line by line, and every line that ends with the terminator ends a
part of it that is read by itself. A semicolon outside all parentheses ends a statement, so that the
parts are scripts of their own, and what is read from them together is what is read from all the
lines at once.

The prompt drops the blanks at both ends of every line and all blank lines. That goes unnoticed
where blanks only separate tokens. In a string or a name that goes on over several lines they are
part of the text, and the prompt reads another one.
-/

namespace TableDdl

open Grammar

/-! ## Scripts up to a semicolon and after it -/

namespace Token

/-- The tokens end with a semicolon outside all parentheses, if there are any. -/
structure Complete (tokens : List Token) : Prop where
  /-- All parentheses are closed. -/
  closed : depth? 0 tokens = some 0
  /-- The last token is a semicolon. -/
  last : ∀ token ∈ tokens.getLast?, token = semicolon

theorem depth?_append (depth : Nat) (tokens others : List Token) :
    depth? depth (tokens ++ others) = (depth? depth tokens).bind (depth? · others) := by
  fun_induction depth? depth tokens <;> simp_all [depth?]

theorem depth?_semicolon (depth : Nat) (tokens : List Token) :
    depth? depth (tokens ++ [semicolon]) = depth? depth tokens := by
  rw [depth?_append]
  cases depth? depth tokens <;> rfl

theorem Complete.of_append {tokens others : List Token} (complete : Complete tokens)
    (whole : Complete (tokens ++ others)) : Complete others := by
  constructor
  · have closed := whole.closed
    rwa [depth?_append, complete.closed, Option.bind_some] at closed
  · intro token member
    refine whole.last token ?_
    rw [List.getLast?_append, Option.mem_def.mp member]
    rfl

/-- What follows complete tokens is lexed as at the start of a text. -/
theorem Complete.operandAfter {tokens : List Token} (complete : Complete tokens) :
    Lexer.operandAfter false tokens = false := by
  cases last : tokens.getLast? with
  | none => simp [Lexer.operandAfter, last]
  | some token =>
      rw [Lexer.operandAfter, last, complete.last token last]
      decide

end Token

variable {scope : Scope} {start final shorter : Cursor} {tokens others rest : List Token}

/-- Cursors before the same tokens up to a semicolon stand abreast. -/
theorem Cursor.exists_abreast (view : start.view = tokens ++ Token.semicolon :: rest)
    (viewShorter : shorter.view = tokens ++ [Token.semicolon]) :
    ∃ behind, behind.length = rest.length + 1 ∧
      Lockstep.Abreast ⟨.exact, behind, [shorter.finish], 0⟩ start shorter := by
  have joined : start.ahead.map Token.placeless = shorter.view ++ rest := by
    rw [viewShorter, List.append_assoc]
    exact view
  obtain ⟨shared, behind, split, sameShared, sameBehind⟩ := List.map_eq_append_iff.mp joined
  refine ⟨behind ++ [start.finish], ?_, shared, shorter.ahead, ?_, rfl, ?_, ?_⟩
  · rw [List.length_append, ← sameBehind, List.length_map, List.length_singleton]
  · rw [Cursor.tokens, split, List.append_assoc]
  · exact Token.forall₂_alike_of_map_placeless sameShared
  · have lengths := congrArg List.length (sameShared.trans viewShorter)
    simp only [List.length_map, List.length_append, List.length_singleton] at lengths
    show 0 < shared.length
    omega

/-- A statement that ends before a semicolon is found in the same way where nothing follows the
semicolon. -/
theorem Statement.finds_of_semicolon {statement : Statement}
    (view : start.view = tokens ++ Token.semicolon :: rest)
    (viewShorter : shorter.view = tokens ++ [Token.semicolon])
    (found : Statement.grammar.Finds scope start statement final)
    (viewFinal : final.view = others ++ Token.semicolon :: rest) :
    ∃ finalShorter, Statement.grammar.Finds scope shorter statement finalShorter ∧
      finalShorter.view = others ++ [Token.semicolon] := by
  obtain ⟨behind, length, abreast⟩ := Cursor.exists_abreast view viewShorter
  have remaining : final.remaining = others.length + (rest.length + 1) := by
    rw [← Cursor.length_view, viewFinal, List.length_append, List.length_cons]
  obtain ⟨statementShorter, finalShorter, reaches, outcome, same, last⟩ :=
    (Statement.matches_statement _ _ abreast).of_ok found.outcome_eq (by
      show behind.length + 0 ≤ final.remaining
      omega)
  obtain rfl : statement = statementShorter := by
    simpa only [Folding.exact, Statement.mapTexts_id, id_eq] using same
  refine ⟨finalShorter, .of_outcome_eq outcome, ?_⟩
  -- Both readings leave the same tokens up to the semicolon.
  have leaves {earlier later : Cursor} (reaches : earlier.Reaches later) :
      ∃ used, used ++ later.view = earlier.view := by
    obtain ⟨used, split⟩ := reaches.ahead
    exact ⟨used.map Token.placeless, by rw [Cursor.view, Cursor.view, ← split, List.map_append]⟩
  obtain ⟨used, split⟩ := leaves found.reaches
  obtain ⟨usedShorter, splitShorter⟩ := leaves reaches
  have sameRemaining : final.remaining + 1 = finalShorter.remaining + behind.length :=
    last.remaining
  have joined : usedShorter ++ (finalShorter.view ++ rest) = used ++ final.view := by
    rw [← List.append_assoc, splitShorter, split, view, viewShorter, List.append_assoc]
    rfl
  have sameLeft := List.append_inj_right' joined (by
    rw [List.length_append, Cursor.length_view, Cursor.length_view]
    omega)
  rw [viewFinal, List.append_cons] at sameLeft
  exact List.append_cancel_right sameLeft

/-- The statements are found from every cursor before the tokens of a script. -/
def Statement.Scripts (scope : Scope) (tokens : List Token) (statements : List Statement) : Prop :=
  ∀ start : Cursor, start.view = tokens →
    ∃ final, Repeats Statement.next? scope start statements final

theorem Statement.Scripts.functional {statements statementsAgain : List Statement}
    (script : Statement.Scripts scope tokens statements)
    (again : Statement.Scripts scope tokens statementsAgain)
    (cursor : ∃ start : Cursor, start.view = tokens) : statements = statementsAgain := by
  obtain ⟨start, view⟩ := cursor
  obtain ⟨final, run⟩ := script start view
  obtain ⟨finalAgain, runAgain⟩ := again start view
  exact ((finds_many_of_repeats run).functional (finds_many_of_repeats runAgain)).1

section

variable (semicolon : scope.settings.terminator = ";")
include semicolon

theorem Statement.scripts_of_terminators (all : tokens.dropWhile (·.spells ";") = []) :
    Statement.Scripts scope tokens [] := by
  intro start view
  have done : (start.pastTerminators ";").view = [] := by
    rw [Cursor.view_pastTerminators, view, all]
  obtain ⟨final, none⟩ := Statement.next?_none_of_view semicolon done
  exact ⟨final, .done none⟩

variable {statements : List Statement}

/-- A script after terminators. -/
theorem Statement.scripts_past_terminators
    (run : Repeats Statement.next? scope start statements final)
    (inside : ∀ token ∈ start.ahead, token.isEnd = false)
    (view : start.view = tokens ++ Token.semicolon :: rest)
    (all : tokens.dropWhile (·.spells ";") = []) :
    Statement.Scripts scope (tokens ++ [Token.semicolon]) [] ∧
      Statement.Scripts scope rest statements := by
  have past (more : List Token) :
      (tokens ++ Token.semicolon :: more).dropWhile (·.spells ";") =
        more.dropWhile (·.spells ";") := by
    rw [List.dropWhile_append, all, List.dropWhile_cons_of_pos (by decide)]
    rfl
  refine ⟨Statement.scripts_of_terminators semicolon (past []), fun other viewOther => ?_⟩
  refine Statement.repeats_of_same_view semicolon run inside ?_
  rw [Cursor.view_pastTerminators, Cursor.view_pastTerminators, viewOther, view, past]

/-- A script with a semicolon outside all parentheses is the script up to it and the script after
it. -/
theorem Statement.scripts_of_semicolon
    (run : Repeats Statement.next? scope start statements final)
    (inside : ∀ token ∈ start.ahead, token.isEnd = false)
    (paired : ∀ token ∈ start.view, token.Paired)
    (view : start.view = tokens ++ Token.semicolon :: rest)
    (closed : Token.depth? 0 tokens = some 0) :
    ∃ first second, statements = first ++ second ∧
      Statement.Scripts scope (tokens ++ [Token.semicolon]) first ∧
      Statement.Scripts scope rest second := by
  induction run generalizing tokens with
  | @done start final none =>
      have past := Statement.view_of_next?_none semicolon inside none
      rw [Cursor.view_pastTerminators, view, List.dropWhile_append] at past
      have all : tokens.dropWhile (·.spells ";") = [] := by
        by_contra other
        simp [other] at past
      exact ⟨[], [], rfl, Statement.scripts_past_terminators semicolon (.done none) inside view all⟩
  | @more start middle final statement statements found progress after ih =>
      by_cases all : tokens.dropWhile (·.spells ";") = []
      · exact ⟨[], _, rfl, Statement.scripts_past_terminators semicolon
          (.more found progress after) inside view all⟩
      -- The statement stands before the semicolon, and does not read past it.
      obtain ⟨notEnd, reading⟩ := Statement.finds_of_next?_some semicolon found
      have past (more : List Token) :
          (tokens ++ Token.semicolon :: more).dropWhile (·.spells ";") =
            tokens.dropWhile (·.spells ";") ++ Token.semicolon :: more := by
        rw [List.dropWhile_append, if_neg (by simpa using all)]
      have viewPast : (start.pastTerminators ";").view =
          tokens.dropWhile (·.spells ";") ++ Token.semicolon :: rest := by
        rw [Cursor.view_pastTerminators, view, past]
      have approaches : (start.pastTerminators ";").Approaches rest 0 := by
        refine ⟨⟨_, viewPast, ?_⟩, fun token member => paired token ?_⟩
        · rw [Token.depth?_dropWhile fun token member => paired token (by simp [view, member])]
          exact closed
        · rw [Cursor.view_pastTerminators] at member
          exact (List.dropWhile_suffix _).subset member
      have approachesMiddle := Statement.heeds_statement semicolon _ _ _ reading approaches
      obtain ⟨others, viewMiddle, closedMiddle⟩ := approachesMiddle.ahead
      obtain ⟨first, second, rfl, here, there⟩ := ih
        (fun token member => inside token (found.reaches.ahead.subset member))
        approachesMiddle.paired viewMiddle closedMiddle
      refine ⟨statement :: first, second, rfl, fun shorter viewShorter => ?_, there⟩
      have viewShorterPast : (shorter.pastTerminators ";").view =
          tokens.dropWhile (·.spells ";") ++ [Token.semicolon] := by
        rw [Cursor.view_pastTerminators, viewShorter, past]
      obtain ⟨middleShorter, readingShorter, viewMiddleShorter⟩ :=
        Statement.finds_of_semicolon viewPast viewShorterPast reading viewMiddle
      obtain ⟨finalShorter, runShorter⟩ := here middleShorter viewMiddleShorter
      have foundShorter := Statement.next?_some_of_finds semicolon
        (Statement.atEnd_of_finds readingShorter) readingShorter
      exact ⟨finalShorter, .more foundShorter
        (Statement.remaining_lt_of_next? semicolon foundShorter) runShorter⟩
  | stuck found standstill =>
      exact absurd (Statement.remaining_lt_of_next? semicolon found) standstill

/-- The same for tokens that are complete: they end with such a semicolon, or there are none. -/
theorem Statement.scripts_of_complete {characters : List Char}
    (lexes : Lexer.Lexes false characters (tokens ++ rest) []) (complete : Token.Complete tokens)
    (script : Statement.Scripts scope (tokens ++ rest) statements) :
    ∃ first second, statements = first ++ second ∧ Statement.Scripts scope tokens first ∧
      Statement.Scripts scope rest second := by
  rcases List.eq_nil_or_concat' tokens with rfl | ⟨before, last, rfl⟩
  · exact ⟨[], statements, rfl, Statement.scripts_of_terminators semicolon rfl, script⟩
  obtain rfl : last = Token.semicolon := complete.last last (by simp)
  rw [List.append_assoc, List.singleton_append] at lexes script
  rw [← String.toList_ofList (l := characters)] at lexes
  obtain ⟨body, finish, -, view⟩ := Lexer.tokenize_iff.mpr lexes
  let start : Cursor := ⟨body, Token.finish finish, rfl⟩
  have viewStart : start.view = before ++ Token.semicolon :: rest := view
  obtain ⟨final, run⟩ := script start viewStart
  refine Statement.scripts_of_semicolon semicolon run (fun token member => ?_) ?_ viewStart ?_
  · exact lexes.isEnd_eq_false token.placeless (viewStart ▸ List.mem_map_of_mem member)
  · rw [viewStart]
    exact lexes.paired
  · rw [← Token.depth?_semicolon]
    exact complete.closed

end

/-! ## Lines -/

namespace Prompt

open Lexer Text

/-- The lines, each of them after a line break. -/
def broken (lines : List String) : List Char := lines.flatMap fun line => '\n' :: line.toList

theorem append_broken_cons (pending : List Char) (line : String) (rest : List String) :
    pending ++ broken (line :: rest) = pending ++ '\n' :: line.toList ++ broken rest := by
  rw [List.append_assoc]
  rfl

/-- The text of the lines, after a line break. -/
theorem broken_eq {lines : List String} (nonempty : lines ≠ []) :
    broken lines = '\n' :: ("\n".intercalate lines).toList := by
  induction lines with
  | nil => exact absurd rfl nonempty
  | cons line rest ih =>
      cases rest with
      | nil => simp [broken]
      | cons next others =>
          rw [← List.nil_append (broken _), append_broken_cons, ih (List.cons_ne_nil _ _)]
          simp [String.intercalate_cons_cons]

/-- What is read from whole lines is read from them also before others. -/
theorem cuts_append_broken {operand : Bool} {characters : List Char} {pieces : List (List Char)}
    {tokens : List Token} (cuts : Cuts operand characters pieces tokens []) (lines : List String) :
    Cuts operand (characters ++ broken lines) pieces tokens (broken lines) := by
  cases lines with
  | nil => simpa [broken] using cuts
  | cons line rest => exact cuts.append_line _

theorem forall_isBlank_of_trim {characters : List Char} (empty : trimChars characters = []) :
    ∀ character ∈ characters, isBlank character = true := by
  rw [trimChars, List.reverse_eq_nil_iff, List.dropWhile_eq_nil_iff] at empty
  have none : characters.dropWhile isBlank = [] := by
    by_contra some
    have first := List.head_dropWhile_not isBlank some
    rw [empty _ (List.mem_reverse.mpr (List.head_mem some))] at first
    cases first
  exact List.dropWhile_eq_nil_iff.mp none

variable {scope : Scope} {pending : List Char} {gathered line text : String}
  {lines rest : List String} {statements : List Statement}

/-- A further line is tidied as the prompt does it. -/
theorem tidied_gather (tidied : Tidied true pending gathered.toList) (line : String) :
    Tidied true (pending ++ '\n' :: line.toList) (gather gathered (trim line)).toList := by
  have trimmed : Tidied true line.toList (trim line).toList := by
    rw [trim, String.toList_ofList]
    exact .trimmed _
  unfold gather
  split
  · rename_i empty
    have none : gathered = "" := String.isEmpty_iff.mp empty
    rw [none] at tidied
    exact tidied.append_start (.leading isBlank_break trimmed)
  · have joined := tidied.append_line trimmed
    simpa using joined

theorem tidied_blank (tidied : Tidied true pending gathered.toList)
    (empty : (trim line).isEmpty = true) :
    Tidied true (pending ++ '\n' :: line.toList) gathered.toList := by
  refine tidied.append_blanks (List.forall_mem_cons.mpr ⟨isBlank_break, ?_⟩)
  have none : trim line = "" := String.isEmpty_iff.mp empty
  refine forall_isBlank_of_trim ?_
  simpa [trim] using congrArg String.toList none

/-- Where the prompt stands in a script: some characters have been gathered but not yet read, and
further lines are to come. Together they are a script of the statements. -/
structure Awaits (scope : Scope) (pending : List Char) (gathered : String) (lines : List String)
    (statements : List Statement) : Prop where
  /-- The text gathered so far is tidied. -/
  tidied : Tidied true pending gathered.toList
  /-- What is pending and to come is a script, and tidying leaves its tokens as they are. -/
  script : ∃ pieces tokens, Cuts false (pending ++ broken lines) pieces tokens [] ∧
    (∀ piece ∈ pieces, isFirm piece = true) ∧ Statement.Scripts scope tokens statements
  /-- A line that ends with a semicolon ends a statement. -/
  ends : ∀ before line after, lines = before ++ line :: after →
    ";".toList <:+ (trim line).toList →
      ∃ tokens, Lexes false (pending ++ broken (before ++ [line])) tokens [] ∧
        Token.Complete tokens

namespace Awaits

/-- A line that ends no statement is held. -/
theorem hold (awaits : Awaits scope pending gathered (line :: rest) statements)
    (tidied : Tidied true (pending ++ '\n' :: line.toList) text.toList) :
    Awaits scope (pending ++ '\n' :: line.toList) text rest statements := by
  refine ⟨tidied, ?_, fun before other after split ended => ?_⟩
  · obtain ⟨pieces, tokens, cuts, firm, script⟩ := awaits.script
    rw [append_broken_cons] at cuts
    exact ⟨pieces, tokens, cuts, firm, script⟩
  · obtain ⟨tokens, lexes, complete⟩ := awaits.ends (line :: before) other after
      (by rw [split, List.cons_append]) ended
    rw [List.cons_append, append_broken_cons] at lexes
    exact ⟨tokens, lexes, complete⟩

/-- A line that ends a statement ends a part of the script, which is read from the text that the
prompt has gathered. -/
theorem flush (semicolon : scope.settings.terminator = ";")
    (awaits : Awaits scope pending gathered (line :: rest) statements)
    (tidied : Tidied true (pending ++ '\n' :: line.toList) text.toList)
    (ended : ";".toList <:+ (trim line).toList) :
    ∃ part others, statements = part ++ others ∧ Awaits scope [] "" rest others ∧
      ∃ tokens, Lexes false text.toList tokens [] ∧ Statement.Scripts scope tokens part := by
  obtain ⟨tokens, lexes, complete⟩ := awaits.ends [] line rest rfl ended
  rw [List.nil_append, append_broken_cons, broken, List.flatMap_nil, List.append_nil] at lexes
  obtain ⟨pieces, cuts⟩ := Cuts.of_lexes lexes
  have noOperand : operandAfter false tokens = false := complete.operandAfter
  obtain ⟨_, _, cutsAll, firm, script⟩ := awaits.script
  rw [append_broken_cons] at cutsAll
  obtain ⟨morePieces, more, rfl, rfl, cutsMore⟩ := (cuts_append_broken cuts rest).split cutsAll
  obtain ⟨firmHere, firmThere⟩ := List.forall_mem_append.mp firm
  obtain ⟨part, others, rfl, here, there⟩ :=
    Statement.scripts_of_complete semicolon cutsAll.lexes complete script
  refine ⟨part, others, rfl, ⟨.nil, ⟨morePieces, more, noOperand ▸ cutsMore, firmThere, there⟩, ?_⟩,
    tokens, cuts.tidied firmHere tidied, here⟩
  -- What a later line ends is what it ends in the whole script, without the tokens read here.
  intro before other after split endedOther
  obtain ⟨_, lexesOther, completeOther⟩ := awaits.ends (line :: before) other after
    (by rw [split, List.cons_append]) endedOther
  rw [List.cons_append, append_broken_cons] at lexesOther
  obtain ⟨_, cutsOther⟩ := Cuts.of_lexes lexesOther
  obtain ⟨_, later, rfl, rfl, cutsLater⟩ :=
    (cuts_append_broken cuts (before ++ [other])).split cutsOther
  exact ⟨later, noOperand ▸ cutsLater.lexes, complete.of_append completeOther⟩

end Awaits

/-! ## Sessions -/

variable {strictConstraints : Bool}

/-- What a line means that is no command. -/
theorem turn_eq {terminator : String} (noCommand : (trim line).toList.head? ≠ some '.') :
    turn terminator gathered line =
      if (trim line).isEmpty then .blank
      else if terminator.toList <:+ (trim line).toList then .finished (gather gathered (trim line))
      else .unfinished (gather gathered (trim line)) := by
  simp [turn, noCommand]

/-- The texts that the prompt reads are scripts of parts of the statements. -/
theorem forall₂_texts (noCommand : ∀ line ∈ lines, (trim line).toList.head? ≠ some '.')
    (last : ∀ line ∈ lines.getLast?, ";".toList <:+ (trim line).toList)
    (done : lines = [] → pending = [])
    (awaits : Awaits ⟨⟨";", strictConstraints⟩, .none⟩ pending gathered lines statements) :
    ∃ parts : List (List Statement), parts.flatten = statements ∧
      List.Forall₂ (fun text part => Statement.parseScript ⟨";", strictConstraints⟩ text = .ok part)
        (texts ";" gathered lines) parts := by
  induction lines generalizing pending gathered statements with
  | nil =>
      obtain ⟨_, _, cuts, -, script⟩ := awaits.script
      rw [done rfl] at cuts
      rw [cuts.tokens_eq_nil] at script
      obtain rfl := script.functional (Statement.scripts_of_terminators rfl rfl)
        ⟨⟨[], .finish .start, rfl⟩, rfl⟩
      exact ⟨[], rfl, .nil⟩
  | cons line rest ih =>
      obtain ⟨noCommandHere, noCommandThere⟩ := List.forall_mem_cons.mp noCommand
      have lastThere : ∀ line ∈ rest.getLast?, ";".toList <:+ (trim line).toList := by
        intro other member
        exact last other (by rw [List.getLast?_cons, Option.mem_def.mp member]; rfl)
      have more (notEnded : ¬ ";".toList <:+ (trim line).toList) : rest ≠ [] := by
        rintro rfl
        exact notEnded (last line rfl)
      by_cases empty : (trim line).isEmpty = true
      · rw [texts, turn_eq noCommandHere, if_pos empty]
        refine ih noCommandThere lastThere (fun none => absurd none (more ?_))
          (awaits.hold (tidied_blank awaits.tidied empty))
        rw [String.isEmpty_iff.mp empty]
        decide
      have tidied := tidied_gather awaits.tidied line
      by_cases ended : ";".toList <:+ (trim line).toList
      · obtain ⟨part, others, rfl, awaitsThere, tokens, lexes, script⟩ :=
          awaits.flush rfl tidied ended
        obtain ⟨parts, rfl, read⟩ := ih noCommandThere lastThere (fun _ => rfl) awaitsThere
        rw [texts, turn_eq noCommandHere, if_neg empty, if_pos ended]
        refine ⟨part :: parts, rfl, .cons (parse_of_finds lexes fun start view => ?_) read⟩
        obtain ⟨final, run⟩ := script start view
        exact ⟨final, finds_many_of_repeats run⟩
      · rw [texts, turn_eq noCommandHere, if_neg empty, if_neg ended]
        exact ih noCommandThere lastThere (fun none => absurd none (more ended))
          (awaits.hold tidied)

/-- Without commands, the prompt answers every text, and says farewell. -/
theorem replies_eq (settings : Settings) (format : OutputFormat)
    (noCommand : ∀ line ∈ lines, (trim line).toList.head? ≠ some '.') :
    replies ⟨settings, format, gathered⟩ lines =
      (texts settings.terminator gathered lines).map (answer ⟨settings, format, ""⟩) ++
        [farewell] := by
  induction lines generalizing gathered with
  | nil => rfl
  | cons line rest ih =>
      obtain ⟨noCommandHere, noCommandThere⟩ := List.forall_mem_cons.mp noCommand
      rw [replies, texts, step, turn_eq noCommandHere]
      by_cases empty : (trim line).isEmpty = true
      · simpa only [if_pos empty, List.nil_append] using ih noCommandThere
      by_cases ended : settings.terminator.toList <:+ (trim line).toList
      · simp only [if_neg empty, if_pos ended]
        rw [ih noCommandThere]
        rfl
      · simpa only [if_neg empty, if_neg ended, List.nil_append] using ih noCommandThere

/-- The last token of the text is a semicolon outside all parentheses. -/
def endsStatement (text : String) : Bool :=
  (Token.read? text).any fun tokens =>
    tokens.getLast? = some Token.semicolon && Token.depth? 0 tokens = some 0

theorem exists_complete_of_endsStatement (ended : endsStatement text = true) :
    ∃ tokens, Lexes false text.toList tokens [] ∧ Token.Complete tokens := by
  obtain ⟨tokens, read, complete⟩ := (Option.any_eq_true _ _).mp ended
  simp only [Bool.and_eq_true, decide_eq_true_eq] at complete
  refine ⟨tokens, Token.read?_eq_some_iff.mp read, complete.2, fun token member => ?_⟩
  exact Option.some.inj (member.symm.trans complete.1)

theorem cuts_broken {pieces : List (List Char)} {tokens : List Token}
    (cuts : Cuts false ("\n".intercalate lines).toList pieces tokens []) :
    Cuts false (broken lines) pieces tokens [] := by
  cases lines with
  | nil => exact cuts
  | cons line rest =>
      rw [broken_eq (List.cons_ne_nil _ _)]
      exact .gap (.blank isBlank_break) cuts

/-- A script is read from its tokens, which are cut from its pieces. -/
theorem exists_scripts_of_parseScript
    (accepted : Statement.parseScript ⟨";", strictConstraints⟩ text = .ok statements) :
    ∃ tokens, Cuts false text.toList (Token.pieces text) tokens [] ∧
      Statement.Scripts ⟨⟨";", strictConstraints⟩, .none⟩ tokens statements := by
  obtain ⟨tokens, final, lexed, found⟩ := parse_eq_ok_iff.mp accepted
  obtain ⟨body, last, rfl, cuts⟩ := cuts_of_tokensFrom lexed
  rw [Cursor.ofTokens_append_finish] at found
  refine ⟨_, cuts, fun start view => ?_⟩
  have run := repeats_of_finds_many found
  refine Statement.repeats_of_same_view rfl run (fun token member => ?_) ?_
  · exact cuts.lexes.isEnd_eq_false token.placeless (List.mem_map_of_mem member)
  · rw [Cursor.view_pastTerminators, Cursor.view_pastTerminators, view]
    rfl

/-- Before the first line, the whole script is to come. -/
theorem awaits_of_parseScript
    (accepted : Statement.parseScript ⟨";", strictConstraints⟩ ("\n".intercalate lines) =
      .ok statements)
    (ends : ∀ index (inside : index < lines.length), ";".toList <:+ (trim lines[index]).toList →
      endsStatement ("\n".intercalate (lines.take (index + 1))) = true)
    (firm : ∀ piece ∈ Token.pieces ("\n".intercalate lines), isFirm piece = true) :
    Awaits ⟨⟨";", strictConstraints⟩, .none⟩ [] "" lines statements := by
  refine ⟨.nil, ?_, ?_⟩
  · obtain ⟨tokens, cuts, script⟩ := exists_scripts_of_parseScript accepted
    exact ⟨_, tokens, cuts_broken cuts, firm, script⟩
  · rintro before line after rfl ended
    have through := ends before.length (by simp) (by simpa using ended)
    rw [List.append_cons, List.take_left' (by simp)] at through
    obtain ⟨tokens, lexes, complete⟩ := exists_complete_of_endsStatement through
    obtain ⟨pieces, cuts⟩ := Cuts.of_lexes lexes
    exact ⟨tokens, (cuts_broken cuts).lexes, complete⟩

variable {parts : List (List Statement)} {read : List String}

theorem mapM_parseScript {settings : Settings}
    (each : List.Forall₂ (fun text part => Statement.parseScript settings text = .ok part) read
      parts) : read.mapM (Statement.parseScript settings) = .ok parts := by
  induction each with
  | nil => rfl
  | cons first others ih =>
      rw [List.mapM_cons, first, ih]
      rfl

theorem map_answer {state : State}
    (each : List.Forall₂ (fun text part => Statement.parseScript state.settings text = .ok part)
      read parts) :
    read.map (answer state) =
      parts.map fun part => .output (state.format.write state.settings.terminator part) := by
  induction each with
  | nil => rfl
  | cons first others ih =>
      rw [List.map_cons, List.map_cons, ih, answer, first]

/-- The prompt reads the same statements from lines as are read from all of them at once, provided
that no line is a command, every line that ends with a semicolon ends a statement, the last one
does, and no line break in a token has another blank beside it. -/
theorem session_eq_of_parseScript (strictConstraints : Bool) (format : OutputFormat)
    (lines : List String) (statements : List Statement)
    (accepted : Statement.parseScript ⟨";", strictConstraints⟩ ("\n".intercalate lines) =
      .ok statements)
    (noCommand : ∀ line ∈ lines, (trim line).toList.head? ≠ some '.')
    (last : ∀ line ∈ lines.getLast?, ";".toList <:+ (trim line).toList)
    (ends : ∀ index (inside : index < lines.length), ";".toList <:+ (trim lines[index]).toList →
      endsStatement ("\n".intercalate (lines.take (index + 1))) = true)
    (firm : ∀ piece ∈ Token.pieces ("\n".intercalate lines), isFirm piece = true) :
    ∃ parts,
      (texts ";" "" lines).mapM (Statement.parseScript ⟨";", strictConstraints⟩) = .ok parts ∧
      parts.flatten = statements ∧
      session ⟨";", strictConstraints⟩ format lines =
        banner ⟨";", strictConstraints⟩ ::
          (parts.map fun part => .output (format.write ";" part)) ++ [farewell] := by
  obtain ⟨parts, joined, each⟩ := forall₂_texts noCommand last (fun _ => rfl)
    (awaits_of_parseScript accepted ends firm)
  refine ⟨parts, mapM_parseScript each, joined, ?_⟩
  let state : State := ⟨⟨";", strictConstraints⟩, format, ""⟩
  rw [session, replies_eq _ _ noCommand, @map_answer _ _ state each]
  rfl

/-- A clause over several lines, one of them blank, with a string that goes on over two of them, and
a comment that ends with a semicolon. -/
theorem session_eq_of_parseScript_lines :
    let lines := ["ALTER TABLE a ", "", "  ADD COLUMN b INT COMMENT 'x", "y' ; ", "# c;",
      "ALTER TABLE a RENAME TO c;"]
    let statements : List Statement :=
      [.alterTable ⟨"a", [⟨.column, .add, .column
        { name := "b", typeName := "INT", comment := some "x\ny" }, []⟩], none⟩,
        .alterTable ⟨"a", [⟨.table, .rename, .name "c", []⟩], none⟩]
    Statement.parseScript ⟨";", true⟩ ("\n".intercalate lines) = .ok statements ∧
      ∃ parts, (texts ";" "" lines).mapM (Statement.parseScript ⟨";", true⟩) = .ok parts ∧
        parts.flatten = statements ∧
        session ⟨";", true⟩ .sql lines =
          banner ⟨";", true⟩ ::
            (parts.map fun part => .output (OutputFormat.sql.write ";" part)) ++ [farewell] := by
  intro lines statements
  have accepted : Statement.parseScript ⟨";", true⟩ ("\n".intercalate lines) = .ok statements :=
    eq_ok_of_toOption (by decide +kernel)
  exact ⟨accepted, session_eq_of_parseScript true .sql lines statements accepted
    (by decide +kernel) (by decide +kernel) (by decide +kernel) (by decide +kernel)⟩

/-- With a blank before the line break, the prompt reads another string. -/
example :
    let lines := ["ALTER TABLE a ADD COLUMN b INT COMMENT 'x ", "y';"]
    let parts := (texts ";" "" lines).mapM (Statement.parseScript ⟨";", true⟩)
    (Statement.parseScript ⟨";", true⟩ ("\n".intercalate lines)).toOption ≠
      parts.toOption.map List.flatten := by
  decide +kernel

end Prompt

end TableDdl
