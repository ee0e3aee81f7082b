import TableDdl.Constraint.Grammar
import TableDdl.Proofs.RoundTrip.Literals

/-!
# Clauses that are kept as text are read back

A constraint that is no foreign key is kept as the text of its tokens, up to a comma or a semicolon
outside all parentheses. Such a text is read as tokens wherever it stands, unless it starts with a
signed number, and the tokens are passed over as a whole when it is read again.
-/

namespace TableDdl

namespace Token

/-- No token outside all parentheses is a stop word. -/
def clear (stops : Stops) : Nat → List Token → Bool
  | _, [] => true
  | depth, token :: rest =>
      match token.kind with
      | .leftParen => clear stops (depth + 1) rest
      | .rightParen => clear stops (depth - 1) rest
      | _ => (depth ≠ 0 || !stops.stopAt token) && clear stops depth rest

end Token

namespace Lexer

variable {operand : Bool} {token : Token} {tokens written : List Token} {stops : Stops}

/-- A sign by itself does not depend on what comes before it. -/
theorem Step.symbol_anywhere {characters left : List Char} (step : Step false characters tokens left)
    (isSymbol : ∀ token ∈ tokens, token.kind = .symbol) (nonempty : tokens ≠ [])
    (operand : Bool) : Step operand characters tokens left := by
  have number {text characters : List Char} {kind : Token.Kind} {label : String}
      (scanned : Scan.number characters = (kind, text))
      (isSymbol : ∀ token ∈ [Token.bare kind label], token.kind = .symbol) : False := by
    have symbol : kind = .symbol := isSymbol (.bare kind label) (by simp)
    rcases kind_of_number scanned with rfl | rfl | rfl <;> cases symbol
  cases step with
  | blank isBlank => exact absurd rfl nonempty
  | line mark => exact absurd rfl nonempty
  | comment closed => exact absurd rfl nonempty
  | string mark closes => exact .string mark closes
  | name closes => exact .name closes
  | number digit scanned => exact .number digit scanned
  | signed noOperand digit scanned => exact (number scanned isSymbol).elim
  | mark known noLine noComment noSign =>
      exact .mark known noLine noComment fun bad => noSign ⟨bad.1, bad.2.1, rfl⟩
  | binary letter closes => exact .binary letter closes
  | word notBlank starts noBinary => exact .word notBlank starts noBinary

/-- A token without a sign is read again wherever it stands. -/
theorem Solid.anywhere (solid : Solid false token)
    (unsigned : token.spelling.toList.head? = some '-' → token.kind = .symbol)
    (nonempty : token.spelling.toList ≠ []) (operand : Bool) : Solid operand token := by
  intro rest fits
  have step := solid rest fits
  obtain ⟨character, others, spelling⟩ := List.exists_cons_of_ne_nil nonempty
  rw [spelling] at step unsigned ⊢
  by_cases sign : character = '-'
  · have isSymbol := unsigned (by rw [sign, List.head?_cons])
    have respelled : token.respelled = [token.placeless] := by
      simp [Token.respelled, isSymbol]
    refine step.symbol_anywhere ?_ ?_ operand
    · simp [respelled, isSymbol]
    · simp [respelled]
  · exact step.anywhere (by simpa using sign) operand

theorem Solid.spelling_ne_nil (solid : Solid operand token) : token.spelling.toList ≠ [] := by
  intro empty
  have step := solid [] (.inr (.inr ⟨Scan.boundary_nil, by simp⟩))
  rw [empty] at step
  cases step

theorem Respells.anywhere {others : List Token} (respells : Respells false (token :: others))
    (unsigned : token.spelling.toList.head? = some '-' → token.kind = .symbol) (operand : Bool) :
    Respells operand (token :: others) := by
  obtain ⟨solid, proper, placeless, respellsOthers⟩ := respells
  refine ⟨solid.anywhere unsigned solid.spelling_ne_nil operand, proper, placeless, ?_⟩
  have same : operandAfter operand token.respelled = operandAfter false token.respelled := by
    rw [Token.respelled]
    split
    · rfl
    · rfl
  rwa [same]

/-- Only a backtick spells one. -/
theorem Step.spells_backtick {characters left : List Char}
    (step : Step operand characters tokens left) :
    ∀ token ∈ tokens, token.isWritten = true → token.kind ≠ .word →
      token.spells "\x60" = false := by
  have plain {kind : Token.Kind} {text : String} (notMark : kind.isPunctuation = false) :
      ∀ token ∈ [Token.bare kind text], token.isWritten = true → token.kind ≠ .word →
        token.spells "\x60" = false := by
    intro token member _ notWord
    obtain rfl := List.mem_singleton.mp member
    simp_all [Token.spells, Token.isPunctuation]
  cases step with
  | blank isBlank => simp
  | line mark => simp
  | comment closed => simp
  | string mark closes => exact plain rfl
  | @name rest text left closes =>
      intro token member written _
      by_cases empty : text = []
      · simp only [nameTokens, empty, if_true, List.nil_append, List.mem_cons, List.not_mem_nil,
          or_false, or_self] at member
        rw [member] at written
        exact absurd written (by decide)
      · simp only [nameTokens, if_neg empty, List.cons_append, List.nil_append, List.mem_cons,
          List.not_mem_nil, or_false] at member
        rcases member with rfl | rfl | rfl
        · exact absurd written (by decide)
        · simp [Token.spells, Token.isPunctuation, Token.Kind.isPunctuation]
        · exact absurd written (by decide)
  | number digit scanned =>
      rcases kind_of_number scanned with rfl | rfl | rfl <;> exact plain rfl
  | signed noOperand digit scanned =>
      rcases kind_of_number scanned with rfl | rfl | rfl <;> exact plain rfl
  | @mark character rest kind known noLine noComment noSign =>
      intro token member _ notWord
      obtain rfl := List.mem_singleton.mp member
      have all : ∀ character ∈ marks, String.ofList [character] ≠ "\x60" :=
        Text.forall_mem_of_all (by decide)
      have other := all character (mem_marks_of_punctuation? known)
      simp_all [Token.spells]
  | binary letter closes => exact plain rfl
  | word notBlank starts noBinary => exact plain rfl

theorem Lexes.spells_backtick {characters left : List Char}
    (lexes : Lexes operand characters tokens left) :
    ∀ token ∈ tokens, token.isWritten = true → token.kind ≠ .word →
      token.spells "\x60" = false := by
  induction lexes with
  | done => simp
  | step first others ih =>
      intro token member
      rcases List.mem_append.mp member with here | there
      · exact first.spells_backtick token here
      · exact ih token there

/-! ## Stop words in a run of tokens -/

theorem clear_cons_of_other {depth : Nat} (notOpen : token.kind ≠ .leftParen)
    (notClosed : token.kind ≠ .rightParen) :
    Token.clear stops depth (token :: tokens) =
      ((depth ≠ 0 || !stops.stopAt token) && Token.clear stops depth tokens) := by
  cases kind : token.kind with
  | leftParen => exact absurd kind notOpen
  | rightParen => exact absurd kind notClosed
  | _ => simp only [Token.clear, kind]

theorem clear_filter {depth : Nat} (clear : Token.clear stops depth tokens = true) :
    Token.clear stops depth (tokens.filter Token.isWritten) = true := by
  induction tokens generalizing depth with
  | nil => rfl
  | cons token others ih =>
      by_cases written : token.isWritten = true
      · rw [List.filter_cons_of_pos written]
        by_cases notOpen : token.kind = .leftParen
        · simp only [Token.clear, notOpen] at clear ⊢
          exact ih clear
        by_cases notClosed : token.kind = .rightParen
        · simp only [Token.clear, notClosed] at clear ⊢
          exact ih clear
        rw [clear_cons_of_other notOpen notClosed, Bool.and_eq_true] at clear ⊢
        exact ⟨clear.1, ih clear.2⟩
      · rw [List.filter_cons_of_neg written]
        have other : token.kind ≠ .leftParen ∧ token.kind ≠ .rightParen := by
          constructor
          · intro isOpen
            simp [Token.isWritten, Token.isEnd, isOpen] at written
          · intro isClosed
            simp [Token.isWritten, Token.isEnd, isClosed] at written
        rw [clear_cons_of_other other.1 other.2, Bool.and_eq_true] at clear
        exact ih clear.2

theorem clear_flatMap_respelled {depth : Nat} (noBacktick : stops.stopAt backtickToken = false)
    (clear : Token.clear stops depth written = true) :
    Token.clear stops depth (written.flatMap Token.respelled) = true := by
  induction written generalizing depth with
  | nil => rfl
  | cons token others ih =>
      rw [List.flatMap_cons, Token.respelled]
      split
      · rename_i isName
        have ahead : Token.clear stops depth (others.flatMap Token.respelled) = true := by
          rw [clear_cons_of_other (by simp [isName]) (by simp [isName]), Bool.and_eq_true] at clear
          exact ih clear.2
        have backtick (tokens : List Token) (clear : Token.clear stops depth tokens = true) :
            Token.clear stops depth (backtickToken :: tokens) = true := by
          rw [clear_cons_of_other (by decide) (by decide), noBacktick, clear]
          simp
        have name (text : String) (tokens : List Token)
            (clear : Token.clear stops depth tokens = true) :
            Token.clear stops depth (.bare .identifier text :: tokens) = true := by
          rw [clear_cons_of_other (by simp) (by simp), clear]
          simp [Stops.stopAt, Token.isPunctuation, Token.Kind.isPunctuation]
        by_cases empty : token.text.toList = []
        · have tokens : Grammar.nameTokens token.text = [backtickToken, backtickToken] := by
            simp [Grammar.nameTokens, nameTokens, empty]
          rw [tokens]
          exact backtick _ (backtick _ ahead)
        · rw [Grammar.nameTokens_eq (by simpa using empty)]
          exact backtick _ (name _ _ (backtick _ ahead))
      · by_cases isOpen : token.kind = .leftParen
        · simp only [List.cons_append, List.nil_append, Token.clear, Token.kind_placeless,
            isOpen] at clear ⊢
          exact ih clear
        by_cases isClosed : token.kind = .rightParen
        · simp only [List.cons_append, List.nil_append, Token.clear, Token.kind_placeless,
            isClosed] at clear ⊢
          exact ih clear
        rw [clear_cons_of_other isOpen isClosed, Bool.and_eq_true] at clear
        have step : Token.clear stops depth (token.placeless :: others.flatMap Token.respelled) =
            ((depth ≠ 0 || !stops.stopAt token.placeless) &&
              Token.clear stops depth (others.flatMap Token.respelled)) :=
          clear_cons_of_other isOpen isClosed
        rw [List.cons_append, List.nil_append, step, Token.stopAt_placeless, Bool.and_eq_true]
        exact ⟨clear.1, ih clear.2⟩

end Lexer

namespace Grammar

variable {scope : Scope} {stops : Stops} {inner after : List Token}

/-- A run of tokens without a stop word outside its parentheses is passed over. -/
theorem readsScan_skip {depth : Nat} (notEnd : ∀ token ∈ inner, token.isEnd = false)
    (balanced : Token.depth? depth inner = some 0) (clear : Token.clear stops depth inner = true)
    (ends : Ends stops after) :
    ReadsScan stops (fun _ _ => return (false, ())) scope depth () (inner ++ after) () after := by
  induction inner generalizing depth with
  | nil =>
      obtain rfl : depth = 0 := by simpa [Token.depth?] using balanced
      exact readsScan_done ends
  | cons token inner ih =>
      have others := fun token member => notEnd token (List.mem_cons_of_mem _ member)
      by_cases isOpen : token.kind = .leftParen
      · simp only [Token.depth?, Token.clear, isOpen] at balanced clear
        exact readsScan_opened isOpen (ih others balanced clear)
      by_cases isClosed : token.kind = .rightParen
      · cases depth with
        | zero => simp [Token.depth?, isClosed] at balanced
        | succ outer =>
            simp only [Token.depth?, Token.clear, isClosed, Nat.add_sub_cancel] at balanced clear
            exact readsScan_closed isClosed (ih others balanced clear)
      rw [Lexer.depth?_cons_of_other isOpen isClosed] at balanced
      rw [Lexer.clear_cons_of_other isOpen isClosed, Bool.and_eq_true] at clear
      have noStop : depth = 0 → stops.stopAt token = false := by
        intro zero
        simpa [zero] using clear.1
      exact readsScan_passed ⟨notEnd token (by simp), isOpen, isClosed, noStop⟩ (reads_pure _)
        (ih others balanced clear.2)

theorem reads_skipTo_run {words : List String} (notEnd : ∀ token ∈ inner, token.isEnd = false)
    (balanced : Token.depth? 0 inner = some 0)
    (clear : Token.clear (scope.stops.adding words) 0 inner = true)
    (ends : Ends (scope.stops.adding words) after) :
    (skipTo words).Reads scope (inner ++ after) () after :=
  reads_scan (readsScan_skip notEnd balanced clear ends)

/-- The text of what a grammar reads. -/
theorem reads_consumed_bind {α β : Type} {grammar : Grammar α} (second : String → Grammar β)
    {found : α} {value : β} {final : List Token}
    (reads : grammar.Reads scope (inner ++ after) found after)
    (there : (second (Token.renderRaw inner)).Reads scope after value final) :
    (do second (Token.renderRaw (← consumed grammar))).Reads scope (inner ++ after) value final := by
  intro start view
  obtain ⟨cursor, foundHere, viewAfter⟩ := reads start view
  obtain ⟨last, foundThere, viewLast⟩ := there cursor viewAfter
  refine ⟨last, finds_bind_iff.mpr ⟨start.between cursor, cursor,
    finds_consumed_iff.mpr ⟨found, foundHere, rfl⟩, ?_⟩, viewLast⟩
  have between : (start.between cursor).map Token.placeless = inner := by
    have length : start.remaining - cursor.remaining = inner.length := by
      rw [← Cursor.length_view, ← Cursor.length_view, view, viewAfter, List.length_append]
      omega
    have ahead : start.ahead.map Token.placeless = inner ++ after := view
    rw [Cursor.between, length, List.map_take, ahead, List.take_left]
  rw [← Token.renderRaw_map_placeless, between]
  exact foundThere

end Grammar

namespace Constraint

open Lexer Grammar

/-- The stop words while a constraint of a table is read. -/
def clauseStops : Stops := (Stops.none.adding [";"]).adding [","]

/-- The first token of a clause is not taken for something else: a foreign key, a number that is
subtracted or, where the constraint has no name, its name. -/
structure Starts (named : Bool) (token : Token) : Prop where
  notForeign : token.spells "FOREIGN" = false
  unsigned : token.spelling.toList.head? = some '-' → token.kind = .symbol
  notName : named = false → ["CHECK", "UNIQUE", "PRIMARY"].any token.spells = true ∨
    token.kind ∉ [Token.Kind.word, .identifier]

/-- The text is one of a clause that is read back. -/
def IsClause (named : Bool) (text : String) : Prop :=
  ∃ source tokens, Token.read? source = some tokens ∧ Token.renderRaw tokens = text ∧
    Token.depth? 0 tokens = some 0 ∧ (∀ token ∈ tokens, token.isClean = true) ∧
    Token.undotted (tokens.filter Token.isWritten) = true ∧
    Token.clear clauseStops 0 tokens = true ∧
    ∃ first others, tokens.filter Token.isWritten = first :: others ∧ Starts named first

instance (named : Bool) (token : Token) : Decidable (Starts named token) :=
  decidable_of_iff (token.spells "FOREIGN" = false ∧
      (token.spelling.toList.head? = some '-' → token.kind = .symbol) ∧
      (named = false → ["CHECK", "UNIQUE", "PRIMARY"].any token.spells = true ∨
        token.kind ∉ [Token.Kind.word, .identifier]))
    ⟨fun starts => ⟨starts.1, starts.2.1, starts.2.2⟩,
      fun starts => ⟨starts.notForeign, starts.unsigned, starts.notName⟩⟩

/-- The text is a clause and that of its own tokens. -/
def isOwnClause (named : Bool) (text : String) : Bool :=
  Token.isOwnExpression text && (Token.read? text).any fun tokens =>
    Token.clear clauseStops 0 tokens &&
      (tokens.filter Token.isWritten).head?.any fun first => decide (Starts named first)

theorem isClause_of_isOwnClause {named : Bool} {text : String}
    (own : isOwnClause named text = true) : IsClause named text := by
  simp only [isOwnClause, Token.isOwnExpression, Bool.and_eq_true] at own
  obtain ⟨expression, clause⟩ := own
  obtain ⟨tokens, read, checks⟩ := (Option.any_eq_true _ _).mp clause
  rw [read] at expression
  simp only [Option.any_some, Bool.and_eq_true, decide_eq_true_eq, List.all_eq_true] at expression
  obtain ⟨⟨⟨written, balanced⟩, clean⟩, undotted⟩ := expression
  simp only [Bool.and_eq_true] at checks
  obtain ⟨first, found, starts⟩ := (Option.any_eq_true _ _).mp checks.2
  obtain ⟨others, found⟩ := List.head?_eq_some_iff.mp found
  exact ⟨text, tokens, read, written, balanced, clean, undotted, checks.1, first, others, found,
    of_decide_eq_true starts⟩

/-- The tokens of a clause. -/
def clauseTokens (text : String) : List Token := (Token.read? text).getD []

/-- What the tokens of a clause that is read back are like. -/
structure ReadClause (named : Bool) (text : String) : Prop where
  spelled : ∀ operand, Spelled operand text (clauseTokens text)
  written : Token.renderRaw (clauseTokens text) = text
  nonempty : text ≠ ""
  balanced : Token.depth? 0 (clauseTokens text) = some 0
  clear : Token.clear clauseStops 0 (clauseTokens text) = true
  notEnd : ∀ token ∈ clauseTokens text, token.isEnd = false
  starts : ∃ first others, clauseTokens text = first :: others ∧
    first.spells "FOREIGN" = false ∧ (named = false →
      ["CHECK", "UNIQUE", "PRIMARY"].any first.spells = true ∨
        first.spells "\x60" = false ∧ first.kind ≠ .word)

/-- The first token of a clause when it is read again. -/
theorem Starts.respelled {named : Bool} {token : Token} (starts : Starts named token)
    (noBacktick : token.kind ≠ .word → token.spells "\x60" = false) (others : List Token) :
    ∃ first rest, token.respelled ++ others = first :: rest ∧
      first.spells "FOREIGN" = false ∧ (named = false →
        ["CHECK", "UNIQUE", "PRIMARY"].any first.spells = true ∨
          first.spells "\x60" = false ∧ first.kind ≠ .word) := by
  by_cases isName : token.kind = .identifier
  · have tokens : ∃ rest, token.respelled = backtickToken :: rest :=
      ⟨_, by rw [Token.respelled, if_pos isName, Grammar.nameTokens, Lexer.nameTokens]⟩
    obtain ⟨rest, tokens⟩ := tokens
    refine ⟨backtickToken, rest ++ others, by rw [tokens]; rfl, by decide, fun unnamed => ?_⟩
    rcases starts.notName unnamed with word | other
    · simp [Token.spells, isName, Token.isPunctuation, Token.Kind.isPunctuation] at word
    · simp [isName] at other
  · refine ⟨token.placeless, others, by simp [Token.respelled, isName], ?_, fun unnamed => ?_⟩
    · rw [Token.spells_placeless]
      exact starts.notForeign
    · refine (starts.notName unnamed).imp (fun word => ?_) (fun other => ?_)
      · simpa using word
      · have notWord : token.kind ≠ .word := fun isWord => other (by simp [isWord])
        exact ⟨by rw [Token.spells_placeless]; exact noBacktick notWord, notWord⟩

theorem IsClause.read {named : Bool} {text : String} (clause : IsClause named text) :
    ReadClause named text := by
  obtain ⟨source, tokens, read, rfl, balanced, clean, undotted, clear, first, others, written,
    starts⟩ := clause
  have lexes := Token.read?_eq_some_iff.mp read
  have respells (operand : Bool) : Respells operand (tokens.filter Token.isWritten) := by
    have respells : Respells false (tokens.filter Token.isWritten) := lexes.respells clean id
    rw [written] at respells ⊢
    exact respells.anywhere starts.unsigned operand
  have again (operand : Bool) : Spelled operand (Token.renderRaw tokens)
      ((tokens.filter Token.isWritten).flatMap Token.respelled) := fun rest gap =>
    (respells operand).lexes undotted gap.boundary gap.noPoint
  have same : clauseTokens (Token.renderRaw tokens) =
      (tokens.filter Token.isWritten).flatMap Token.respelled := by
    have all := again false [] gap_nil
    rw [List.append_nil] at all
    rw [clauseTokens, Token.read?_eq_some_iff.mpr all, Option.getD_some]
  have member : first ∈ tokens ∧ first.isWritten = true := by
    rw [← List.mem_filter, written]
    exact List.mem_cons_self
  refine ⟨?_, ?_, ?_, ?_, ?_, ?_, ?_⟩
  · rw [same]
    exact again
  · rw [same, Token.renderRaw, lexes.filter_flatMap_respelled clean]
    rfl
  · intro empty
    have solid := respells false
    rw [written] at solid
    have nothing : (Token.spelled (first :: others)).toList = [] := by
      rw [← written]
      simpa [Token.renderRaw] using empty
    rw [Token.spelled, String.toList_append, List.append_eq_nil_iff] at nothing
    exact solid.1.spelling_ne_nil nothing.1
  · rw [same, depth?_flatMap_respelled, balanced]
  · rw [same]
    exact clear_flatMap_respelled (by decide) (clear_filter clear)
  · rw [same]
    exact (again false [] gap_nil).isEnd_eq_false
  · rw [same, written, List.flatMap_cons]
    exact starts.respelled (lexes.spells_backtick first member.1 member.2) _

end Constraint

end TableDdl
