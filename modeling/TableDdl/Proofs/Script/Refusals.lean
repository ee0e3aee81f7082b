import TableDdl.Proofs.Grammar.Composition
import TableDdl.Proofs.Grammar.Parse
import TableDdl.Proofs.Grammar.Positions
import TableDdl.Proofs.Grammar.Progress
import TableDdl.Proofs.Lexer.Raw

/-!
# Where refusals point

A refusal names a token and its line. The token is one of those from the cursor on, or the end of
input, with one exception: a scan that runs into the end of input inside a parenthesis names the
parenthesis, but the line on which the scan began, where the parenthesis need not stand.
-/

namespace TableDdl

theorem Cursor.current_mem_tokens (cursor : Cursor) : cursor.current ∈ cursor.tokens :=
  List.mem_of_mem_head? cursor.head?_tokens

theorem Cursor.Reaches.tokens_suffix {earlier later : Cursor} (reaches : earlier.Reaches later) :
    later.tokens <:+ earlier.tokens := by
  rw [reaches.tokens_eq_drop]
  exact List.drop_suffix _ _

/-- Only an opening parenthesis is spelled like one. -/
theorem Token.described_of_spells_parenthesis {token : Token} (spelled : token.spells "(" = true) :
    token.described = "(" := by
  have text : token.text = "(" := by
    by_cases isWord : token.kind = .word
    · have upper : Text.upper token.text = String.singleton '(' := by
        simp only [spells, isWord, if_true, Text.sameWord, beq_iff_eq] at spelled
        exact spelled.trans (by decide)
      exact Text.eq_singleton_of_upper_eq (by decide) upper
    · simp only [spells, isWord, if_false, Bool.and_eq_true, beq_iff_eq] at spelled
      exact spelled.2
  simp [described, Grammar.isEnd_of_spells spelled, text]

namespace Grammar

variable {α σ : Type}

/-- What a refusal names when reading from the cursor. -/
inductive PointsAt (start : Cursor) (error : ParseError) : Prop where
  /-- A token, on its line. -/
  | token {token : Token} (ahead : token ∈ start.tokens) (named : error.token = token.described)
      (line : error.line = some token.location.line)
  /-- A parenthesis that a scan passed over, on the line on which the scan began. -/
  | unclosed {scanned : Cursor} (reaches : start.Reaches scanned)
      (fault : error = ⟨.unclosedParenthesis, "(", some scanned.current.location.line⟩)
      {opening : Token} (passed : opening ∈ scanned.tokens) (opens : opening.kind = .leftParen)

theorem PointsAt.since {start later : Cursor} {error : ParseError} (points : PointsAt later error)
    (reaches : start.Reaches later) : PointsAt start error := by
  cases points with
  | token ahead named line => exact .token (reaches.tokens_suffix.mem ahead) named line
  | unclosed after fault passed opens => exact .unclosed (reaches.trans after) fault passed opens

theorem pointsAt_refuse (fault : Fault) (start : Cursor) :
    PointsAt start ⟨fault, start.current.described, some start.current.location.line⟩ :=
  .token start.current_mem_tokens rfl rfl

theorem pointsAt_many {item? : Grammar (Option α)} {scope : Scope}
    (here : ∀ start error, (item? scope start).result = .error error → PointsAt start error)
    {start : Cursor} {error : ParseError}
    (refused : (many item? scope start).result = .error error) : PointsAt start error := by
  fun_induction many item? scope start with
  | case1 start found cursor reaches outcome =>
      obtain rfl : found = error := by simpa using refused
      exact here start found (by rw [outcome])
  | case2 start cursor reaches outcome => simp at refused
  | case3 start value cursor reaches outcome progress ih =>
      refine (ih ?_).since reaches
      cases later : (many item? scope cursor).result with
      | error other => simpa [Outcome.since, Outcome.mapResult, later, Except.map] using refused
      | ok others => simp [Outcome.since, Outcome.mapResult, later, Except.map] at refused
  | case4 start value cursor reaches outcome standstill => simp at refused

/-- A scan is refused by its visitor, or because a parenthesis is open at the end of input: one that
was open before, or one ahead. -/
theorem pointsAt_scanFrom {stops : Stops} {visit : Visitor σ} {unclosed : ParseError}
    {scope : Scope}
    (here : ∀ depth gathered start error,
      (visit depth gathered scope start).result = .error error → PointsAt start error)
    {depth : Nat} {gathered : σ} {start : Cursor} {error : ParseError}
    (refused : (scanFrom stops visit unclosed scope depth gathered start).result = .error error) :
    PointsAt start error ∨
      error = unclosed ∧ (depth = 0 → ∃ opening ∈ start.tokens, opening.kind = .leftParen) := by
  fun_induction scanFrom stops visit unclosed scope depth gathered start with
  | case1 depth gathered start inside _ _ opens ih =>
      rcases ih refused with points | ⟨same, -⟩
      · exact .inl (points.since (.advance start))
      · exact .inr ⟨same, fun _ => ⟨start.current, start.current_mem_tokens, opens⟩⟩
  | case2 gathered start inside _ _ notOpen closes => simp at refused
  | case3 depth gathered start inside _ _ notOpen closes nonzero ih =>
      rcases ih refused with points | ⟨same, -⟩
      · exact .inl (points.since (.advance start))
      · exact .inr ⟨same, fun zero => absurd zero nonzero⟩
  | case4 depth gathered start inside _ _ notOpen notClosed stop => simp at refused
  | case5 depth gathered start inside _ _ notOpen notClosed noStop found cursor reaches outcome =>
      obtain rfl : found = error := by simpa using refused
      exact .inl (here depth gathered start found (by rw [outcome]))
  | case6 depth gathered start inside _ _ notOpen notClosed noStop taken gatheredNow cursor reaches
      outcome _ progress ih =>
      rcases ih refused with points | ⟨same, ahead⟩
      · exact .inl (points.since reaches)
      · refine .inr ⟨same, fun zero => ?_⟩
        obtain ⟨opening, member, opens⟩ := ahead zero
        exact ⟨opening, reaches.tokens_suffix.mem member, opens⟩
  | case7 depth gathered start inside _ _ notOpen notClosed noStop taken gatheredNow cursor reaches
      outcome _ standstill _ ih =>
      have further := reaches.trans (.advance cursor)
      rcases ih refused with points | ⟨same, ahead⟩
      · exact .inl (points.since further)
      · refine .inr ⟨same, fun zero => ?_⟩
        obtain ⟨opening, member, opens⟩ := ahead zero
        exact ⟨opening, further.tokens_suffix.mem member, opens⟩
  | case8 gathered start outside => simp at refused
  | case9 depth gathered start outside nonzero =>
      simp only [Except.error.injEq] at refused
      exact .inr ⟨refused.symm, fun zero => absurd zero nonzero⟩

theorem pointsAt_group {scope : Scope} {start : Cursor} {error : ParseError}
    (refused : (group scope start).result = .error error) : PointsAt start error := by
  simp only [group] at refused
  split at refused
  · rename_i opened
    split at refused
    · simp at refused
    · simp only [Except.error.injEq] at refused
      subst refused
      exact .token start.current_mem_tokens (Token.described_of_spells_parenthesis opened).symm rfl
  · simp only [refuse, Except.error.injEq] at refused
    subst refused
    exact pointsAt_refuse _ start

/-- Whatever a grammar refuses, its refusal points at something from the cursor on. -/
theorem Composed.pointsAt {alike : Settings → Settings → Prop} {grammar : Grammar α}
    (composed : Composed alike grammar) {scope : Scope} {start : Cursor} {error : ParseError}
    (refused : (grammar scope start).result = .error error) : PointsAt start error := by
  induction composed generalizing scope start error with
  | pure value => simp [Pure.pure, Grammar.pure] at refused
  | @bind _ _ first second here there ihHere ihThere =>
      simp only [Bind.bind, Grammar.bind] at refused
      split at refused
      · rename_i found cursor reaches outcome
        obtain rfl : found = error := by simpa using refused
        exact ihHere (show (first scope start).result = .error found by rw [outcome])
      · rename_i value cursor reaches outcome
        have after : (second value scope cursor).result = .error error := refused
        exact (ihThere value after).since reaches
  | look unseen => simp [Grammar.look] at refused
  | @configured _ second unseen there ih => exact ih scope.settings refused
  | advance => simp [Grammar.advance] at refused
  | refuse fault =>
      simp only [Grammar.refuse, Except.error.injEq] at refused
      subst refused
      exact pointsAt_refuse fault start
  | withStops words here ih => exact ih refused
  | orRefuse fault here ih =>
      simp only [Grammar.orRefuse] at refused
      split at refused
      · simp at refused
      · rename_i found cursor reaches outcome
        simp only [Outcome.since, Grammar.refuse, Except.error.injEq] at refused
        subst refused
        exact (pointsAt_refuse fault cursor).since reaches
  | @consumed _ grammar here ih =>
      simp only [Grammar.consumed, Outcome.mapResult] at refused
      cases outcome : (grammar scope start).result with
      | error other =>
          obtain rfl : other = error := by simpa [outcome, Except.map] using refused
          exact ih outcome
      | ok value => simp [outcome, Except.map] at refused
  | many here ih => exact pointsAt_many (fun _ _ => ih) refused
  | scan words initial here ih =>
      rcases pointsAt_scanFrom (fun depth gathered _ _ => ih depth gathered) refused with
        points | ⟨same, ahead⟩
      · exact points
      · obtain ⟨opening, passed, opens⟩ := ahead rfl
        exact .unclosed (.refl start) same passed opens
  | group => exact pointsAt_group refused

end Grammar

/-! ## Refusals of texts -/

namespace Lexer

variable {text : String} {tokens : List Token} {token : Token}

/-- Only the last token of a text is an end of input. -/
theorem getLast?_of_isEnd (lexed : Token.tokenize text = .ok tokens) (member : token ∈ tokens)
    (isEnd : token.isEnd = true) : tokens.getLast? = some token := by
  obtain ⟨body, last, rfl, lexes⟩ := lexes_of_tokensFrom lexed
  rcases List.mem_append.mp member with inside | finish
  · have notEnd := lexes.isEnd_eq_false _ (List.mem_map_of_mem inside)
    simp [isEnd] at notEnd
  · rw [List.mem_singleton.mp finish, List.getLast?_concat]

theorem text_of_leftParen (lexed : Token.tokenize text = .ok tokens) (member : token ∈ tokens)
    (opens : token.kind = .leftParen) : token.text = "(" := by
  obtain ⟨body, last, rfl, lexes⟩ := lexes_of_tokensFrom lexed
  rcases List.mem_append.mp member with inside | finish
  · exact (lexes.forall_mem Step.proper token.placeless (List.mem_map_of_mem inside)).opening opens
  · rw [List.mem_singleton.mp finish] at opens
    cases opens

/-- The tokens of a text are those from its first one on. -/
theorem tokens_ofTokens (lexed : Token.tokenize text = .ok tokens) :
    (Cursor.ofTokens tokens).tokens = tokens := by
  obtain ⟨body, last, rfl, -⟩ := lexes_of_tokensFrom lexed
  rw [Cursor.ofTokens_append_finish, Cursor.tokens]

end Lexer

namespace Grammar

variable {α : Type} {grammar : Grammar α} {settings : Settings} {text : String}
  {tokens : List Token} {error : ParseError}

theorem Composed.pointsAt_of_parse {alike : Settings → Settings → Prop}
    (composed : Composed alike grammar) (lexed : Token.tokenize text = .ok tokens)
    (refused : grammar.parse settings text = .error error) :
    PointsAt (Cursor.ofTokens tokens) error := by
  have result : (grammar.run settings tokens).result = .error error := by
    rw [parse, lexed] at refused
    exact refused
  exact composed.pointsAt result

end Grammar

namespace Statement

/-- A text that has tokens is refused with a line, and with a token that stands on that line or is
the end of input there. Only where a parenthesis is open at the end of a scan, the line may be that
of an earlier token, at which the scan began. -/
theorem refusal_names_token {settings : Settings} {text : String} {tokens : List Token}
    {error : ParseError} (lexed : Token.tokenize text = .ok tokens)
    (refused : parse settings text = .error error ∨ parseScript settings text = .error error) :
    ∃ line, error.line = some line ∧
      ((∃ token ∈ tokens, token.isEnd = false ∧ token.location.line = line ∧
          token.text = error.token) ∨
        (error.token = "end of input" ∧ ∃ last, tokens.getLast? = some last ∧
          last.isEnd = true ∧ last.location.line = line) ∨
        (error.fault = .unclosedParenthesis ∧ error.token = "(" ∧
          ∃ before scanned after, tokens = before ++ scanned :: after ∧
            scanned.location.line = line ∧
            ∃ opening ∈ scanned :: after, opening.kind = .leftParen ∧ opening.text = "(")) := by
  have points : Grammar.PointsAt (Cursor.ofTokens tokens) error := by
    rcases refused with alone | script
    · exact composed_alone.pointsAt_of_parse lexed alone
    · exact composed_script.pointsAt_of_parse lexed script
  cases points with
  | @token token ahead named line =>
      rw [Lexer.tokens_ofTokens lexed] at ahead
      refine ⟨token.location.line, line, ?_⟩
      cases isEnd : token.isEnd with
      | false => exact .inl ⟨token, ahead, isEnd, rfl, by simp [named, Token.described, isEnd]⟩
      | true =>
          exact .inr (.inl ⟨by simp [named, Token.described, isEnd], token,
            Lexer.getLast?_of_isEnd lexed ahead isEnd, isEnd, rfl⟩)
  | @unclosed scanned reaches fault opening passed opens =>
      obtain ⟨before, split⟩ := reaches.tokens_suffix
      obtain ⟨after, here⟩ := List.head?_eq_some_iff.mp scanned.head?_tokens
      rw [Lexer.tokens_ofTokens lexed] at split
      have text := Lexer.text_of_leftParen lexed (split ▸ List.mem_append_right before passed) opens
      rw [here] at split passed
      subst fault
      exact ⟨_, rfl, .inr (.inr ⟨rfl, rfl, before, scanned.current, after, split.symm, rfl, opening,
        passed, opens, text⟩)⟩

/-- A parenthesis on the fourth line is named with the third one, where the column's attributes
begin and no parenthesis stands. -/
theorem refusal_names_token_before :
    let text := "CREATE TABLE t\n(\na INT CHECK\n(x"
    ∃ tokens error, Token.tokenize text = .ok tokens ∧ parse .standard text = .error error ∧
      error.line = some 3 ∧ error.token = "(" ∧
      (∀ token ∈ tokens, token.location.line = 3 → token.text ≠ "(") ∧
      ∃ before scanned after, tokens = before ++ scanned :: after ∧ scanned.location.line = 3 ∧
        ∃ opening ∈ scanned :: after, opening.kind = .leftParen ∧ opening.text = "(" := by
  intro text
  let tokens : List Token := [⟨.word, "CREATE", ⟨1, 1⟩⟩, ⟨.word, "TABLE", ⟨1, 8⟩⟩,
    ⟨.word, "t", ⟨1, 14⟩⟩, ⟨.leftParen, "(", ⟨2, 1⟩⟩, ⟨.word, "a", ⟨3, 1⟩⟩, ⟨.word, "INT", ⟨3, 3⟩⟩,
    ⟨.word, "CHECK", ⟨3, 7⟩⟩, ⟨.leftParen, "(", ⟨4, 1⟩⟩, ⟨.word, "x", ⟨4, 2⟩⟩,
    Token.finish ⟨4, 3⟩]
  let error : ParseError := ⟨.unclosedParenthesis, "(", some 3⟩
  have lexed : Token.tokenize text = .ok tokens := eq_ok_of_toOption (by decide +kernel)
  have refused : parse .standard text = .error error := eq_error_of_refusal (by decide +kernel)
  have none : ∀ token ∈ tokens, token.location.line = 3 → token.text ≠ "(" := by decide
  refine ⟨tokens, error, lexed, refused, rfl, rfl, none, ?_⟩
  obtain ⟨line, same, named⟩ := refusal_names_token lexed (.inl refused)
  obtain rfl : 3 = line := Option.some.inj same
  rcases named with ⟨token, member, -, there, text⟩ | ⟨text, -⟩ | ⟨-, -, earlier⟩
  · exact absurd text (none token member there)
  · exact absurd text (by decide)
  · exact earlier

end Statement

end TableDdl
