import TableDdl.Proofs.Grammar.Parse
import TableDdl.Proofs.Lexer.Locations

/-!
# The tokens of a text are well-formed

The grammars take some things about tokens for granted: that a text ends once, that a name stands
between two backticks, that the text of a number is one. They hold of every text that can be lexed,
together with the rule for signs and the order of places. One lemma says what a single lexeme gives;
the rest follows by going through the lexemes of a text.
-/

namespace TableDdl

/-! ## The order of places -/

namespace Location

/-- The first place comes before the second one. -/
def Before (earlier later : Location) : Prop :=
  earlier.line < later.line ∨ earlier.line = later.line ∧ earlier.column < later.column

theorem Before.trans {first second third : Location} (before : first.Before second)
    (after : second.Before third) : first.Before third := by
  simp only [Before] at *
  omega

theorem before_after (location : Location) (character : Char) :
    location.Before (location.after character) := by
  rw [after]
  split
  · exact .inl (Nat.lt_succ_self _)
  · exact .inr ⟨rfl, Nat.lt_succ_self _⟩

theorem before_past (location : Location) {characters : List Char} (nonempty : characters ≠ []) :
    location.Before (location.past characters) := by
  induction characters generalizing location with
  | nil => exact absurd rfl nonempty
  | cons character characters ih =>
      have first := location.before_after character
      rw [past_cons]
      cases characters with
      | nil => exact first
      | cons next characters => exact first.trans (ih _ (List.cons_ne_nil _ _))

end Location

/-! ## What holds of tokens -/

namespace Token

open Text (IsSign IsDigits IsFraction IsExponent IsWord)

/-- How numbers and words are written. Digits that stand before a word without a gap are part of
it, and so is their sign. -/
inductive Kind.Writes : Kind → List Char → Prop where
  /-- An integer. -/
  | integer {sign digits : List Char} (signed : IsSign sign) (whole : IsDigits digits) :
      Writes .integer (sign ++ digits)
  /-- A number with a fraction, an exponent or both. -/
  | float {sign digits fraction exponent : List Char} (signed : IsSign sign)
      (whole : IsDigits digits) (point : fraction = [] ∨ IsFraction fraction)
      (power : exponent = [] ∨ IsExponent exponent) (some : fraction ≠ [] ∨ exponent ≠ []) :
      Writes .float (sign ++ (digits ++ fraction ++ exponent))
  /-- A word. -/
  | word {word : List Char} (isWord : IsWord word) : Writes .word word
  /-- A word that starts with digits. -/
  | numbered {sign digits word : List Char} (signed : IsSign sign) (whole : IsDigits digits)
      (isWord : IsWord word) : Writes .word (sign ++ (digits ++ word))

/-- Every backtick belongs to a pair of two that stand side by side or around one name, and a name
stands nowhere else. -/
inductive Kind.InPairs : List Kind → Prop where
  /-- No token. -/
  | nil : InPairs []
  /-- A token that is no backtick and no name. -/
  | other {kind : Kind} {others : List Kind} (notBacktick : kind ≠ .backtick)
      (notName : kind ≠ .identifier) (after : InPairs others) : InPairs (kind :: others)
  /-- A pair without a name. -/
  | empty {others : List Kind} (after : InPairs others) : InPairs (.backtick :: .backtick :: others)
  /-- A pair around a name. -/
  | named {others : List Kind} (after : InPairs others) :
      InPairs (.backtick :: .identifier :: .backtick :: others)

theorem Kind.InPairs.append {kinds more : List Kind} (before : InPairs kinds)
    (after : InPairs more) : InPairs (kinds ++ more) := by
  induction before with
  | nil => exact after
  | other notBacktick notName _ ih => exact .other notBacktick notName ih
  | empty _ ih => exact .empty ih
  | named _ ih => exact .named ih

/-- The kinds of numbers and words. -/
def runKinds : List Kind := [.integer, .float, .word]

/-- The token is a number or a word that starts with a minus sign. -/
def isSigned (token : Token) : Bool :=
  token.kind ∈ runKinds && token.text.toList.head? = some '-'

/-- After the token a number may have a sign: it is no operand, though it may be one of the two
words after which a literal stands. -/
def AllowsSign (token : Token) : Prop :=
  token.kind ∉ [.integer, .float, .binaryLiteral, .quotedString, .rightParen, .backtick] ∧
    (token.kind = .word → token.isKeyword "DEFAULT" = true ∨ token.isKeyword "THAN" = true)

theorem allowsSign_of_endsOperand {token : Token} (noOperand : Lexer.endsOperand token = false) :
    token.AllowsSign := by
  have keyword (text : String) (other : token.kind ≠ .word) : token.isKeyword text = false := by
    simp [isKeyword, other]
  by_cases isWord : token.kind = .word
  · refine ⟨by simp [isWord], fun _ => ?_⟩
    simpa [Lexer.endsOperand, isWord, Classical.or_iff_not_imp_left] using noOperand
  · refine ⟨?_, fun same => absurd same isWord⟩
    simpa [Lexer.endsOperand, keyword _ isWord, isWord] using noOperand

/-- The second token has a sign only if the first one allows it. -/
def Follows (previous token : Token) : Prop := token.isSigned = true → previous.AllowsSign

/-- What holds of the tokens of every text. -/
structure WellFormed (tokens : List Token) : Prop where
  /-- There is one end of input, and it is the last token. -/
  ended : ∃ body last, tokens = body ++ [finish last] ∧ ∀ token ∈ body, token.isEnd = false
  /-- Backticks come in pairs, with at most one name between them, and names only there. -/
  inPairs : Kind.InPairs (tokens.map kind)
  /-- No name is empty. -/
  named : ∀ token ∈ tokens, token.kind = .identifier → token.text ≠ ""
  /-- Numbers and words are written as such. -/
  written : ∀ token ∈ tokens, token.kind ∈ runKinds → token.kind.Writes token.text.toList
  /-- No number and no word with a minus sign directly follows an operand. -/
  signed : tokens.IsChain Follows
  /-- Every token stands after all tokens before it. -/
  ordered : (tokens.map location).Pairwise Location.Before

end Token

/-! ## Numbers and words -/

namespace Scan

open Text (IsSign IsDigits IsFraction IsExponent IsWord)

variable {characters text : List Char}

theorem isDigits_digits (starts : characters.head?.any Char.isDigit = true) :
    IsDigits (digits characters) := by
  refine ⟨?_, all_digits characters⟩
  cases characters with
  | nil => simp at starts
  | cons first others =>
      have isDigit : first.isDigit = true := by simpa using starts
      simp [digits, isDigit]

theorem isWord_word {first : Char} {others : List Char}
    (starts : Text.startsWord first = true) : IsWord (first :: word others) :=
  ⟨first, _, starts, List.all_eq_true.mp List.all_takeWhile, rfl⟩

/-- What is read from a digit on is a number, or a word that starts with digits. -/
theorem writes_number {kind : Token.Kind} {sign : List Char}
    (starts : characters.head?.any Char.isDigit = true) (signed : IsSign sign)
    (scanned : number characters = (kind, text)) : kind.Writes (sign ++ text) := by
  have whole := isDigits_digits starts
  have form := number_form characters
  rw [scanned] at form
  cases form with
  | integer => exact .integer signed whole
  | @word next rest after startsNext noExponent =>
      have word : Scan.word (next :: rest) = next :: Scan.word rest := by
        simp [Scan.word, continuesWord_of_startsWord startsNext]
      rw [word]
      exact .numbered signed whole (isWord_word startsNext)
  | @float fractional others some =>
      exact .float signed whole (fraction_cases fractional) (exponent_cases others) some

end Scan

/-! ## Lexemes -/

namespace Lexer

open Token (Kind runKinds)

variable {operand : Bool} {characters left : List Char} {tokens : List Token}

/-- What one lexeme gives, if an operand may have ended before it or not: no token, a name between
its backticks, or one other token. -/
inductive Gives (operand : Bool) : List Token → Prop where
  /-- A blank or a comment. -/
  | nothing : Gives operand []
  /-- A name. -/
  | name (text : List Char) : Gives operand (nameTokens text)
  /-- Any other token. -/
  | one {token : Token} (notBacktick : token.kind ≠ .backtick)
      (notName : token.kind ≠ .identifier)
      (written : token.kind ∈ runKinds → token.kind.Writes token.text.toList)
      (signed : token.isSigned = true → operand = false) : Gives operand [token]

/-- A token that is no number and no word. -/
theorem gives_of_kind {kind : Kind} (text : String)
    (other : kind ∉ .backtick :: .identifier :: runKinds) :
    Gives operand [.bare kind text] := by
  obtain ⟨notBacktick, notName, noRun⟩ : kind ≠ .backtick ∧ kind ≠ .identifier ∧
      kind ∉ runKinds := by
    simpa using other
  exact .one notBacktick notName (fun run => absurd run noRun) fun sign => by
    simp [Token.isSigned, noRun] at sign

theorem gives_of_writes {kind : Kind} {text : List Char} (writes : kind.Writes text)
    (signed : text.head? = some '-' → operand = false) :
    Gives operand [.bare kind (String.ofList text)] := by
  have run : kind ≠ .backtick ∧ kind ≠ .identifier := by cases writes <;> decide
  refine .one run.1 run.2 (fun _ => by simpa using writes) fun sign => signed ?_
  simpa [Token.isSigned] using (Bool.and_eq_true_iff.mp sign).2

theorem Step.gives (step : Step operand characters tokens left) : Gives operand tokens := by
  have noSign {first : Char} {others : List Char} (other : first ≠ '-') :
      (first :: others).head? = some '-' → operand = false :=
    fun sign => absurd (Option.some.inj sign) other
  cases step with
  | blank | line | comment => exact .nothing
  | string mark closes => exact gives_of_kind _ (by decide)
  | @name rest text left closes => exact .name text
  | @number character rest text kind digit scanned =>
      have writes : kind.Writes ([] ++ text) :=
        Scan.writes_number (by simpa using digit) (.inl rfl) scanned
      obtain ⟨others, rfl⟩ := number_starts digit scanned
      refine gives_of_writes writes (noSign ?_)
      rintro rfl
      exact absurd digit (by decide)
  | signed noOperand digit scanned =>
      exact gives_of_writes (Scan.writes_number digit (.inr rfl) scanned) fun _ => noOperand
  | @mark character rest kind known noLine noComment noSign =>
      have all : ∀ character ∈ marks, ∀ kind ∈ punctuation? character,
          kind ∉ Kind.backtick :: .identifier :: runKinds := by
        exact Text.forall_mem_of_all (by decide)
      exact gives_of_kind _ (all character (mem_marks_of_punctuation? known) kind known)
  | binary letter closes => exact gives_of_kind _ (by decide)
  | @word character rest notBlank starts noBinary =>
      refine gives_of_writes (.word (Scan.isWord_word starts)) (noSign ?_)
      rintro rfl
      exact absurd starts (by decide)

namespace Gives

theorem inPairs (gives : Gives operand tokens) : Kind.InPairs (tokens.map Token.kind) := by
  cases gives with
  | nothing => exact .nil
  | name text =>
      by_cases empty : text = []
      · simpa [nameTokens, empty, backtickToken] using Kind.InPairs.empty .nil
      · simpa [nameTokens, empty, backtickToken] using Kind.InPairs.named .nil
  | one notBacktick notName => exact .other notBacktick notName .nil

theorem named (gives : Gives operand tokens) :
    ∀ token ∈ tokens, token.kind = .identifier → token.text ≠ "" := by
  cases gives with
  | nothing => exact nofun
  | name text => by_cases empty : text = [] <;> simp [nameTokens, empty, backtickToken]
  | one _ notName => simpa using fun isName => absurd isName notName

theorem written (gives : Gives operand tokens) :
    ∀ token ∈ tokens, token.kind ∈ runKinds → token.kind.Writes token.text.toList := by
  cases gives with
  | nothing => exact nofun
  | name text => by_cases empty : text = [] <;> simp [nameTokens, empty, backtickToken, runKinds]
  | one _ _ written => simpa using written

/-- Only a token by itself has a sign, and only where no operand may have ended. -/
theorem signed (gives : Gives operand tokens) :
    tokens.IsChain Token.Follows ∧
      ∀ first ∈ tokens.head?, first.isSigned = true → operand = false := by
  cases gives with
  | nothing => exact ⟨.nil, nofun⟩
  | name text =>
      by_cases empty : text = [] <;>
        simp [nameTokens, empty, backtickToken, Token.Follows, Token.isSigned, runKinds]
  | one _ _ _ signed => exact ⟨.singleton _, by simpa using signed⟩

end Gives

/-! ## Texts -/

namespace Lexes

theorem inPairs (lexes : Lexes operand characters tokens left) :
    Kind.InPairs (tokens.map Token.kind) := by
  induction lexes with
  | done => exact .nil
  | step first others ih =>
      rw [List.map_append]
      exact first.gives.inPairs.append ih

/-- The first token with a sign stands where no operand may have ended, and every other one after a
token that allows it. -/
theorem signed (lexes : Lexes operand characters tokens left) :
    tokens.IsChain Token.Follows ∧
      ∀ first ∈ tokens.head?, first.isSigned = true → operand = false := by
  induction lexes with
  | done => exact ⟨.nil, nofun⟩
  | @step operand characters middle left tokens more first others ih =>
      obtain ⟨chain, starts⟩ := first.gives.signed
      obtain ⟨chainMore, startsMore⟩ := ih
      cases ended : tokens.getLast? with
      | none =>
          obtain rfl := List.getLast?_eq_none_iff.mp ended
          exact ⟨chainMore, startsMore⟩
      | some last =>
          have junction : ∀ next ∈ more.head?, last.Follows next := by
            intro next member sign
            have noOperand := startsMore next member sign
            rw [operandAfter, ended] at noOperand
            exact Token.allowsSign_of_endsOperand noOperand
          refine ⟨List.isChain_append.mpr ⟨chain, chainMore, ?_⟩, ?_⟩
          · rw [ended]
            rintro _ ⟨⟩
            exact junction
          · rw [List.head?_append_of_ne_nil _ (by rintro rfl; simp at ended)]
            exact starts

end Lexes

/-! ## Places -/

/-- Every lexeme has at least one character. -/
theorem Step.length_lt (step : Step operand characters tokens left) :
    left.length < characters.length := by
  obtain ⟨first, rest, rfl⟩ := step.exists_cons
  obtain ⟨previous, same⟩ := exists_previous operand
  obtain ⟨read, -, -, rfl⟩ := lexeme_of_step step same .start
  exact read.shorter

/-- Between the backticks of a name that is not empty there are characters. -/
theorem Closes.ne_nil {mark : Char} {escapes : Bool} {inner left text : List Char}
    (closes : Closes mark escapes (inner ++ mark :: left) text left) (nonempty : text ≠ []) :
    inner ≠ [] := by
  rintro rfl
  have short {rest : List Char} {character : Char} (after : character :: rest <:+ rest) :
      False := by
    simpa using after.length_le
  cases closes with
  | close => exact nonempty rfl
  | doubled after => exact short after.suffix
  | escape _ after => exact short after.suffix
  | plain other => exact other rfl

/-- All tokens stand after the characters that are counted, and every token after all before it. -/
structure Ordered (counted : List Char) (origins : List Origin) : Prop where
  later : ∀ origin ∈ origins, counted <+: origin.counted
  pairwise : (origins.map fun origin => Location.following origin.counted).Pairwise Location.Before

theorem before_following {counted piece longer : List Char} (nonempty : piece ≠ [])
    (later : counted ++ piece <+: longer) :
    (Location.following counted).Before (.following longer) := by
  obtain ⟨rest, rfl⟩ := later
  rw [List.append_assoc, ← Location.past_following]
  exact Location.before_past _ (List.append_ne_nil_of_left_ne_nil nonempty rest)

theorem Ordered.cons {counted piece before : List Char} {origins : List Origin} {token : Token}
    (nonempty : piece ≠ []) (after : Ordered (counted ++ piece) origins) :
    Ordered counted (⟨token, before, counted⟩ :: origins) where
  later := List.forall_mem_cons.mpr ⟨List.prefix_rfl, fun origin member =>
    (List.prefix_append counted piece).trans (after.later origin member)⟩
  pairwise := by
    refine List.pairwise_cons.mpr ⟨?_, after.pairwise⟩
    rintro _ place
    obtain ⟨origin, member, rfl⟩ := List.mem_map.mp place
    exact before_following nonempty (after.later origin member)

theorem Origins.ordered {before counted : List Char} {origins : List Origin}
    (found : Origins operand before counted characters origins) : Ordered counted origins := by
  induction found with
  | done => exact ⟨by simp, by simp⟩
  | @gap operand before counted piece rest origins first others ih =>
      exact ⟨fun origin member =>
        (List.prefix_append counted piece).trans (ih.later origin member), ih.pairwise⟩
  | @token operand before counted piece rest token origins first others ih =>
      refine ih.cons ?_
      have longer := first.length_lt
      rw [List.length_append] at longer
      have same := (Text.flattens_flattened piece).length_eq
      exact List.ne_nil_of_length_pos (by omega)
  | @name operand before counted inner rest text origins closes others ih =>
      have mark : [Text.backtick] ≠ [] := List.cons_ne_nil _ _
      have closing : Ordered (counted ++ Text.backtick :: inner)
          (⟨backtickToken, before ++ Text.backtick :: inner, counted ++ Text.backtick :: inner⟩ ::
            origins) := by
        refine Ordered.cons mark ?_
        rwa [List.append_assoc]
      by_cases empty : text = []
      · rw [if_pos empty]
        exact closing.cons (List.cons_ne_nil _ _)
      · rw [if_neg empty]
        refine Ordered.cons mark ?_
        refine Ordered.cons (closes.ne_nil empty) ?_
        rwa [List.append_assoc]

theorem map_location_of_located {origins : List Origin}
    (located : List.Forall₂ Located tokens origins) :
    tokens.map Token.location = origins.map fun origin => .following origin.counted := by
  induction located with
  | nil => rfl
  | cons first others ih => rw [List.map_cons, List.map_cons, first.place, ih]

end Lexer

/-- The numbers and words of every text are written as such. -/
theorem Token.writes_of_tokenize {text : String} {tokens : List Token} {token : Token}
    (read : tokenize text = .ok tokens) (member : token ∈ tokens) (run : token.kind ∈ runKinds) :
    token.kind.Writes token.text.toList := by
  obtain ⟨body, last, rfl, lexes⟩ := Lexer.lexes_of_tokensFrom read
  rcases List.mem_append.mp member with inside | isLast
  · exact lexes.forall_mem (fun step => step.gives.written) token.placeless
      (List.mem_map_of_mem inside) run
  · rw [List.mem_singleton.mp isLast] at run
    simp [finish, runKinds] at run

/-- The tokens of every text are well-formed. -/
theorem Token.wellFormed_of_tokenize {text : String} {tokens : List Token}
    (read : tokenize text = .ok tokens) : WellFormed tokens := by
  obtain ⟨origins, found, located⟩ := Lexer.origins_of_tokensFrom rfl .nil read
  obtain ⟨body, last, rfl, lexes⟩ := Lexer.lexes_of_tokensFrom read
  have inside {token : Token} (member : token ∈ body) : token.placeless ∈ body.map placeless :=
    List.mem_map_of_mem member
  have kinds : (body.map placeless).map kind = body.map kind := by simp
  have inPairs := lexes.inPairs
  have named := lexes.forall_mem fun step => step.gives.named
  have chain : body.IsChain Follows := (List.isChain_map placeless).mp lexes.signed.1
  refine ⟨⟨body, last, rfl, ?_⟩, ?_, ?_, ?_, ?_, ?_⟩
  · exact fun token member => lexes.isEnd_eq_false token.placeless (inside member)
  · rw [List.map_append, ← kinds]
    exact inPairs.append (.other nofun nofun .nil)
  · refine List.forall_mem_append.mpr ⟨fun token member => ?_, ?_⟩
    · exact named token.placeless (inside member)
    · exact List.forall_mem_singleton.mpr nofun
  · exact fun token member run => writes_of_tokenize read member run
  · refine List.isChain_append.mpr ⟨chain, .singleton _, ?_⟩
    rintro previous - _ ⟨⟩ sign
    cases sign
  · rw [Lexer.map_location_of_located located]
    exact found.ordered.pairwise

/-- A name with a backtick and a line break, an empty name, signs after a keyword, a parenthesis and
operands, and all forms of numbers. -/
theorem Token.wellFormed_of_tokenize_signs :
    let tokens : List Token :=
      [⟨.backtick, "`", ⟨1, 1⟩⟩, ⟨.identifier, "a`\n", ⟨1, 2⟩⟩, ⟨.backtick, "`", ⟨2, 1⟩⟩,
        ⟨.backtick, "`", ⟨2, 3⟩⟩, ⟨.backtick, "`", ⟨2, 4⟩⟩, ⟨.word, "Default", ⟨2, 6⟩⟩,
        ⟨.float, "-1.", ⟨2, 14⟩⟩, ⟨.leftParen, "(", ⟨2, 17⟩⟩, ⟨.word, "-2x", ⟨2, 18⟩⟩,
        ⟨.symbol, "-", ⟨2, 22⟩⟩, ⟨.float, "3e+4", ⟨2, 23⟩⟩, ⟨.quotedString, "\n", ⟨2, 35⟩⟩,
        ⟨.symbol, "-", ⟨2, 39⟩⟩, ⟨.integer, "6", ⟨2, 40⟩⟩, finish ⟨2, 41⟩]
    tokenize "`a``\n` `` Default -1.(-2x -3e+4/* -5 */'\\\n'-6" = .ok tokens ∧
      WellFormed tokens := by
  intro tokens
  have read : tokenize "`a``\n` `` Default -1.(-2x -3e+4/* -5 */'\\\n'-6" = .ok tokens := by
    decide +kernel
  exact ⟨read, wellFormed_of_tokenize read⟩

end TableDdl
