import TableDdl.Proofs.Lexer.Tidy

/-!
# Where tokens start

The place of a token follows from the characters before it: its line counts their line breaks, and
its column the characters after the last of them. There is one exception. A line break that a
backslash escapes inside a string is passed like any other character of its line, so that all later
places are those of a text with a blank instead of it. A place is the right one exactly if no such
line break stands before it.
-/

namespace TableDdl

/-! ## Places and characters -/

namespace Location

/-- The place after some characters. -/
def past (location : Location) (characters : List Char) : Location :=
  characters.foldl after location

/-- The place that follows the given characters at the start of a text. Its line is one more than
the number of their line breaks, and its column one more than the number of characters after the
last of them. -/
def following (before : List Char) : Location :=
  ⟨before.count '\n' + 1, (before.reverse.takeWhile (· ≠ '\n')).length + 1⟩

@[simp] theorem past_nil (location : Location) : location.past [] = location := rfl

@[simp] theorem past_cons (location : Location) (character : Char) (characters : List Char) :
    location.past (character :: characters) = (location.after character).past characters := rfl

@[simp] theorem past_append (location : Location) (first second : List Char) :
    location.past (first ++ second) = (location.past first).past second :=
  List.foldl_append

@[simp] theorem right_right (location : Location) (first second : Nat) :
    (location.right first).right second = location.right (first + second) := by
  simp only [right, Nat.add_assoc]

theorem after_of_ne {character : Char} (noBreak : character ≠ '\n') (location : Location) :
    location.after character = location.right 1 :=
  if_neg noBreak

theorem past_of_noBreak {characters : List Char} (noBreak : '\n' ∉ characters)
    (location : Location) : location.past characters = location.right characters.length := by
  induction characters generalizing location with
  | nil => rfl
  | cons character characters ih =>
      obtain ⟨here, there⟩ := List.ne_and_not_mem_of_not_mem_cons noBreak
      rw [past_cons, after_of_ne here.symm, ih there, right_right, List.length_cons, Nat.add_comm]

theorem past_start (before : List Char) : start.past before = following before := by
  induction before using List.reverseRecOn with
  | nil => rfl
  | append_singleton before character ih =>
      rw [past_append, ih, past_cons, past_nil, after]
      by_cases isBreak : character = '\n'
      · simp [following, isBreak]
      · simp [following, isBreak, right]

theorem past_following (before characters : List Char) :
    (following before).past characters = following (before ++ characters) := by
  rw [← past_start, ← past_start, past_append]

end Location

/-! ## Escaped line breaks -/

namespace Text

/-- The characters inside a string, with a blank instead of each line break that is escaped. -/
def flattened : List Char → List Char
  | [] => []
  | [character] => [character]
  | character :: next :: rest =>
      if character = backslash then
        character :: (if next = '\n' then ' ' else next) :: flattened rest
      else character :: flattened (next :: rest)

theorem flattened_cons {character : Char} (notEscape : character ≠ backslash) (rest : List Char) :
    flattened (character :: rest) = character :: flattened rest := by
  cases rest with
  | nil => rfl
  | cons next rest => rw [flattened, if_neg notEscape]

theorem flattened_append {opening : List Char} (noEscape : backslash ∉ opening) (rest : List Char) :
    flattened (opening ++ rest) = opening ++ flattened rest := by
  induction opening with
  | nil => rfl
  | cons character opening ih =>
      obtain ⟨here, there⟩ := List.ne_and_not_mem_of_not_mem_cons noEscape
      rw [List.cons_append, flattened_cons here.symm, ih there, List.cons_append]

/-- The first text is the second one with blanks instead of some line breaks. -/
def Flattens : List Char → List Char → Prop :=
  List.Forall₂ fun shown written => shown = written ∨ shown = ' ' ∧ written = '\n'

theorem flattens_refl (characters : List Char) : Flattens characters characters :=
  List.forall₂_same.mpr fun _ _ => .inl rfl

theorem flattens_flattened (characters : List Char) :
    Flattens (flattened characters) characters := by
  fun_induction flattened characters with
  | case1 => exact .nil
  | case2 character => exact flattens_refl [character]
  | case3 next rest ih =>
      refine .cons (.inl rfl) (.cons ?_ ih)
      by_cases isBreak : next = '\n'
      · exact .inr ⟨if_pos isBreak, isBreak⟩
      · exact .inl (if_neg isBreak)
  | case4 character next rest notEscape ih => exact .cons (.inl rfl) ih

theorem flattened_eq_self {characters : List Char}
    (noEscape : ¬ [backslash, '\n'] <:+: characters) : flattened characters = characters := by
  fun_induction flattened characters with
  | case1 => rfl
  | case2 character => rfl
  | case3 next rest ih =>
      have notBreak : next ≠ '\n' := by
        rintro rfl
        exact noEscape (List.prefix_append [backslash, '\n'] rest).isInfix
      have others : ¬ [backslash, '\n'] <:+: rest := fun inside =>
        noEscape (inside.trans (List.suffix_append [backslash, next] rest).isInfix)
      rw [if_neg notBreak, ih others]
  | case4 character next rest notEscape ih =>
      rw [ih fun inside => noEscape (inside.trans (List.suffix_cons _ _).isInfix)]

theorem flattened_of_noBreak {characters : List Char} (noBreak : '\n' ∉ characters) :
    flattened characters = characters :=
  flattened_eq_self fun inside => noBreak (inside.subset (by simp))

namespace Flattens

variable {shown written moreShown moreWritten : List Char}

theorem append (flattens : Flattens shown written) (more : Flattens moreShown moreWritten) :
    Flattens (shown ++ moreShown) (written ++ moreWritten) :=
  List.rel_append flattens more

theorem count_le (flattens : Flattens shown written) : shown.count '\n' ≤ written.count '\n' := by
  induction flattens with
  | nil => exact Nat.le_refl _
  | @cons first second shown written same others ih =>
      rcases same with rfl | ⟨rfl, rfl⟩
      · rw [List.count_cons, List.count_cons]
        omega
      · rw [List.count_cons_of_ne (by decide), List.count_cons_self]
        omega

/-- Every blank in the place of a line break takes one from the number of line breaks. -/
theorem eq_of_count_eq (flattens : Flattens shown written)
    (same : shown.count '\n' = written.count '\n') : shown = written := by
  induction flattens with
  | nil => rfl
  | @cons first second shown written flat others ih =>
      rcases flat with rfl | ⟨rfl, rfl⟩
      · rw [List.count_cons, List.count_cons] at same
        rw [ih (by omega)]
      · have fewer := count_le others
        rw [List.count_cons_of_ne (by decide), List.count_cons_self] at same
        omega

theorem following_eq_iff (flattens : Flattens shown written) :
    Location.following shown = Location.following written ↔ shown = written := by
  constructor
  · intro same
    have lines : shown.count '\n' + 1 = written.count '\n' + 1 := congrArg Location.line same
    exact flattens.eq_of_count_eq (by omega)
  · rintro rfl
    rfl

end Flattens

end Text

/-! ## Scanned texts -/

namespace Scan

open Lexer (push_eq_closed_iff)

variable {location closing : Location} {characters text left : List Char}

/-- A quoted string ends where its characters lead, except for its escaped line breaks. -/
theorem past_string {quote : Char} (noBreak : quote ≠ '\n') (notEscape : quote ≠ Text.backslash)
    (scanned : string quote location characters = .closed text closing left) :
    ∃ inner, characters = inner ++ quote :: left ∧
      closing.right 1 = location.past (Text.flattened (inner ++ [quote])) := by
  have closed (place : Location) : place.right 1 = place.past (Text.flattened ([] ++ [quote])) :=
    (Location.after_of_ne noBreak place).symm
  fun_induction string quote location characters generalizing text with
  | case1 => simp at scanned
  | case2 => simp at scanned
  | case3 location other =>
      obtain ⟨-, rfl, rfl⟩ : [] = text ∧ location = closing ∧ [] = left := by simpa using scanned
      exact ⟨[], rfl, closed location⟩
  | case4 => simp at scanned
  | case5 location next rest ih =>
      obtain ⟨_, rfl, scannedRest⟩ := push_eq_closed_iff.mp scanned
      obtain ⟨inner, rfl, place⟩ := ih scannedRest
      refine ⟨Text.backslash :: next :: inner, rfl, ?_⟩
      have flat : (if next = '\n' then ' ' else next) ≠ '\n' := by
        split
        · decide
        · assumption
      rw [place, List.cons_append, List.cons_append, Text.flattened, if_pos rfl, Location.past_cons,
        Location.past_cons, Location.after_of_ne flat, Location.after_of_ne (by decide),
        Location.right_right]
  | case6 location rest other ih =>
      obtain ⟨_, rfl, scannedRest⟩ := push_eq_closed_iff.mp scanned
      obtain ⟨inner, rfl, place⟩ := ih scannedRest
      refine ⟨quote :: quote :: inner, rfl, ?_⟩
      rw [place, List.cons_append, List.cons_append, Text.flattened_cons notEscape,
        Text.flattened_cons notEscape, Location.past_cons, Location.past_cons,
        Location.after_of_ne noBreak, Location.after_of_ne noBreak, Location.right_right]
  | case7 location next rest single other =>
      obtain ⟨-, rfl, rfl⟩ : [] = text ∧ location = closing ∧ next :: rest = left := by
        simpa using scanned
      exact ⟨[], rfl, closed location⟩
  | case8 location character next rest plain other ih =>
      obtain ⟨_, rfl, scannedRest⟩ := push_eq_closed_iff.mp scanned
      obtain ⟨inner, same, place⟩ := ih scannedRest
      refine ⟨character :: inner, by rw [same, List.cons_append], ?_⟩
      rw [place, List.cons_append, Text.flattened_cons plain, Location.past_cons]

/-- The closing backtick of a name stands where the characters before it lead. -/
theorem past_name (scanned : name location characters = .closed text closing left) :
    ∃ inner, characters = inner ++ Text.backtick :: left ∧ closing = location.past inner := by
  fun_induction name location characters generalizing text with
  | case1 => simp at scanned
  | case2 location =>
      obtain ⟨-, rfl, rfl⟩ : [] = text ∧ location = closing ∧ [] = left := by simpa using scanned
      exact ⟨[], rfl, rfl⟩
  | case3 => simp at scanned
  | case4 location rest ih =>
      obtain ⟨_, rfl, scannedRest⟩ := push_eq_closed_iff.mp scanned
      obtain ⟨inner, rfl, rfl⟩ := ih scannedRest
      refine ⟨Text.backtick :: Text.backtick :: inner, rfl, ?_⟩
      rw [Location.past_cons, Location.past_cons, Location.after_of_ne (by decide),
        Location.after_of_ne (by decide), Location.right_right]
  | case5 location next rest single =>
      obtain ⟨-, rfl, rfl⟩ : [] = text ∧ location = closing ∧ next :: rest = left := by
        simpa using scanned
      exact ⟨[], rfl, rfl⟩
  | case6 location character next rest other ih =>
      obtain ⟨_, rfl, scannedRest⟩ := push_eq_closed_iff.mp scanned
      obtain ⟨inner, same, rfl⟩ := ih scannedRest
      exact ⟨character :: inner, by rw [same, List.cons_append], rfl⟩

theorem past_comment {after : Location}
    (found : comment location characters = some (after, left)) :
    ∃ inner, characters = inner ++ left ∧ after = location.past inner := by
  fun_induction comment location characters with
  | case1 => simp at found
  | case2 => simp at found
  | case3 location character next rest ended =>
      obtain ⟨rfl, rfl⟩ : location.right 2 = after ∧ rest = left := by simpa using found
      obtain ⟨rfl, rfl⟩ := ended
      exact ⟨['*', '/'], rfl, rfl⟩
  | case4 location character next rest other ih =>
      obtain ⟨inner, same, rfl⟩ := ih found
      exact ⟨character :: inner, by rw [same, List.cons_append], rfl⟩

theorem noBreak_of_all {holds : Char → Bool} (fails : holds '\n' = false)
    (all : ∀ character ∈ characters, holds character = true) : '\n' ∉ characters := by
  intro member
  rw [all _ member] at fails
  cases fails

theorem noBreak_word (characters : List Char) : '\n' ∉ word characters :=
  noBreak_of_all (by decide) (List.all_eq_true.mp List.all_takeWhile)

theorem noBreak_number (characters : List Char) : '\n' ∉ (number characters).2 := by
  have noDigit {run : List Char} (all : ∀ digit ∈ run, digit.isDigit = true) : '\n' ∉ run :=
    noBreak_of_all (by decide) all
  have whole : '\n' ∉ digits characters := noDigit (all_digits characters)
  cases form : number characters with
  | mk kind text =>
      have numberForm := number_form characters
      rw [form] at numberForm
      cases numberForm with
      | integer => exact whole
      | @word next rest after starts noExponent =>
          simpa [whole] using noBreak_word (next :: rest)
      | @float fractional others nonempty =>
          have point : '\n' ∉ fraction fractional := by
            rcases fraction_cases fractional with none | ⟨run, all, found⟩
            · simp [none]
            · simpa [found] using noDigit all
          have power : '\n' ∉ exponent others := by
            rcases exponent_cases others with
              none | ⟨mark, sign, power, letter, signs, ⟨-, all⟩, found⟩
            · simp [none]
            · have run := noDigit all
              rcases letter with rfl | rfl <;> rcases signs with rfl | rfl | rfl <;>
                simp [found, run]
          simp [whole, point, power]

end Scan

/-! ## Lexemes -/

namespace Lexer

/-- What a lexeme that is read at a place says of places: those of its tokens, and the one where
reading goes on. -/
inductive Traces (location : Location) : List Char → List Token → Location → List Char → Prop where
  /-- A blank or a comment. -/
  | gap {piece rest : List Char} :
      Traces location (piece ++ rest) [] (location.past piece) rest
  /-- A token that starts with the lexeme. -/
  | token {piece rest : List Char} {kind : Token.Kind} {text : String} :
      Traces location (piece ++ rest) [⟨kind, text, location⟩]
        (location.past (Text.flattened piece)) rest
  /-- A name, which starts after its opening backtick. -/
  | name {inner rest text : List Char}
      (closes : Closes Text.backtick false (inner ++ Text.backtick :: rest) text rest) :
      Traces location (Text.backtick :: (inner ++ Text.backtick :: rest))
        (⟨.backtick, String.ofList [Text.backtick], location⟩ ::
          ((if text = [] then []
            else [⟨.identifier, String.ofList text, location.past [Text.backtick]⟩]) ++
            [⟨.backtick, String.ofList [Text.backtick], location.past (Text.backtick :: inner)⟩]))
        (location.past (Text.backtick :: (inner ++ [Text.backtick]))) rest

/-- What a lexeme gives is traced from its place. -/
def Traced {start : List Char} (location : Location) (read : Lexeme start) : Prop :=
  Traces location start read.tokens read.location read.rest

variable {location : Location} {character : Char} {rest : List Char}

/-- A token without a line break is read on its line. -/
theorem traced_single {kind : Token.Kind} {text others left : List Char}
    (split : rest = others ++ left) (noBreak : '\n' ∉ character :: others) :
    Traced location (single location kind text others.length : Lexeme (character :: rest)) := by
  subst split
  have place : location.right (others.length + 1) =
      location.past (Text.flattened (character :: others)) := by
    rw [Text.flattened_of_noBreak noBreak, Location.past_of_noBreak noBreak, List.length_cons]
  simp only [Traced, single, List.drop_left, place]
  rw [← List.cons_append]
  exact .token

theorem traced_lineComment (noBreak : character ≠ '\n') :
    Traced location (lineCommentLexeme location character rest) := by
  have skipped : '\n' ∉ character :: rest.takeWhile (· ≠ '\n') := by
    intro member
    rcases List.mem_cons.mp member with same | inside
    · exact noBreak same.symm
    · simpa using List.mem_takeWhile_imp inside
  have place : location.right ((rest.takeWhile (· ≠ '\n')).length + 1) =
      location.past (character :: rest.takeWhile (· ≠ '\n')) := by
    rw [Location.past_of_noBreak skipped, List.length_cons]
  have split : character :: rest =
      (character :: rest.takeWhile (· ≠ '\n')) ++ rest.dropWhile (· ≠ '\n') := by
    rw [List.cons_append, List.takeWhile_append_dropWhile]
  simp only [Traced, lineCommentLexeme, silent, place, drop_length_takeWhile]
  rw [split]
  exact .gap

theorem traced_comment {read : Lexeme ('/' :: '*' :: rest)}
    (found : commentLexeme location '/' ('*' :: rest) = .ok read) : Traced location read := by
  unfold commentLexeme at found
  split at found
  · simp at found
  · rename_i after left closed
    obtain ⟨inner, inside, rfl⟩ := Scan.past_comment closed
    obtain rfl : rest = inner ++ left := inside
    cases found
    have traces : Traces location (('/' :: '*' :: inner) ++ left) []
        (location.past ('/' :: '*' :: inner)) left := .gap
    exact traces

theorem traced_quoted {quote : Char} {mark opened : List Char}
    {within : opened.length ≤ rest.length} {token : List Char → Token.Kind × List Char}
    {read : Lexeme (character :: rest)} (noBreak : '\n' ∉ mark ++ [quote])
    (noEscape : Text.backslash ∉ mark ++ [quote])
    (split : character :: rest = mark ++ [quote] ++ opened)
    (found : quotedLexeme location quote character mark opened within token = .ok read) :
    Traced location read := by
  unfold quotedLexeme at found
  dsimp only at found
  split at found
  · simp at found
  · rename_i text closing left scanned
    simp only [Except.ok.injEq] at found
    subst found
    obtain ⟨inner, rfl, place⟩ := Scan.past_string
      (fun isBreak => noBreak (by simp [isBreak])) (fun isEscape => noEscape (by simp [isEscape]))
      scanned
    have opening : location.right (mark.length + 1) = location.past (mark ++ [quote]) := by
      rw [Location.past_of_noBreak noBreak, List.length_append, List.length_singleton]
    have whole : character :: rest = (mark ++ [quote] ++ (inner ++ [quote])) ++ left := by
      rw [split]
      simp
    simp only [Traced, place, opening, whole]
    rw [← Location.past_append, ← Text.flattened_append noEscape]
    exact .token

theorem traced_name {read : Lexeme (Text.backtick :: rest)}
    (found : nameLexeme location Text.backtick rest = .ok read) : Traced location read := by
  unfold nameLexeme at found
  dsimp only at found
  split at found
  · simp at found
  · rename_i text closing left scanned
    simp only [Except.ok.injEq] at found
    subst found
    have closes := closes_of_name scanned
    obtain ⟨inner, rfl, rfl⟩ := Scan.past_name scanned
    have mark (place : Location) : place.right 1 = place.after Text.backtick :=
      (Location.after_of_ne (by decide) place).symm
    have traces : Traces location (Text.backtick :: (inner ++ Text.backtick :: left)) _ _ left :=
      .name closes
    simpa [Traced, mark] using traces

/-- The places of every lexeme are those to which its characters lead. -/
theorem traced_of_lexeme {previous : Option Token} {read : Lexeme (character :: rest)}
    (found : lexeme previous location character rest = .ok read) : Traced location read := by
  have rule := rule_lexeme previous location character rest
  generalize lexeme previous location character rest = outcome at rule found
  cases rule with
  | blank isBlank =>
      cases found
      have traces : Traces location ([character] ++ rest) [] (location.past [character]) rest := .gap
      exact traces
  | line mark =>
      cases found
      refine traced_lineComment ?_
      rcases mark with rfl | ⟨rfl, -⟩ <;> decide
  | comment => exact traced_comment found
  | string mark =>
      apply traced_quoted _ _ rfl found
      · rcases mark with rfl | rfl <;> decide
      · rcases mark with rfl | rfl <;> decide
  | name => exact traced_name found
  | number digit scanned =>
      cases found
      have noBreak := Scan.noBreak_number (character :: rest)
      obtain ⟨left, split⟩ := Scan.prefix_number (character :: rest)
      rw [scanned] at noBreak split
      obtain ⟨others, rfl⟩ := number_starts digit scanned
      exact traced_single (List.cons.inj split).2.symm noBreak
  | signed noOperand digit scanned =>
      cases found
      have noBreak := Scan.noBreak_number rest
      obtain ⟨left, split⟩ := Scan.prefix_number rest
      rw [scanned] at noBreak split
      exact traced_single split.symm (List.not_mem_cons_of_ne_of_not_mem (by decide) noBreak)
  | mark known =>
      cases found
      have noBreak : character ≠ '\n' := by
        rintro rfl
        exact absurd (mem_marks_of_punctuation? known) (by decide)
      exact traced_single (List.nil_append rest).symm (by simpa using noBreak.symm)
  | binary letter =>
      have plain : ∀ letter ∈ binaryMarks, '\n' ∉ [letter] ++ [Text.singleQuote] ∧
          Text.backslash ∉ [letter] ++ [Text.singleQuote] := by
        exact Text.forall_mem_of_all (by decide)
      exact traced_quoted (plain character letter).1 (plain character letter).2 rfl found
  | word notBlank starts noBinary =>
      cases found
      have noBreak : character ≠ '\n' := by
        rintro rfl
        exact absurd notBlank (by decide)
      obtain ⟨left, split⟩ := Scan.prefix_word rest
      have inside : '\n' ∉ character :: Scan.word rest :=
        List.not_mem_cons_of_ne_of_not_mem noBreak.symm (Scan.noBreak_word rest)
      exact traced_single split.symm inside
  | unexpected => cases found

/-! ## Texts -/

/-- A token of a text, without its place, and what stands before it. -/
structure Origin where
  /-- The token. -/
  token : Token
  /-- The characters before the first character of the token. -/
  before : List Char
  /-- The same characters, with a blank instead of each line break that a string escapes. -/
  counted : List Char

/-- The tokens of a text, each with what stands before it in the whole text, of which `before` is
the part before this text. The opening backtick of a name stands where the name is written, the name
after that backtick, the closing backtick after all that is between them, and the end of input after
all characters. -/
inductive Origins :
    Bool → (before counted : List Char) → List Char → List Origin → Prop where
  /-- The end of the text. -/
  | done {operand : Bool} {before counted : List Char} :
      Origins operand before counted [] [⟨.bare .endOfInput "", before, counted⟩]
  /-- A blank or a comment, and what follows it. -/
  | gap {operand : Bool} {before counted piece rest : List Char} {origins : List Origin}
      (first : Step operand (piece ++ rest) [] rest)
      (others : Origins operand (before ++ piece) (counted ++ piece) rest origins) :
      Origins operand before counted (piece ++ rest) origins
  /-- A token, and what follows it. -/
  | token {operand : Bool} {before counted piece rest : List Char} {token : Token}
      {origins : List Origin} (first : Step operand (piece ++ rest) [token] rest)
      (others : Origins (endsOperand token) (before ++ piece) (counted ++ Text.flattened piece)
        rest origins) :
      Origins operand before counted (piece ++ rest) (⟨token, before, counted⟩ :: origins)
  /-- A name between backticks, and what follows it. -/
  | name {operand : Bool} {before counted inner rest text : List Char} {origins : List Origin}
      (closes : Closes Text.backtick false (inner ++ Text.backtick :: rest) text rest)
      (others : Origins true (before ++ Text.backtick :: (inner ++ [Text.backtick]))
        (counted ++ Text.backtick :: (inner ++ [Text.backtick])) rest origins) :
      Origins operand before counted (Text.backtick :: (inner ++ Text.backtick :: rest))
        (⟨backtickToken, before, counted⟩ ::
          ((if text = [] then []
            else [⟨.bare .identifier (String.ofList text), before ++ [Text.backtick],
              counted ++ [Text.backtick]⟩]) ++
            ⟨backtickToken, before ++ Text.backtick :: inner, counted ++ Text.backtick :: inner⟩ ::
              origins))

/-- The token stands where what is counted before it leads. -/
structure Located (token : Token) (origin : Origin) : Prop where
  same : token.placeless = origin.token
  place : token.location = .following origin.counted
  flattens : Text.Flattens origin.counted origin.before

/-- One lexeme keeps count of the characters before what follows it. -/
theorem Traces.origins {operand : Bool} {after : Location}
    {characters rest before counted : List Char} {tokens more : List Token}
    (traces : Traces (.following counted) characters tokens after rest)
    (step : Step operand characters (tokens.map Token.placeless) rest)
    (flattens : Text.Flattens counted before)
    (others : ∀ beforeRest countedRest, after = .following countedRest →
      Text.Flattens countedRest beforeRest →
      ∃ origins, Origins (operandAfter operand (tokens.map Token.placeless)) beforeRest countedRest
        rest origins ∧ List.Forall₂ Located more origins) :
    ∃ origins, Origins operand before counted characters origins ∧
      List.Forall₂ Located (tokens ++ more) origins := by
  cases traces with
  | @gap piece =>
      obtain ⟨origins, found, located⟩ := others (before ++ piece) (counted ++ piece)
        (Location.past_following counted piece) (flattens.append (Text.flattens_refl piece))
      exact ⟨origins, .gap step found, located⟩
  | @token piece _ kind text =>
      obtain ⟨origins, found, located⟩ := others (before ++ piece) (counted ++ Text.flattened piece)
        (Location.past_following counted _) (flattens.append (Text.flattens_flattened piece))
      exact ⟨_, .token step found, .cons ⟨rfl, rfl, flattens⟩ located⟩
  | @name inner _ text closes =>
      have passed (piece : List Char) : Text.Flattens (counted ++ piece) (before ++ piece) :=
        flattens.append (Text.flattens_refl piece)
      obtain ⟨origins, found, located⟩ :=
        others (before ++ Text.backtick :: (inner ++ [Text.backtick])) _
          (Location.past_following counted _) (passed _)
      rw [List.map_cons, List.map_append, List.map_singleton, ← List.cons_append,
        operandAfter_concat] at found
      refine ⟨_, .name closes found, .cons ⟨rfl, rfl, flattens⟩ ?_⟩
      have closing : Located ⟨.backtick, String.ofList [Text.backtick],
          (Location.following counted).past (Text.backtick :: inner)⟩
          ⟨backtickToken, before ++ Text.backtick :: inner, counted ++ Text.backtick :: inner⟩ :=
        ⟨rfl, Location.past_following counted _, passed _⟩
      by_cases empty : text = []
      · rw [if_pos empty, if_pos empty]
        exact .cons closing located
      · rw [if_neg empty, if_neg empty]
        exact .cons ⟨rfl, Location.past_following counted _, passed _⟩ (.cons closing located)

/-- The tokens that are read from a text start where the text before them leads. -/
theorem origins_of_tokensFrom {previous : Option Token} {location : Location}
    {characters before counted : List Char} {tokens : List Token}
    (place : location = .following counted) (flattens : Text.Flattens counted before)
    (read : tokensFrom previous location characters = .ok tokens) :
    ∃ origins, Origins (previous.any endsOperand) before counted characters origins ∧
      List.Forall₂ Located tokens origins := by
  have run := tokenizes_of_tokensFrom read
  clear read
  induction run generalizing before counted with
  | done => exact ⟨_, .done, .cons ⟨rfl, place, flattens⟩ .nil⟩
  | more found after ih =>
      subst place
      refine (traced_of_lexeme found).origins (step_of_lexeme found) flattens ?_
      intro beforeRest countedRest placeRest flattensRest
      rw [← any_endsOperand_or]
      exact ih placeRest flattensRest

/-- Where no line break follows a backslash, all characters before a token are counted. -/
theorem Origins.counted_eq {operand : Bool} {before counted characters : List Char}
    {origins : List Origin} (found : Origins operand before counted characters origins)
    (noEscape : ¬ [Text.backslash, '\n'] <:+: characters) (same : counted = before) :
    ∀ origin ∈ origins, origin.counted = origin.before := by
  have rest {piece rest : List Char} (none : ¬ [Text.backslash, '\n'] <:+: piece ++ rest) :
      ¬ [Text.backslash, '\n'] <:+: rest :=
    fun inside => none (inside.trans (List.suffix_append piece rest).isInfix)
  induction found with
  | done => simpa using same
  | gap first others ih => exact ih (rest noEscape) (by rw [same])
  | @token operand before counted piece left token origins first others ih =>
      have flat : Text.flattened piece = piece :=
        Text.flattened_eq_self fun inside =>
          noEscape (inside.trans (List.prefix_append piece left).isInfix)
      exact List.forall_mem_cons.mpr ⟨same, ih (rest noEscape) (by rw [same, flat])⟩
  | @name operand before counted inner left text origins closes others ih =>
      have after : ∀ origin ∈ origins, origin.counted = origin.before := by
        refine ih ?_ (by rw [same])
        have split : Text.backtick :: (inner ++ Text.backtick :: left) =
            (Text.backtick :: (inner ++ [Text.backtick])) ++ left := by simp
        rw [split] at noEscape
        exact rest noEscape
      by_cases empty : text = []
      · simpa [empty, same] using after
      · simpa [empty, same] using after

end Lexer

/-- Every token of a text stands at the place that follows the characters before it, if a blank is
put for each line break that a string escapes there. That is the place of its first character
exactly if there is no such line break before it, as in every text without a backslash before a line
break. -/
theorem Token.tokenize_locations {text : String} {tokens : List Token}
    (read : tokenize text = .ok tokens) :
    ∃ origins, Lexer.Origins false [] [] text.toList origins ∧
      List.Forall₂ (fun token origin => token.placeless = origin.token ∧
        token.location = .following origin.counted ∧
        (token.location = .following origin.before ↔ origin.counted = origin.before))
        tokens origins ∧
      (¬ [Text.backslash, '\n'] <:+: text.toList →
        List.Forall₂ (fun token origin => token.location = .following origin.before)
          tokens origins) := by
  obtain ⟨origins, found, located⟩ := Lexer.origins_of_tokensFrom rfl .nil read
  refine ⟨origins, found, located.imp ?_, ?_⟩
  · intro token origin located
    refine ⟨located.same, located.place, ?_⟩
    rw [located.place]
    exact located.flattens.following_eq_iff
  · intro noEscape
    have counted : ∀ origin ∈ origins, origin.counted = origin.before :=
      found.counted_eq noEscape rfl
    have both := (List.forall₂_and_left origins tokens).mpr ⟨counted, located.flip⟩
    refine both.flip.imp ?_
    rintro token origin ⟨same, located⟩
    rw [located.place, same]

/-- After the string the places are those of a text with a blank instead of the line break: the
word, which is on the second line, is placed on the first. -/
theorem Token.tokenize_locations_escape :
    let text := "'\\\n' a"
    ∃ tokens origins, tokenize text = .ok tokens ∧
      Lexer.Origins false [] [] text.toList origins ∧
      tokens.map (fun token => (token.kind, token.location)) =
        [(.quotedString, ⟨1, 1⟩), (.word, ⟨1, 6⟩), (.endOfInput, ⟨1, 7⟩)] ∧
      List.Forall₂ (fun token origin => token.location = .following origin.before ↔
        origin.counted = origin.before) tokens origins ∧
      Location.following "'\\\n' ".toList = ⟨2, 3⟩ := by
  intro text
  have read : tokenize text = .ok [⟨.quotedString, "\n", ⟨1, 1⟩⟩, ⟨.word, "a", ⟨1, 6⟩⟩,
      Token.finish ⟨1, 7⟩] := by
    decide +kernel
  obtain ⟨origins, found, located, -⟩ := tokenize_locations read
  exact ⟨_, origins, read, found, rfl, located.imp fun _ _ facts => facts.2.2, by decide⟩

end TableDdl
