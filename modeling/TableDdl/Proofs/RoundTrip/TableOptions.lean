import Mathlib.Data.List.TakeWhile
import TableDdl.Proofs.RoundTrip.Indexes
import TableDdl.TableOption.Grammar

/-!
# Canonical table options are read back

The last word of the key of an option says what value the option takes: a name, a tablespace, a list
of tables, or a number, a word or a string. An option is canonical if its key is one at which an
option starts and its value is such a value.
-/

namespace TableDdl

namespace TableOption

open Grammar
open Lexer hiding nameTokens
open Column (partTokens)

/-- The key of an option, without the word `SET` at its end. -/
structure Key where
  /-- The word that is no key by itself. -/
  lead : Option String
  /-- The word that says what value the option takes. -/
  word : String
deriving DecidableEq

namespace Key

/-- The keys of two words. -/
def pairs : List Key :=
  ["CHARSET", "CHARACTER", "COLLATE"].map (⟨some "DEFAULT", ·⟩) ++
    ["DATA", "INDEX"].map (⟨some ·, "DIRECTORY"⟩)

/-- The keys at which an option starts. -/
def all : List Key := pairs ++ (keyWords.filter (· ∉ leadingWords)).map (⟨none, ·⟩)

/-- The words of which the key is made. -/
def text (key : Key) : String := key.lead.elim key.word (· ++ " " ++ key.word)

/-- The key as it is written. -/
def written (key : Key) : String :=
  if key.word = "CHARACTER" then key.text ++ " SET" else key.text

/-- The tokens of the key. -/
def tokens (key : Key) : List Token :=
  key.lead.toList.map (.bare .word ·) ++ .bare .word key.word ::
    (if key.word = "CHARACTER" then [.bare .word "SET"] else [])

end Key

/-- A number, a word or a string. -/
inductive IsScalar : Literal → Prop where
  | integer (value : Int64) : IsScalar (.integer value)
  | float (value : Double) : IsScalar (.float value)
  | string (text : String) : IsScalar (.string text)
  | word {text : String} (single : Token.Single .word text) : IsScalar (.raw text)
  | largeInteger {text : String} (single : Token.Single .integer text)
      (large : Number.int64? text = none) : IsScalar (.raw text)
  | largeFloat {text : String} (single : Token.Single .float text)
      (large : Number.double? text = none) : IsScalar (.raw text)

/-- The words of keys after which a name stands. -/
def nameWords : List String := ["CHARACTER", "CHARSET", "COLLATE"]

/-- The value is one that the option takes. A name that is no string must not be the word that
starts a partitioning. -/
inductive Fits (word : String) : TableOptionValue → Prop where
  | name {name : String} (takesName : word ∈ nameWords) (single : Token.Single .word name)
      (noStop : Text.upper name ≠ "PARTITION") : Fits word (.literal (.raw name))
  | tablespace {name : String} {storage : Option String} (takesTablespace : word = "TABLESPACE")
      (nonempty : name ≠ "") (known : ∀ kind ∈ storage, kind = "DISK" ∨ kind = "MEMORY") :
      Fits word (.tablespace name storage)
  | tables {names : List String} (takesTables : word = "UNION") (nonempty : names ≠ [])
      (nonemptyNames : ∀ name ∈ names, name ≠ "") : Fits word (.tables names)
  | scalar {value : Literal} (takesScalar : word ∉ nameWords ++ ["TABLESPACE", "UNION"])
      (isScalar : IsScalar value) : Fits word (.literal value)

/-- A table option that is read back from its text. -/
def Canonical (option : TableOption) : Prop :=
  ∃ key ∈ Key.all, option.key = key.written ∧ Fits key.word option.value

/-- The tokens of the value of an option. -/
def valueTokens : TableOptionValue → List Token
  | .literal value => .bare .equals "=" :: value.tokens
  | .tables names => .bare .equals "=" :: Token.enclosed nameTokens names
  | .tablespace name storage => nameTokens name ++
      partTokens [.bare .word "STORAGE"] (fun kind => [.bare .word kind]) storage

/-- The tokens of an option. -/
def tokens (option : TableOption) : List Token :=
  (Token.read? option.key).getD [] ++ valueTokens option.value

variable {operand : Bool} {option : TableOption} {key : Key} {value : TableOptionValue}

/-! ## The text of an option -/

theorem IsScalar.canonical {value : Literal} (isScalar : IsScalar value) : value.Canonical := by
  cases isScalar with
  | integer value => exact .integer value
  | float value => exact .float value
  | string text => exact .string text
  | word single => exact .word single
  | largeInteger single large => exact .largeInteger single large
  | largeFloat single large => exact .largeFloat single large

theorem Fits.canonical {word : String} {value : Literal} (fits : Fits word (.literal value)) :
    value.Canonical := by
  cases fits with
  | name takesName single noStop => exact .word single
  | scalar takesScalar isScalar => exact isScalar.canonical

theorem isKeywordCharacter_of_mem_keyWords {word : String} (known : word ∈ keyWords) :
    ∀ character ∈ word.toList, isKeywordCharacter character = true := by
  have all : ∀ word ∈ keyWords, word.toList.all isKeywordCharacter = true := by decide +kernel
  exact List.all_eq_true.mp (all word known)

theorem plainFrom_keyword {characters : List Char}
    (keyword : ∀ character ∈ characters, isKeywordCharacter character = true) (before : List Char) :
    plainFrom before characters =
      some (wordTokens (before ++ characters), !(before ++ characters).isEmpty) := by
  induction characters generalizing before with
  | nil => rw [plainFrom, List.append_nil]
  | cons character others ih =>
      have later := ih (fun other member => keyword other (List.mem_cons_of_mem _ member))
        (before ++ [character])
      rw [plainFrom, if_pos (keyword character List.mem_cons_self), later, List.append_assoc,
        List.singleton_append]

/-- A key consists of two words, or it is one of the words of which keys are made. -/
theorem Key.pair_or_single (known : key ∈ all) :
    key ∈ pairs ∨ ∃ word ∈ keyWords, word ∉ leadingWords ∧ key = ⟨none, word⟩ := by
  rcases List.mem_append.mp known with pair | single
  · exact .inl pair
  · obtain ⟨word, member, rfl⟩ := List.mem_map.mp single
    obtain ⟨isWord, alone⟩ := List.mem_filter.mp member
    exact .inr ⟨word, isWord, of_decide_eq_true alone, rfl⟩

theorem plain?_written (known : key ∈ Key.all) :
    plain? key.written = some (key.tokens, true) := by
  have special : ∀ key ∈ ⟨none, "CHARACTER"⟩ :: Key.pairs,
      plain? key.written = some (key.tokens, true) := by decide +kernel
  rcases Key.pair_or_single known with pair | ⟨word, isWord, -, rfl⟩
  · exact special key (List.mem_cons_of_mem _ pair)
  by_cases isCharacter : word = "CHARACTER"
  · subst isCharacter
    exact special _ List.mem_cons_self
  · have nonempty : word.toList ≠ [] := by
      have all : ∀ word ∈ keyWords, word ≠ "" := by decide
      simpa using all word isWord
    have plain := plainFrom_keyword (isKeywordCharacter_of_mem_keyWords isWord) []
    simp only [List.nil_append, wordTokens, if_neg nonempty, String.ofList_toList] at plain
    simp [Key.written, Key.text, Key.tokens, isCharacter, plain?, plain, nonempty]

theorem read?_written (known : key ∈ Key.all) : Token.read? key.written = some key.tokens := by
  have lexes : Lexes false (key.written.toList ++ []) key.tokens [] :=
    lexes_open (plain?_written known) gap_nil.boundary
  rw [List.append_nil] at lexes
  exact Token.read?_eq_some_iff.mpr lexes

theorem attached_storage (storage : Option String) :
    (∀ kind ∈ storage, kind = "DISK" ∨ kind = "MEMORY") →
    Attached (match storage with
      | some storage => " STORAGE " ++ storage
      | none => "")
      (partTokens [.bare .word "STORAGE"] (fun kind => [.bare .word kind]) storage) := by
  intro known
  cases storage with
  | none => exact attached_empty
  | some kind =>
      rcases known kind rfl with rfl | rfl
      · exact attached_open (by decide) (by decide)
      · exact attached_open (by decide) (by decide)

/-- A canonical option is read as its tokens. -/
theorem Canonical.spelled (canonical : option.Canonical) :
    Spelled operand option.render option.tokens := by
  obtain ⟨key, known, written, fits⟩ := canonical
  obtain ⟨text, value⟩ := option
  subst written
  have start : Spelled operand key.written key.tokens := spelled_plain (plain?_written known)
  simp only [tokens, read?_written known, Option.getD_some]
  cases value with
  | literal literal =>
      have assigned : Attached (" = " ++ literal.render)
          ([.bare .equals "="] ++ literal.tokens) := by
        refine attached_closed (by decide) (by decide) fun operand rest gap => ?_
        refine fits.canonical.lexes (fun isOperand => ?_) gap
        cases operand <;> exact absurd isOperand (by decide)
      have whole := start.attach assigned
      rwa [← String.append_assoc] at whole
  | tables names =>
      have list : Attached (" (" ++ (Text.quoteNames "," names ++ ")"))
          (Token.enclosed nameTokens names) := Index.attached_names (by decide) (by decide)
      have assigned : Attached (" =" ++ (" (" ++ (Text.quoteNames "," names ++ ")")))
          ([.bare .equals "="] ++ Token.enclosed nameTokens names) :=
        attached_closed (by decide) (by decide) fun _ => list.spelled _
      have opening : " = (" = " =" ++ " (" := by decide
      have text : key.written ++ " = (" ++ Text.quoteNames "," names ++ ")" =
          key.written ++ (" =" ++ (" (" ++ (Text.quoteNames "," names ++ ")"))) := by
        rw [opening]
        simp only [String.append_assoc]
      have whole := start.attach assigned
      rwa [← text] at whole
  | tablespace name storage =>
      cases fits with
      | tablespace takesTablespace nonempty knownStorage =>
          have named : Attached (" " ++ (Text.quoteName name ++ _))
              ([] ++ (nameTokens name ++ _)) :=
            attached_closed (by decide) (by decide) fun operand =>
              (spelled_quoteName name).attach (attached_storage storage knownStorage)
          have whole := start.attach named
          simp only [← String.append_assoc] at whole
          exact whole

/-! ## Reading an option -/

variable {scope : Scope} {after rest : List Token}

theorem toUpper_of_isKeywordCharacter {character : Char}
    (keyword : isKeywordCharacter character = true) : character.toUpper = character := by
  have capitals : ∀ character ∈ Text.interval 65 90, character.toUpper = character :=
    Text.forall_mem_of_all (by decide)
  simp only [isKeywordCharacter, Bool.or_eq_true, decide_eq_true_eq] at keyword
  rcases keyword with upper | rfl
  · have bounds : 65 ≤ character.toNat ∧ character.toNat ≤ 90 := of_decide_eq_true upper
    exact capitals character (Text.mem_interval bounds.1 bounds.2)
  · decide

theorem upper_of_mem_keyWords {word : String} (known : word ∈ keyWords) :
    Text.upper word = word := by
  have same : word.toList.map Char.toUpper = word.toList.map id :=
    List.map_congr_left fun character member =>
      toUpper_of_isKeywordCharacter (isKeywordCharacter_of_mem_keyWords known character member)
  rw [Text.upper, same, List.map_id, String.ofList_toList]

theorem lastWord_of_mem_keyWords {word : String} (known : word ∈ keyWords) :
    lastWord word = word := by
  have run : word.toList.reverse.takeWhile (· ≠ ' ') = word.toList.reverse := by
    refine List.takeWhile_eq_self_iff.mpr fun character member => ?_
    have keyword := isKeywordCharacter_of_mem_keyWords known character (List.mem_reverse.mp member)
    refine decide_eq_true ?_
    rintro rfl
    exact absurd keyword (by decide)
  rw [lastWord, run, List.reverse_reverse, String.ofList_toList]

/-- What the grammar asks of a key. -/
structure Key.Readable (key : Key) : Prop where
  word : Token.keyword? (.bare .word key.word) = some key.word
  lead : ∀ lead ∈ key.lead, Token.keyword? (.bare .word lead) = some lead ∧
    leadingWords.contains lead = true
  alone : key.lead = none → leadingWords.contains key.word = false
  last : lastWord key.text = key.word
  known : isKeyWord key.word = true

theorem Key.readable (known : key ∈ Key.all) : key.Readable := by
  have pairs : ∀ key ∈ Key.pairs, Token.keyword? (.bare .word key.word) = some key.word ∧
      (∀ lead ∈ key.lead, Token.keyword? (.bare .word lead) = some lead ∧
        leadingWords.contains lead = true) ∧
      (key.lead = none → leadingWords.contains key.word = false) ∧
      lastWord key.text = key.word ∧ isKeyWord key.word = true := by decide +kernel
  rcases Key.pair_or_single known with pair | ⟨word, isWord, alone, rfl⟩
  · obtain ⟨word, lead, alone, last, isKnown⟩ := pairs key pair
    exact ⟨word, lead, alone, last, isKnown⟩
  · have upper := upper_of_mem_keyWords isWord
    refine ⟨?_, by simp, fun _ => ?_, lastWord_of_mem_keyWords isWord, ?_⟩
    · simp [Token.keyword?, upper]
    · simpa using alone
    · simpa [isKeyWord, upper] using isWord

theorem reads_keyText (known : key ∈ Key.all) :
    keyText.Reads scope (key.lead.toList.map (.bare .word ·) ++ .bare .word key.word :: rest)
      key.text rest := by
  have readable := Key.readable known
  obtain ⟨lead, word⟩ := key
  cases lead with
  | none =>
      refine reads_keyword?_bind ?_
      rw [readable.word]
      dsimp only
      rw [readable.alone rfl]
      exact reads_advance_bind (reads_pure _)
  | some lead =>
      obtain ⟨isKeyword, isLead⟩ := readable.lead lead rfl
      refine reads_keyword?_bind ?_
      rw [isKeyword]
      dsimp only
      rw [isLead]
      refine reads_advance_bind (reads_keyword?_bind ?_)
      rw [readable.word]
      exact reads_advance_bind (reads_pure _)

/-- No bare word is a mark, in any case. -/
theorem upper_ne_mark (mark : Char) {word : String} (noCapital : mark ∉ Text.interval 65 90)
    (noWord : ¬ Token.Single .word (String.singleton mark)) (single : Token.Single .word word) :
    Text.upper word ≠ String.singleton mark := by
  intro same
  obtain rfl := Text.eq_singleton_of_upper_eq noCapital same
  exact noWord single

theorem reads_nameValue {name : String} (single : Token.Single .word name)
    (noStop : scope.stops.stopAt (.bare .word name) = false) :
    nameValue.Reads scope (.bare .equals "=" :: .bare .word name :: after)
      (.literal (.raw name)) after := by
  have noBacktick : Token.spells (.bare .word name) "\x60" = false :=
    Token.spells_word_of_ne (upper_ne_mark Text.backtick (by decide) (by decide +kernel) single)
  refine reads_consume_bind (by decide) ?_
  have named : nameOrString.Reads scope (.bare .word name :: after) name after := by
    refine reads_seesKind_bind_other (by simp) ?_
    have some : name?.Reads scope (.bare .word name :: after) (some name) after := by
      refine reads_consume_ite_unseen (unseen_cons noBacktick) ?_
      refine reads_seesKind_bind rfl ?_
      refine reads_look_bind (fun _ view => (Cursor.stopAt_of_view view _).trans noStop) ?_
      exact reads_current_bind (fun _ => rfl) (reads_advance_bind (reads_pure _))
    exact some.bind (reads_pure name)
  exact named.bind (reads_pure _)

theorem IsScalar.reads {value : Literal} (isScalar : IsScalar value) :
    scalar.Reads scope (.bare .equals "=" :: (value.tokens ++ after)) value after := by
  have number {token : Token} {value : Literal} (typed : Literal.ofNumber token = value)
      (isNumber : token.kind = .integer ∨ token.kind = .float) :
      scalar.Reads scope (.bare .equals "=" :: token :: after) value after := by
    subst typed
    refine reads_consume_bind (by decide) (reads_current_bind (fun _ => rfl) ?_)
    rcases isNumber with kind | kind <;> rw [kind] <;> exact reads_advance_bind (reads_pure _)
  cases isScalar with
  | integer value => exact number (Literal.ofNumber_writeInt value) (.inl rfl)
  | float value => exact number (Literal.ofNumber_write value) (.inr rfl)
  | string text =>
      refine reads_consume_bind (by decide) (reads_current_bind (fun _ => rfl) ?_)
      exact reads_advance_bind (reads_pure _)
  | word single =>
      rw [Literal.tokens_single single]
      refine reads_consume_bind (by decide) (reads_current_bind (fun _ => rfl) ?_)
      exact reads_advance_bind (reads_pure _)
  | largeInteger single large =>
      rw [Literal.tokens_single single]
      exact number (Literal.ofNumber_large (.inl ⟨rfl, large⟩)) (.inl rfl)
  | largeFloat single large =>
      rw [Literal.tokens_single single]
      exact number (Literal.ofNumber_large (.inr ⟨rfl, large⟩)) (.inr rfl)

theorem reads_tablespaceValue {name : String} {storage : Option String} (nonempty : name ≠ "")
    (known : ∀ kind ∈ storage, kind = "DISK" ∨ kind = "MEMORY")
    (noStorage : Unseen "STORAGE" after) :
    tablespaceValue.Reads scope (valueTokens (.tablespace name storage) ++ after)
      (.tablespace name storage) after := by
  have noEquals : Unseen "=" (valueTokens (.tablespace name storage) ++ after) := by
    simp only [valueTokens, nameTokens_eq nonempty]
    exact unseen_cons (by decide)
  have stored : storage?.Reads scope (partTokens [.bare .word "STORAGE"]
      (fun kind => [.bare .word kind]) storage ++ after) storage after := by
    cases storage with
    | none => exact reads_consume_ite_unseen noStorage (reads_pure none)
    | some kind =>
        have written : Text.upper kind = kind ∧
            (["DISK", "MEMORY"].any (Token.spells (.bare .word kind))) = true := by
          rcases known kind rfl with rfl | rfl <;> decide
        refine reads_consume_ite (by decide) (reads_seesAny_bind written.2 ?_)
        refine reads_current_bind (fun _ => rfl) (reads_advance_bind ?_)
        rw [Token.text_bare, written.1]
        exact reads_pure _
  refine reads_consume_bind_unseen noEquals ?_
  rw [valueTokens, List.append_assoc]
  exact (reads_name nonempty).bind (stored.bind (reads_pure _))

theorem reads_tablesValue {names : List String} (nonempty : names ≠ [])
    (nonemptyNames : ∀ name ∈ names, name ≠ "") :
    tablesValue.Reads scope (valueTokens (.tables names) ++ after) (.tables names) after := by
  refine reads_consume_bind (by decide) ?_
  exact (reads_names nonempty nonemptyNames).bind (reads_pure _)

/-- A canonical option is read from its tokens. -/
theorem Canonical.reads (canonical : option.Canonical)
    (stops : scope.stops = Stops.none.adding [";", "PARTITION"])
    (noStorage : Unseen "STORAGE" after) :
    TableOption.grammar.Reads scope (option.tokens ++ after) option after := by
  obtain ⟨key, known, written, fits⟩ := canonical
  obtain ⟨text, value⟩ := option
  subst written
  have readable := Key.readable known
  simp only [tokens, read?_written known, Option.getD_some, Key.tokens, List.append_assoc,
    List.cons_append]
  refine (reads_keyText known).bind ?_
  dsimp only
  rw [readable.last, Key.written]
  cases fits with
  | @name name takesName single noStop =>
      have named : nameValue.Reads scope (valueTokens (.literal (.raw name)) ++ after)
          (.literal (.raw name)) after := by
        rw [valueTokens, Literal.tokens_single single]
        refine reads_nameValue single ?_
        have noSemicolon : Text.upper name ≠ ";" :=
          upper_ne_mark ';' (by decide) (by decide +kernel) single
        have words : Text.upper ";" = ";" ∧ Text.upper "PARTITION" = "PARTITION" := by decide
        simp [stops, Stops.stopAt, Stops.adding, Stops.none, words, noSemicolon, noStop]
      by_cases isCharacter : key.word = "CHARACTER"
      · simp only [if_pos isCharacter]
        exact reads_expect_bind (by decide) (named.bind (reads_pure _))
      · have isName : key.word = "CHARSET" ∨ key.word = "COLLATE" := by
          simpa [nameWords, isCharacter] using takesName
        simp only [if_neg isCharacter, if_pos isName]
        exact named.bind (reads_pure _)
  | tablespace takesTablespace nonempty knownStorage =>
      simp only [takesTablespace]
      exact (reads_tablespaceValue nonempty knownStorage noStorage).bind (reads_pure _)
  | tables takesTables nonempty nonemptyNames =>
      simp only [takesTables]
      exact (reads_tablesValue nonempty nonemptyNames).bind (reads_pure _)
  | scalar takesScalar isScalar =>
      simp only [nameWords, List.cons_append, List.nil_append, List.mem_cons, List.not_mem_nil,
        or_false, not_or] at takesScalar
      obtain ⟨noCharacter, noCharset, noCollate, noTablespace, noUnion⟩ := takesScalar
      simp only [noCharacter, noCharset, noCollate, noTablespace, noUnion, readable.known]
      exact isScalar.reads.bind (reads_pure _)

/-! ## Reading options before a clause -/

/-- The tokens of options one after another. -/
def listTokens (options : List TableOption) : List Token := options.flatMap tokens

theorem Canonical.exists_tokens_eq (canonical : option.Canonical) :
    ∃ word ∈ keyWords, ∃ others, option.tokens = .bare .word word :: others := by
  obtain ⟨key, known, written, -⟩ := canonical
  simp only [tokens, written, read?_written known, Option.getD_some]
  have leads : ∀ key ∈ Key.pairs, ∃ lead ∈ keyWords, key.lead = some lead := by decide +kernel
  rcases Key.pair_or_single known with pair | ⟨word, isWord, -, rfl⟩
  · obtain ⟨lead, isWord, found⟩ := leads key pair
    rw [Key.tokens, found]
    exact ⟨lead, isWord, _, rfl⟩
  · exact ⟨word, isWord, _, rfl⟩

theorem Canonical.unseen (canonical : option.Canonical) {text : String}
    (noKey : Text.upper text ∉ keyWords) : Unseen text (option.tokens ++ after) := by
  obtain ⟨word, isWord, others, tokens⟩ := canonical.exists_tokens_eq
  rw [tokens]
  refine unseen_cons (Token.spells_word_of_ne ?_)
  rw [upper_of_mem_keyWords isWord]
  exact ne_of_mem_of_not_mem isWord noKey

theorem startsAt_eq_isKeyWord {token : Token} {word : String} (keyword : token.keyword? = some word)
    (alone : word ∉ leadingWords) (next : Token) : startsAt token next = isKeyWord word := by
  simp only [leadingWords, List.mem_cons, List.not_mem_nil, or_false, not_or] at alone
  obtain ⟨noDefault, noData, noIndex⟩ := alone
  simp [startsAt, keyword, noDefault, noData, noIndex]

/-- An option starts at the first token of a canonical option. -/
theorem Canonical.startsAt (canonical : option.Canonical) {start : Cursor}
    (view : start.view = option.tokens ++ after) :
    TableOption.startsAt start.current start.next = true := by
  obtain ⟨key, known, written, -⟩ := canonical
  simp only [tokens, written, read?_written known, Option.getD_some, Key.tokens] at view
  rcases Key.pair_or_single known with pair | ⟨word, isWord, alone, rfl⟩
  · have starts : ∀ key ∈ Key.pairs, ∀ lead ∈ key.lead,
        TableOption.startsAt (.bare .word lead) (.bare .word key.word) = true := by decide +kernel
    have leads : ∀ key ∈ Key.pairs, key.lead.isSome = true := by decide
    obtain ⟨lead, found⟩ := Option.isSome_iff_exists.mp (leads key pair)
    simp only [found, Option.toList_some, List.map_cons, List.map_nil, List.cons_append,
      List.nil_append] at view
    have keyword := Cursor.keyword?_of_view view
    have spells : start.next.spells = (Token.bare .word key.word).spells :=
      funext (Cursor.spells_of_view (Cursor.view_advance_of_view view))
    rw [← starts key pair lead found, TableOption.startsAt, TableOption.startsAt, keyword, spells]
  · have readable := Key.readable known
    have keyword := (Cursor.keyword?_of_view view).trans readable.word
    exact (startsAt_eq_isKeyWord keyword alone _).trans readable.known

/-- Canonical options are read up to a word that starts no option. -/
theorem reads_options {options : List TableOption}
    (canonical : ∀ option ∈ options, option.Canonical)
    (stops : scope.stops = Stops.none.adding [";", "PARTITION"]) {word : String}
    (upper : Text.upper word = word) (noKey : word ∉ keyWords)
    (other : word ≠ "," ∧ word ≠ "STORAGE") :
    TableOption.options.Reads scope (listTokens options ++ .bare .word word :: after) options
      (.bare .word word :: after) := by
  have keyword : Token.keyword? (.bare .word word) = some word := by simp [Token.keyword?, upper]
  have unseen {text : String} (same : Text.upper text = text) (distinct : word ≠ text) :
      Unseen text (.bare .word word :: after) :=
    unseen_cons (Token.spells_word_of_ne (by rwa [upper, same]))
  induction options with
  | nil =>
      refine reads_many_nil ?_
      have notStart (start : Cursor) (view : start.view = .bare .word word :: after) :
          startsAt start.current start.next = false := by
        have leads : ∀ lead ∈ leadingWords, lead ∈ keyWords := by decide
        have alone : word ∉ leadingWords := fun member => noKey (leads word member)
        rw [startsAt_eq_isKeyWord ((Cursor.keyword?_of_view view).trans keyword) alone]
        simpa [isKeyWord, upper] using noKey
      exact reads_look_bind notStart (reads_pure none)
  | cons option others ih =>
      have isOption := canonical option List.mem_cons_self
      have there := ih fun other member => canonical other (List.mem_cons_of_mem _ member)
      have follows {text : String} (same : Text.upper text = text) (distinct : word ≠ text)
          (noOption : text ∉ keyWords) :
          Unseen text (listTokens others ++ .bare .word word :: after) := by
        cases others with
        | nil => exact unseen same distinct
        | cons next rest =>
            have isNext := canonical next (List.mem_cons_of_mem _ List.mem_cons_self)
            simp only [listTokens, List.flatMap_cons, List.append_assoc]
            exact isNext.unseen (same.symm ▸ noOption)
      simp only [listTokens, List.flatMap_cons, List.append_assoc] at there follows ⊢
      refine reads_many_cons ?_ ?_ there
      · refine reads_look_bind (fun start view => isOption.startsAt view) ?_
        refine (isOption.reads stops (follows (by decide) other.2 (by decide))).bind ?_
        exact reads_consume_bind_unseen (follows (by decide) other.1 (by decide)) (reads_pure _)
      · obtain ⟨first, -, rest, tokens⟩ := isOption.exists_tokens_eq
        simp only [tokens, List.length_append, List.length_cons]
        omega

end TableOption

end TableDdl
