import TableDdl.Column.Grammar
import TableDdl.Proofs.Grammar.Parse
import TableDdl.Proofs.Grammar.Turns

/-!
# Reading before given tokens

What is found at the end of a sequence of tokens is found again where more tokens follow, and nothing
of them is read. A grammar that looks for a word in vain where the sequence ends must not find it
there afterwards; the words and marks that it always reads may follow.
-/

namespace TableDdl

namespace Cursor

theorem ahead_ne_nil_of_not_atEnd {cursor : Cursor} (inside : cursor.atEnd = false) :
    cursor.ahead ≠ [] := by
  intro done
  rw [atEnd, isEnd_current_of_ahead_eq_nil done] at inside
  exact Bool.noConfusion inside

/-- A cursor that sees a word or a mark is not at the end of its sequence. -/
theorem ahead_ne_nil_of_spells {cursor : Cursor} {text : String}
    (spelled : cursor.current.spells text = true) : cursor.ahead ≠ [] := by
  intro done
  rw [Token.spells_of_isEnd (isEnd_current_of_ahead_eq_nil done)] at spelled
  exact Bool.noConfusion spelled

theorem ahead_ne_nil_of_kind {cursor : Cursor} (notEnd : cursor.current.kind ≠ .endOfInput) :
    cursor.ahead ≠ [] :=
  fun done => notEnd (Token.kind_of_isEnd (isEnd_current_of_ahead_eq_nil done))

end Cursor

/-- Ahead of the longer cursor lies, up to places, what lies ahead of the shorter one, and then
more. -/
def Cursor.Precedes (more : List Token) (shorter longer : Cursor) : Prop :=
  longer.view = shorter.view ++ more

namespace Cursor.Precedes

variable {more : List Token} {shorter longer : Cursor}

theorem advance (precedes : Precedes more shorter longer) (inside : shorter.ahead ≠ []) :
    Precedes more shorter.advance longer.advance := by
  have tail : (shorter.view ++ more).tail = shorter.view.tail ++ more :=
    List.tail_append_of_ne_nil fun empty => inside (view_eq_nil_iff.mp empty)
  rw [Precedes, view_advance, view_advance, precedes, tail]

theorem skip (precedes : Precedes more shorter longer) {count : Nat}
    (bound : count ≤ shorter.remaining) : Precedes more (shorter.skip count) (longer.skip count) := by
  rw [Precedes, view_skip, view_skip, precedes,
    List.drop_append_of_le_length (by simpa using bound)]

theorem remaining (precedes : Precedes more shorter longer) :
    longer.remaining = shorter.remaining + more.length := by
  rw [← length_view, precedes, List.length_append, length_view]

/-- Both cursors move on, or both stay. -/
theorem remaining_lt_iff {shorterLater longerLater : Cursor}
    (precedes : Precedes more shorter longer) (later : Precedes more shorterLater longerLater) :
    shorterLater.remaining < shorter.remaining ↔ longerLater.remaining < longer.remaining := by
  rw [precedes.remaining, later.remaining]
  omega

/-- Before the end of the shorter sequence, both cursors stand on the same token up to its place. -/
theorem current (precedes : Precedes more shorter longer) (inside : shorter.ahead ≠ []) :
    longer.current.placeless = shorter.current.placeless := by
  obtain ⟨token, rest, ahead⟩ := List.exists_cons_of_ne_nil inside
  have view : longer.view = token.placeless :: (rest.map Token.placeless ++ more) := by
    rw [precedes]
    simp [Cursor.view, ahead]
  rw [placeless_current_of_view_eq_cons view, current_of_ahead_eq_cons ahead]

theorem spells_inside (precedes : Precedes more shorter longer) (inside : shorter.ahead ≠ [])
    (text : String) : longer.current.spells text = shorter.current.spells text := by
  rw [← Token.spells_placeless, precedes.current inside, Token.spells_placeless]

/-- Both cursors see the same, where no more than that is looked for. -/
theorem spells (precedes : Precedes more shorter longer) {text : String}
    (unseen : Unseen text more) : longer.current.spells text = shorter.current.spells text := by
  by_cases done : shorter.ahead = []
  · have view : longer.view = more := by
      rw [precedes, view_eq_nil_iff.mpr done, List.nil_append]
    rw [not_spells_of_unseen view unseen,
      Token.spells_of_isEnd (isEnd_current_of_ahead_eq_nil done)]
  · exact precedes.spells_inside done text

theorem spells_any (precedes : Precedes more shorter longer) {texts : List String}
    (unseen : ∀ text ∈ texts, Unseen text more) :
    texts.any longer.current.spells = texts.any shorter.current.spells := by
  apply Bool.eq_iff_iff.mpr
  simp only [List.any_eq_true]
  constructor
  · rintro ⟨text, member, spelled⟩
    exact ⟨text, member, by rwa [← precedes.spells (unseen text member)]⟩
  · rintro ⟨text, member, spelled⟩
    exact ⟨text, member, by rwa [precedes.spells (unseen text member)]⟩

theorem kind_inside (precedes : Precedes more shorter longer) (inside : shorter.ahead ≠ []) :
    longer.current.kind = shorter.current.kind := by
  rw [← Token.kind_placeless, precedes.current inside, Token.kind_placeless]

theorem keyword? (precedes : Precedes more shorter longer) (inside : shorter.ahead ≠ []) :
    longer.current.keyword? = shorter.current.keyword? := by
  rw [← Token.keyword?_placeless, precedes.current inside, Token.keyword?_placeless]

theorem stopAt (precedes : Precedes more shorter longer) (inside : shorter.ahead ≠ [])
    {stops : Stops} : stops.stopAt longer.current = stops.stopAt shorter.current := by
  rw [← Token.stopAt_placeless, precedes.current inside, Token.stopAt_placeless]

end Cursor.Precedes

namespace Grammar

variable {α β : Type} {more : List Token} {scope : Scope} {shorter longer : Cursor}

/-- What the grammar finds from the shorter sequence it finds from the longer one. -/
def PersistsAt (more : List Token) (scope : Scope) (grammar : Grammar α)
    (shorter longer : Cursor) : Prop :=
  ∀ value final, grammar.Finds scope shorter value final →
    ∃ finalLonger, grammar.Finds scope longer value finalLonger ∧
      Cursor.Precedes more final finalLonger

/-- What the grammar finds it finds before the given tokens, too. -/
def Persists (more : List Token) (scope : Scope) (grammar : Grammar α) : Prop :=
  ∀ shorter longer, Cursor.Precedes more shorter longer →
    PersistsAt more scope grammar shorter longer

/-- The grammar reads all of the tokens before an end of input, and finds the value. -/
def Exhausts (grammar : Grammar α) (scope : Scope) (tokens : List Token) (value : α) : Prop :=
  ∀ place, grammar.Finds scope (Cursor.ofTokens (tokens ++ [Token.finish place])) value
    (Cursor.ofTokens [Token.finish place])

/-- What exhausts tokens reads them before others. -/
theorem Exhausts.reads {grammar : Grammar α} {tokens : List Token} {value : α}
    (exhausts : grammar.Exhausts scope tokens value) (persists : Persists more scope grammar) :
    grammar.Reads scope (tokens.map Token.placeless ++ more) value more := by
  intro longer view
  have found := exhausts .start
  rw [Cursor.ofTokens_append_finish] at found
  obtain ⟨final, foundLonger, precedes⟩ :=
    persists ⟨tokens, Token.finish .start, rfl⟩ longer view value _ found
  exact ⟨final, foundLonger, precedes⟩

/-! ## Steps -/

theorem persistsAt_pure (precedes : Cursor.Precedes more shorter longer) (value : α) :
    PersistsAt more scope (pure value : Grammar α) shorter longer := by
  intro found final reading
  obtain ⟨rfl, rfl⟩ := finds_pure_iff.mp reading
  exact ⟨longer, finds_pure_iff.mpr ⟨rfl, rfl⟩, precedes⟩

theorem persistsAt_bind {first : Grammar α} {second : α → Grammar β}
    (here : PersistsAt more scope first shorter longer)
    (there : ∀ value, Persists more scope (second value)) :
    PersistsAt more scope (first >>= second) shorter longer := by
  intro value final reading
  obtain ⟨found, middle, before, after⟩ := finds_bind_iff.mp reading
  obtain ⟨middleLonger, beforeLonger, precedes⟩ := here found middle before
  obtain ⟨finalLonger, afterLonger, last⟩ := there found _ _ precedes value final after
  exact ⟨finalLonger, finds_bind_iff.mpr ⟨found, middleLonger, beforeLonger, afterLonger⟩, last⟩

theorem persists_pure (value : α) : Persists more scope (pure value : Grammar α) :=
  fun _ _ precedes => persistsAt_pure precedes value

theorem persists_refuse (fault : Fault) : Persists more scope (refuse fault : Grammar α) :=
  fun _ _ _ _ _ found => (finds_refuse_iff.mp found).elim

theorem persists_refuse_bind {fault : Fault} {second : α → Grammar β} :
    Persists more scope ((refuse fault : Grammar α) >>= second) :=
  fun _ _ _ _ _ found => (finds_refuse_bind_iff.mp found).elim

theorem Persists.bind {first : Grammar α} {second : α → Grammar β}
    (here : Persists more scope first) (there : ∀ value, Persists more scope (second value)) :
    Persists more scope (first >>= second) :=
  fun shorter longer precedes => persistsAt_bind (here shorter longer precedes) there

theorem persists_ite {condition : Prop} [Decidable condition] {left right : Grammar α}
    (ifTrue : Persists more scope left) (ifFalse : Persists more scope right) :
    Persists more scope (if condition then left else right) := by
  split
  · exact ifTrue
  · exact ifFalse

/-- A look at which both cursors show the same, as far as it matters. -/
theorem persistsAt_look_bind {view : Scope → Cursor → α} {second : α → Grammar β}
    (same : second (view scope longer) = second (view scope shorter))
    (there : PersistsAt more scope (second (view scope shorter)) shorter longer) :
    PersistsAt more scope (look view >>= second) shorter longer := by
  intro value final reading
  rw [finds_look_bind_iff] at reading
  obtain ⟨finalLonger, readingLonger, last⟩ := there value final reading
  exact ⟨finalLonger, finds_look_bind_iff.mpr (by rwa [same]), last⟩

theorem persistsAt_current_bind {second : Token → Grammar β}
    (precedes : Cursor.Precedes more shorter longer) (inside : shorter.ahead ≠ [])
    (placeless : ∀ token : Token, second token.placeless = second token)
    (there : PersistsAt more scope (second shorter.current) shorter longer) :
    PersistsAt more scope (current >>= second) shorter longer := by
  refine persistsAt_look_bind ?_ there
  rw [← placeless, precedes.current inside, placeless]

theorem persistsAt_advance_bind {second : Unit → Grammar β}
    (precedes : Cursor.Precedes more shorter longer) (inside : shorter.ahead ≠ [])
    (there : Persists more scope (second ())) :
    PersistsAt more scope (advance >>= second) shorter longer := by
  intro value final reading
  rw [finds_advance_bind_iff] at reading
  obtain ⟨finalLonger, readingLonger, last⟩ :=
    there _ _ (precedes.advance inside) value final reading
  exact ⟨finalLonger, finds_advance_bind_iff.mpr readingLonger, last⟩

/-! ## Words and marks -/

theorem persists_sees_ite {text : String} {left right : Grammar β} (unseen : Unseen text more)
    (before : Persists more scope left) (without : Persists more scope right) :
    Persists more scope (do if ← sees text then left else right) := by
  intro shorter longer precedes
  refine persistsAt_look_bind (by rw [precedes.spells unseen]) ?_
  exact persists_ite before without shorter longer precedes

theorem persists_consume_ite {text : String} {left right : Grammar β} (unseen : Unseen text more)
    (after : Persists more scope left) (without : Persists more scope right) :
    Persists more scope (do if ← consume text then left else right) := by
  intro shorter longer precedes value final reading
  rw [finds_consume_ite_iff] at reading
  simp only [finds_consume_ite_iff, precedes.spells unseen]
  split at reading
  · rename_i spelled
    simp only [spelled, if_true]
    exact after _ _ (precedes.advance (Cursor.ahead_ne_nil_of_spells spelled)) value final reading
  · rename_i other
    simp only [other, Bool.false_eq_true, if_false]
    exact without _ _ precedes value final reading

theorem persists_expect_bind {text : String} {fault : Fault} {second : Unit → Grammar β}
    (there : Persists more scope (second ())) :
    Persists more scope (expect text fault >>= second) := by
  intro shorter longer precedes value final reading
  obtain ⟨spelled, reading⟩ := finds_expect_bind_iff.mp reading
  have inside := Cursor.ahead_ne_nil_of_spells spelled
  obtain ⟨finalLonger, readingLonger, last⟩ :=
    there _ _ (precedes.advance inside) value final reading
  refine ⟨finalLonger, finds_expect_bind_iff.mpr ⟨?_, readingLonger⟩, last⟩
  rwa [precedes.spells_inside inside]

theorem persists_consumeAny_ite {texts : List String} {left right : Grammar β}
    (unseen : ∀ text ∈ texts, Unseen text more) (after : Persists more scope left)
    (without : Persists more scope right) :
    Persists more scope (do if ← consumeAny texts then left else right) := by
  intro shorter longer precedes value final reading
  rw [finds_consumeAny_bind_iff] at reading
  simp only [finds_consumeAny_bind_iff, precedes.spells_any unseen]
  split at reading
  · rename_i spelled
    obtain ⟨text, -, spells⟩ := List.any_eq_true.mp spelled
    simp only [spelled, if_true]
    exact after _ _ (precedes.advance (Cursor.ahead_ne_nil_of_spells spells)) value final reading
  · rename_i other
    simp only [other]
    exact without _ _ precedes value final reading

/-- A grammar that moves finds nothing at the end, so that only the tokens before it matter. -/
theorem persists_of_progresses {grammar : Grammar α} (progresses : Progresses grammar)
    (here : ∀ shorter longer, Cursor.Precedes more shorter longer → shorter.ahead ≠ [] →
      PersistsAt more scope grammar shorter longer) : Persists more scope grammar :=
  fun shorter longer precedes value final found =>
    here shorter longer precedes (progresses.ahead_ne_nil found) value final found

/-- A bare word that has to be there. -/
theorem persists_keyword?_bind {second : Option String → Grammar β}
    (some : ∀ word, ∃ next, second (some word) = (advance >>= next) ∧
      Persists more scope (next ()))
    (none : ∃ fault, second none = refuse fault) : Persists more scope (keyword? >>= second) := by
  obtain ⟨fault, refuses⟩ := none
  have progresses : Progresses (keyword? >>= second) := by
    refine progresses_keyword?_bind (fun word => ?_) (refuses ▸ progresses_refuse fault)
    obtain ⟨next, same, -⟩ := some word
    exact ⟨next, same⟩
  refine persists_of_progresses progresses fun shorter longer precedes inside => ?_
  refine persistsAt_look_bind (by rw [precedes.keyword? inside]) ?_
  cases shorter.current.keyword? with
  | none =>
      rw [refuses]
      exact persists_refuse fault shorter longer precedes
  | some word =>
      obtain ⟨next, same, persists⟩ := some word
      rw [same]
      exact persistsAt_advance_bind precedes inside persists

/-- A token of a kind that is seen, or something that finds nothing at the end. -/
theorem persists_seesKind_bind {kind : Token.Kind} {second : Bool → Grammar β}
    (notEnd : kind ≠ .endOfInput)
    (seen : ∀ shorter longer, Cursor.Precedes more shorter longer → shorter.ahead ≠ [] →
      PersistsAt more scope (second true) shorter longer)
    (other : Persists more scope (second false)) (moves : Progresses (second false)) :
    Persists more scope (seesKind kind >>= second) := by
  intro shorter longer precedes
  -- At the end, the token may be the first of those that follow, but nothing was found there.
  by_cases inside : shorter.ahead = []
  · have isEnd := Cursor.isEnd_current_of_ahead_eq_nil inside
    intro value final found
    rw [seesKind, finds_look_bind_iff, Token.kind_of_isEnd isEnd, decide_eq_false notEnd.symm]
      at found
    exact absurd inside (moves.ahead_ne_nil found)
  · refine persistsAt_look_bind (by rw [precedes.kind_inside inside]) ?_
    cases decide (shorter.current.kind = kind) with
    | true => exact seen shorter longer precedes inside
    | false => exact other shorter longer precedes

/-! ## Names and numbers -/

theorem persists_quotedName : Persists more scope (do
    unless ← seesKind .identifier do refuse (.expected "identifier between backticks")
    let token ← current
    advance
    expect "\x60" (.expected "closing backtick")
    return some token.text) := by
  refine persists_seesKind_bind (by decide) (fun shorter longer precedes inside => ?_)
    persists_refuse_bind ((progresses_refuse _).bind _)
  refine persistsAt_current_bind precedes inside (fun _ => rfl) ?_
  exact persistsAt_advance_bind precedes inside (persists_expect_bind (persists_pure _))

theorem persistsAt_name? (precedes : Cursor.Precedes more shorter longer)
    (inside : shorter.ahead ≠ []) : PersistsAt more scope name? shorter longer := by
  have bare : PersistsAt more scope (do
      if (← seesKind .word) && !(← atStop) then
        let token ← current
        advance
        return some token.text
      else
        return none) shorter longer := by
    refine persistsAt_look_bind (by rw [precedes.kind_inside inside]) ?_
    refine persistsAt_look_bind (by rw [precedes.stopAt inside]) ?_
    split
    · refine persistsAt_current_bind precedes inside (fun _ => rfl) ?_
      exact persistsAt_advance_bind precedes inside (persists_pure _)
    · exact persistsAt_pure precedes none
  intro value final reading
  simp only [name?, finds_consume_ite_iff, precedes.spells_inside inside] at reading ⊢
  split at reading
  · rename_i quoted
    simp only [quoted, if_true]
    exact persists_quotedName _ _ (precedes.advance inside) value final reading
  · rename_i unquoted
    simp only [unquoted, Bool.false_eq_true, if_false]
    exact bare value final reading

theorem persists_name : Persists more scope name := by
  refine persists_of_progresses progresses_name fun shorter longer precedes inside => ?_
  refine persistsAt_bind (persistsAt_name? precedes inside) fun found => ?_
  cases found with
  | none => exact persists_refuse _
  | some name => exact persists_pure name

theorem persists_nameOrString : Persists more scope nameOrString := by
  refine persists_seesKind_bind (by decide) (fun shorter longer precedes inside => ?_)
    persists_name progresses_name
  refine persistsAt_current_bind precedes inside (fun _ => rfl) ?_
  exact persistsAt_advance_bind precedes inside (persists_pure _)

theorem persists_unsigned (what : String) : Persists more scope (unsigned what) := by
  refine persists_seesKind_bind (by decide) (fun shorter longer precedes inside => ?_)
    persists_refuse_bind ((progresses_refuse _).bind _)
  refine persistsAt_current_bind precedes inside (fun _ => rfl) ?_
  cases Number.uint32? shorter.current.text with
  | some value => exact persistsAt_advance_bind precedes inside (persists_pure value)
  | none => exact persists_refuse _ shorter longer precedes

/-! ## Groups and literals -/

theorem persists_group : Persists more scope group := by
  intro shorter longer precedes text final found
  obtain ⟨opened, length, closing, rfl, rfl⟩ := finds_group_iff.mp found
  have inside := Cursor.ahead_ne_nil_of_spells opened
  have bound := closingIndex?_lt closing
  have view : longer.ahead.tail.map Token.placeless =
      shorter.ahead.tail.map Token.placeless ++ more := precedes.advance inside
  refine ⟨longer.skip (length + 2), finds_group_iff.mpr ⟨?_, length, ?_, ?_, rfl⟩,
    precedes.skip ?_⟩
  · rwa [precedes.spells_inside inside]
  · rw [← closingIndex?_map_placeless, view]
    exact closingIndex?_append _ ((closingIndex?_map_placeless _ _).trans closing)
  · rw [← Token.renderRaw_map_placeless, List.map_take, view,
      List.take_append_of_le_length (by simpa using Nat.le_of_lt bound), ← List.map_take,
      Token.renderRaw_map_placeless]
  · rw [List.length_tail] at bound
    rw [Cursor.remaining]
    omega

/-- A word is a literal by itself only if no group follows it. -/
theorem persists_literal (noCall : Unseen "(" more) : Persists more scope Literal.grammar := by
  intro shorter longer precedes
  by_cases done : shorter.ahead = []
  · intro value final found
    have isEnd := Cursor.isEnd_current_of_ahead_eq_nil done
    rw [Literal.grammar, current, finds_look_bind_iff, Token.kind_of_isEnd isEnd] at found
    exact (finds_refuse_iff.mp found).elim
  refine persistsAt_current_bind precedes done (fun _ => rfl) ?_
  cases shorter.current.kind with
  | integer | float | quotedString | binaryLiteral =>
      exact persistsAt_advance_bind precedes done (persists_pure _)
  | word =>
      refine persistsAt_advance_bind precedes done (persists_sees_ite noCall ?_ (persists_pure _))
      exact persists_group.bind fun _ => persists_pure _
  | leftParen => exact persistsAt_bind (persists_group _ _ precedes) fun _ => persists_pure _
  | identifier | backtick | rightParen | comma | equals | semicolon | dot | symbol | endOfInput =>
      exact persists_refuse _ shorter longer precedes

/-! ## Repetitions and lists -/

theorem persists_many {item? : Grammar (Option α)} (turn : Persists more scope item?) :
    Persists more scope (many item?) := by
  intro shorter longer precedes values final found
  obtain ⟨finalLonger, run, last⟩ := (repeats_of_finds_many found).carry
    Cursor.Precedes.remaining_lt_iff (fun here found _ => turn _ _ here _ _ found) precedes
  exact ⟨finalLonger, finds_many_of_repeats run, last⟩

theorem persists_commaSeparated {item : Grammar α} (here : Persists more scope item)
    (noComma : Unseen "," more) : Persists more scope (commaSeparated item) := by
  refine here.bind fun first => (persists_many ?_).bind fun others => persists_pure _
  exact persists_consume_ite noComma (here.bind fun next => persists_pure _) (persists_pure none)

theorem persists_parenthesized {opening closing : Fault} {item : Grammar α}
    (here : Persists more scope item) (noComma : Unseen "," more) :
    Persists more scope (parenthesized opening closing item) := by
  refine persists_expect_bind ((persists_commaSeparated here noComma).bind fun items => ?_)
  exact persists_expect_bind (persists_pure items)

/-! ## Scans -/

theorem parallel_precedes {stops : Stops} {final : Cursor} :
    Parallel stops final fun _ => Cursor.Precedes more where
  progress here later := here.remaining_lt_iff later
  current here passes _ :=
    here.current (Cursor.ahead_ne_nil_of_not_atEnd passes.isEnd_eq_false)
  advance here passes _ :=
    here.advance (Cursor.ahead_ne_nil_of_not_atEnd passes.isEnd_eq_false)

/-- A scan to the end of a sequence ends there too where tokens follow of which the first one stops
it. -/
theorem persists_scan {σ : Type} {words : List String} {initial : σ} {visit : Visitor σ}
    (honest : Honest visit) (reads : ∀ depth gathered, Persists more scope (visit depth gathered))
    (ends : Ends (scope.stops.adding words) more) :
    Persists more scope (scan words initial visit) := by
  intro shorter longer precedes result final found
  have run := finds_scan_iff.mp found
  have halts {longer : Cursor} (here : Cursor.Precedes more final longer) :
      Halts (scope.stops.adding words) longer := by
    by_cases done : final.ahead = []
    · refine halts_of_ends ends ?_
      rw [here, Cursor.view_eq_nil_iff.mpr done, List.nil_append]
    · exact run.halts.of_placeless (here.current done)
  obtain ⟨finalLonger, runLonger, last⟩ := run.carry parallel_precedes (fun _ noStop => noStop)
    honest (fun _ _ _ _ _ _ here _ reading _ => reads _ _ _ _ here _ _ reading) halts precedes
  exact ⟨finalLonger, finds_scan_iff.mpr runLonger, last⟩

end Grammar

/-! ## Columns without attributes -/

namespace Column

open Grammar

/-- The words and marks that would go on with a column before its attributes. -/
def headWords : List String :=
  ["(", ",", "UNSIGNED", "ZEROFILL", "SIGNED", "CHARACTER", "CHARSET", "COLLATE"]

variable {more : List Token} {scope : Scope}

theorem persists_width? (unseen : Unseen "(" more) : Persists more scope width? := by
  refine persists_consume_ite unseen ?_ (persists_pure none)
  exact (persists_unsigned _).bind fun width => persists_expect_bind (persists_pure _)

theorem persists_withPrecision (column : Column) (unseen : Unseen "(" more)
    (noComma : Unseen "," more) : Persists more scope column.withPrecision := by
  refine persists_consume_ite unseen ?_ (persists_pure column)
  refine (persists_unsigned _).bind fun width => persists_consume_ite noComma ?_ ?_
  · refine ((persists_unsigned _).bind fun digits => persists_pure _).bind fun decimals => ?_
    exact persists_expect_bind (persists_pure _)
  · exact (persists_pure none).bind fun decimals => persists_expect_bind (persists_pure _)

theorem persists_withFlags (column : Column)
    (unseen : ∀ text ∈ ["UNSIGNED", "ZEROFILL", "SIGNED"], Unseen text more) :
    Persists more scope column.withFlags := by
  refine (persists_many ?_).bind fun flags => persists_pure _
  refine persists_consume_ite (unseen _ (by simp)) (persists_pure _) ?_
  refine persists_consume_ite (unseen _ (by simp)) (persists_pure _) ?_
  exact persists_consume_ite (unseen _ (by simp)) (persists_pure _) (persists_pure none)

theorem persists_withParameters (column : Column)
    (unseen : ∀ text ∈ headWords, Unseen text more) :
    Persists more scope column.withParameters := by
  have noOpening : Unseen "(" more := unseen _ (by decide)
  have noComma : Unseen "," more := unseen _ (by decide)
  have flags (column : Column) : Persists more scope column.withFlags := by
    have known : ∀ text ∈ ["UNSIGNED", "ZEROFILL", "SIGNED"], text ∈ headWords := by decide
    exact persists_withFlags column fun text member => unseen text (known text member)
  unfold withParameters
  cases TypeFamily.ofName column.typeName with
  | integer => exact (persists_width? noOpening).bind fun width => flags _
  | fixedPoint => exact (persists_withPrecision column noOpening noComma).bind flags
  | temporal | sizedString => exact (persists_width? noOpening).bind fun width => persists_pure _
  | enumerated =>
      have members : Persists more scope memberList :=
        persists_parenthesized (persists_literal noOpening) noComma
      exact members.bind fun variants => persists_pure _
  | plain | other => exact persists_pure column

theorem persists_characterSet? (unseen : ∀ text ∈ headWords, Unseen text more) :
    Persists more scope characterSet? := by
  have named : Persists more scope (nameOrString >>= fun _ => pure (some ())) :=
    persists_nameOrString.bind fun _ => persists_pure _
  have known : ∀ text ∈ ["CHARSET", "COLLATE"], text ∈ headWords := by decide
  refine persists_consume_ite (unseen _ (by decide)) (persists_expect_bind named) ?_
  exact persists_consumeAny_ite (fun text member => unseen text (known text member)) named
    (persists_pure none)

end Column

end TableDdl
