import TableDdl.Proofs.Extension.Persistence

/-!
# Reading a text that goes on

A longer sequence of tokens extends a shorter one if it has the same tokens, up to their places,
and after them nothing, a terminator and anything else, or a word that begins something new and
anything else. Where a grammar succeeds on the shorter sequence, it succeeds on the longer one with
the same value, and stops at the same place.

The exceptions are a scan that runs into the end of the shorter sequence without having among its
stop words what follows there, and a name that is missing at the end: on the longer sequence they
would go on. A reading is settled if that cannot happen.
-/

namespace TableDdl

/-- The words that begin something new after what is complete: a statement or a reference. -/
def Sequel.openers : List String := ["CREATE", "ALTER", "REFERENCES"]

/-- What a longer sequence of tokens has after a shorter one. -/
inductive Sequel where
  /-- Nothing. -/
  | nothing
  /-- A semicolon and further tokens. -/
  | terminated (more : List Token)
  /-- A word that begins something new, and further tokens. -/
  | continued (word : String) (opens : Text.upper word ∈ Sequel.openers) (more : List Token)

namespace Sequel

/-- The semicolon by which a statement is ended. -/
def terminator : Token := .bare .semicolon ";"

/-- The tokens of a sequel. -/
def tokens : Sequel → List Token
  | nothing => []
  | terminated more => terminator :: more
  | continued word _ more => .bare .word word :: more

/-- Nothing new begins without a terminator. -/
def Ends : Sequel → Prop
  | nothing | terminated _ => True
  | continued .. => False

theorem ends_nothing : nothing.Ends := trivial

theorem ends_terminated (more : List Token) : (terminated more).Ends := trivial

/-- A scan with these stop words ends where the sequel begins. -/
def StopsAt (sequel : Sequel) (stops : Stops) : Prop :=
  match sequel with
  | nothing => True
  | terminated _ => stops.stopAt terminator = true
  | continued .. => False

theorem StopsAt.ends {sequel : Sequel} {stops : Stops} (stopsAt : sequel.StopsAt stops) :
    sequel.Ends := by
  cases sequel with
  | nothing | terminated => trivial
  | continued => exact stopsAt

theorem StopsAt.ends_tokens {sequel : Sequel} {stops : Stops} (stopsAt : sequel.StopsAt stops) :
    Grammar.Ends stops sequel.tokens := by
  cases sequel with
  | nothing => exact Grammar.ends_nil stops
  | terminated more => simpa [Grammar.Ends, tokens, StopsAt, terminator, Token.isEnd] using stopsAt
  | continued => exact stopsAt.elim

/-- No sequel begins with the word or mark. -/
def Foreign (text : String) : Prop :=
  terminator.spells text = false ∧ Text.upper text ∉ openers

instance (text : String) : Decidable (Foreign text) := inferInstanceAs (Decidable (_ ∧ _))

theorem Foreign.unseen {text : String} (foreign : Foreign text) (sequel : Sequel) :
    Unseen text sequel.tokens := by
  cases sequel with
  | nothing => exact unseen_nil text
  | terminated more => exact unseen_cons foreign.1
  | continued word opens more =>
      exact unseen_cons (Token.spells_word_of_ne fun same => foreign.2 (same ▸ opens))

/-- The kind is none with which a sequel, or the end of input, begins. -/
def ForeignKind (kind : Token.Kind) : Prop := kind ∉ [.endOfInput, .semicolon, .word]

instance (kind : Token.Kind) : Decidable (ForeignKind kind) :=
  inferInstanceAs (Decidable (kind ∉ [.endOfInput, .semicolon, .word]))

end Sequel

namespace Cursor

/-- Ahead of the second cursor lies, up to places, what lies ahead of the first one and then the
sequel. The first sequence has no end of input before its last token. -/
structure Extends (sequel : Sequel) (shorter longer : Cursor) : Prop where
  /-- The views differ by the sequel. -/
  view : longer.view = shorter.view ++ sequel.tokens
  /-- There is no end of input in the shorter sequence but the last token. -/
  inside : ∀ token ∈ shorter.ahead, token.isEnd = false

namespace Extends

variable {sequel : Sequel} {shorter longer : Cursor}

theorem advance (extension : Extends sequel shorter longer) (more : shorter.ahead ≠ []) :
    Extends sequel shorter.advance longer.advance :=
  ⟨Precedes.advance extension.view more,
    fun token member => extension.inside token (List.mem_of_mem_tail member)⟩

/-- As long as the shorter sequence goes on, both cursors stand on the same token up to its
place. -/
theorem current (extension : Extends sequel shorter longer) (more : shorter.ahead ≠ []) :
    longer.current.placeless = shorter.current.placeless :=
  Precedes.current extension.view more

theorem view_at_end (extension : Extends sequel shorter longer) (done : shorter.ahead = []) :
    longer.view = sequel.tokens := by
  rw [extension.view, view_eq_nil_iff.mpr done, List.nil_append]

/-- At the end of the shorter sequence, the longer one is at its end, at a terminator or at a word
that begins something new. -/
theorem current_at_end (extension : Extends sequel shorter longer) (done : shorter.ahead = []) :
    longer.current.isEnd = true ∨ longer.current.placeless = Sequel.terminator ∨
      ∃ word, Text.upper word ∈ Sequel.openers ∧ ¬ sequel.Ends ∧
        longer.current.placeless = .bare .word word := by
  have view := extension.view_at_end done
  cases sequel with
  | nothing => exact .inl (isEnd_current_of_ahead_eq_nil (view_eq_nil_iff.mp view))
  | terminated more => exact .inr (.inl (placeless_current_of_view_eq_cons view))
  | continued word opens more =>
      exact .inr (.inr ⟨word, opens, id, placeless_current_of_view_eq_cons view⟩)

/-- As long as the shorter sequence goes on, both cursors see the same word. -/
theorem spells_inside (extension : Extends sequel shorter longer) (more : shorter.ahead ≠ [])
    (text : String) : longer.current.spells text = shorter.current.spells text :=
  Precedes.spells_inside extension.view more text

/-- Both cursors see the same word, unless the sequel begins with it. -/
theorem spells (extension : Extends sequel shorter longer) {text : String}
    (other : Sequel.Foreign text) :
    longer.current.spells text = shorter.current.spells text :=
  Precedes.spells extension.view (other.unseen sequel)

theorem spells_any (extension : Extends sequel shorter longer) {texts : List String}
    (other : ∀ text ∈ texts, Sequel.Foreign text) :
    texts.any longer.current.spells = texts.any shorter.current.spells :=
  Precedes.spells_any extension.view fun text member => (other text member).unseen sequel

/-- Both cursors see the same two words. -/
theorem spells_next (extension : Extends sequel shorter longer) {text next : String}
    (other : Sequel.Foreign text) (otherNext : Sequel.Foreign next) :
    (longer.current.spells text && longer.next.spells next) =
      (shorter.current.spells text && shorter.next.spells next) := by
  rw [extension.spells other]
  by_cases done : shorter.ahead = []
  · rw [Token.spells_of_isEnd (isEnd_current_of_ahead_eq_nil done)]
    rfl
  · rw [Cursor.next, Cursor.next, (extension.advance done).spells otherNext]

theorem keyword? (extension : Extends sequel shorter longer) (more : shorter.ahead ≠ []) :
    longer.current.keyword? = shorter.current.keyword? :=
  Precedes.keyword? extension.view more

/-- A bare word that only the longer sequence shows begins something new. -/
theorem keyword?_at_end (extension : Extends sequel shorter longer) (done : shorter.ahead = [])
    {word : String} (found : longer.current.keyword? = some word) :
    word ∈ Sequel.openers ∧ ¬ sequel.Ends := by
  rcases extension.current_at_end done with ended | terminated | ⟨opener, opens, noEnd, continued⟩
  · simp [Token.keyword?_of_isEnd ended] at found
  · rw [← Token.keyword?_placeless, terminated] at found
    cases found
  · rw [← Token.keyword?_placeless, continued] at found
    obtain rfl : Text.upper opener = word := by simpa [Token.keyword?] using found
    exact ⟨opens, noEnd⟩

theorem kind_inside (extension : Extends sequel shorter longer) (more : shorter.ahead ≠ []) :
    longer.current.kind = shorter.current.kind :=
  Precedes.kind_inside extension.view more

/-- Both cursors see a token of the kind, if no sequel begins with one. -/
theorem kind_eq_iff (extension : Extends sequel shorter longer) {kind : Token.Kind}
    (other : Sequel.ForeignKind kind) :
    longer.current.kind = kind ↔ shorter.current.kind = kind := by
  by_cases done : shorter.ahead = []
  · have begins : longer.current.kind ∈ [.endOfInput, .semicolon, .word] := by
      rcases extension.current_at_end done with ended | terminated | ⟨word, -, -, continued⟩
      · simp [Token.kind_of_isEnd ended]
      · rw [← Token.kind_placeless, terminated]
        decide
      · rw [← Token.kind_placeless, continued]
        simp
    have shorterKind := Token.kind_of_isEnd (isEnd_current_of_ahead_eq_nil done)
    constructor
    · exact fun same => absurd (same ▸ begins) other
    · exact fun same => absurd (by simp [← same, shorterKind]) other
  · rw [extension.kind_inside done]

theorem atEnd (extension : Extends sequel shorter longer) (more : shorter.ahead ≠ []) :
    longer.atEnd = shorter.atEnd := by
  rw [Cursor.atEnd, ← Token.isEnd_placeless, extension.current more]
  rfl

end Extends

theorem Reaches.ahead_ne_nil {earlier later : Cursor} (reaches : earlier.Reaches later)
    (more : later.ahead ≠ []) : earlier.ahead ≠ [] := by
  intro done
  have suffix := reaches.ahead
  rw [done, List.suffix_nil] at suffix
  exact more suffix

end Cursor

namespace Grammar

variable {α β σ : Type} {settled : Prop} {sequel : Sequel} {scope : Scope} {shorter longer : Cursor}

/-- What the grammar finds from the shorter sequence it also finds from the longer one; unless the
reading is settled, only where it stops before the end of the shorter sequence. -/
def Carries (settled : Prop) (sequel : Sequel) (scope : Scope) (grammar : Grammar α)
    (shorter longer : Cursor) : Prop :=
  ∀ value final, grammar.Finds scope shorter value final → settled ∨ final.ahead ≠ [] →
    ∃ finalLonger, grammar.Finds scope longer value finalLonger ∧
      Cursor.Extends sequel final finalLonger

/-- The grammar carries over from every sequence to every one that extends it. -/
def Stable (settled : Prop) (sequel : Sequel) (scope : Scope) (grammar : Grammar α) : Prop :=
  ∀ shorter longer, Cursor.Extends sequel shorter longer →
    Carries settled sequel scope grammar shorter longer

/-- What persists before the tokens of the sequel carries over. -/
theorem PersistsAt.carries {grammar : Grammar α}
    (persists : PersistsAt sequel.tokens scope grammar shorter longer)
    (extension : Cursor.Extends sequel shorter longer) :
    Carries settled sequel scope grammar shorter longer := by
  intro value final found _
  obtain ⟨finalLonger, foundLonger, precedes⟩ := persists value final found
  exact ⟨finalLonger, foundLonger, precedes,
    fun token member => extension.inside token (found.reaches.ahead.subset member)⟩

theorem Persists.stable {grammar : Grammar α} (persists : Persists sequel.tokens scope grammar) :
    Stable settled sequel scope grammar :=
  fun shorter longer extension => (persists shorter longer extension.view).carries extension

/-! ## Steps -/

theorem carries_pure (extension : Cursor.Extends sequel shorter longer) (value : α) :
    Carries settled sequel scope (pure value : Grammar α) shorter longer := by
  intro found final reading _
  obtain ⟨rfl, rfl⟩ := finds_pure_iff.mp reading
  exact ⟨longer, finds_pure_iff.mpr ⟨rfl, rfl⟩, extension⟩

theorem carries_refuse (fault : Fault) :
    Carries settled sequel scope (refuse fault : Grammar α) shorter longer := by
  intro found final reading _
  exact (finds_refuse_iff.mp reading).elim

theorem carries_bind {first : Grammar α} {second : α → Grammar β}
    (here : Carries settled sequel scope first shorter longer)
    (there : ∀ value, Stable settled sequel scope (second value)) :
    Carries settled sequel scope (first >>= second) shorter longer := by
  intro value final reading stopped
  obtain ⟨found, middle, before, after⟩ := finds_bind_iff.mp reading
  have stoppedBefore : settled ∨ middle.ahead ≠ [] := stopped.imp id after.reaches.ahead_ne_nil
  obtain ⟨middleLonger, beforeLonger, extension⟩ := here found middle before stoppedBefore
  obtain ⟨finalLonger, afterLonger, final⟩ :=
    there found middle middleLonger extension value final after stopped
  exact ⟨finalLonger, finds_bind_iff.mpr ⟨found, middleLonger, beforeLonger, afterLonger⟩, final⟩

theorem stable_pure (value : α) : Stable settled sequel scope (pure value : Grammar α) :=
  fun _ _ extension => carries_pure extension value

theorem stable_refuse (fault : Fault) :
    Stable settled sequel scope (refuse fault : Grammar α) :=
  fun _ _ _ => carries_refuse fault

theorem stable_refuse_bind {fault : Fault} {second : α → Grammar β} :
    Stable settled sequel scope ((refuse fault : Grammar α) >>= second) := by
  intro shorter longer extension value final reading _
  exact (finds_refuse_bind_iff.mp reading).elim

theorem stable_bind {first : Grammar α} {second : α → Grammar β}
    (here : Stable settled sequel scope first)
    (there : ∀ value, Stable settled sequel scope (second value)) :
    Stable settled sequel scope (first >>= second) :=
  fun shorter longer extension => carries_bind (here shorter longer extension) there

theorem stable_map {grammar : Grammar α} {change : α → β}
    (stable : Stable settled sequel scope grammar) :
    Stable settled sequel scope (change <$> grammar) :=
  stable_bind stable fun value => stable_pure (change value)

theorem stable_ite {condition : Prop} [Decidable condition] {left right : Grammar α}
    (ifTrue : Stable settled sequel scope left) (ifFalse : Stable settled sequel scope right) :
    Stable settled sequel scope (if condition then left else right) := by
  split
  · exact ifTrue
  · exact ifFalse

/-- A look at which both sequences show the same. -/
theorem stable_look_bind {view : Scope → Cursor → α} {second : α → Grammar β}
    (same : ∀ shorter longer, Cursor.Extends sequel shorter longer →
      view scope longer = view scope shorter)
    (there : ∀ value, Stable settled sequel scope (second value)) :
    Stable settled sequel scope (look view >>= second) := by
  intro shorter longer extension value final reading stopped
  rw [finds_look_bind_iff] at reading
  obtain ⟨finalLonger, readingLonger, last⟩ :=
    there _ shorter longer extension value final reading stopped
  refine ⟨finalLonger, ?_, last⟩
  rwa [finds_look_bind_iff, same shorter longer extension]

/-- Moving past a token, where there is one. -/
theorem carries_advance (extension : Cursor.Extends sequel shorter longer)
    (more : shorter.ahead ≠ []) :
    Carries settled sequel scope advance shorter longer := by
  intro value final reading _
  rw [finds_advance_iff] at reading
  subst reading
  exact ⟨longer.advance, finds_advance_iff.mpr rfl, extension.advance more⟩

theorem carries_advance_bind {second : Unit → Grammar β}
    (extension : Cursor.Extends sequel shorter longer) (more : shorter.ahead ≠ [])
    (there : Stable settled sequel scope (second ())) :
    Carries settled sequel scope (advance >>= second) shorter longer :=
  carries_bind (carries_advance extension more) fun _ => there

theorem carries_advance_twice_bind {second : Unit → Grammar β}
    (extension : Cursor.Extends sequel shorter longer) (more : shorter.ahead ≠ [])
    (moreNext : shorter.advance.ahead ≠ []) (there : Stable settled sequel scope (second ())) :
    Carries settled sequel scope (advance >>= fun _ => advance >>= second) shorter longer := by
  intro value final reading stopped
  rw [finds_advance_bind_iff] at reading
  obtain ⟨finalLonger, readingLonger, last⟩ :=
    carries_advance_bind (extension.advance more) moreNext there value final reading stopped
  exact ⟨finalLonger, finds_advance_bind_iff.mpr readingLonger, last⟩

/-- Where there is a token, both sequences show the same one up to its place. -/
theorem carries_current_bind {second : Token → Grammar β}
    (extension : Cursor.Extends sequel shorter longer) (more : shorter.ahead ≠ [])
    (placeless : ∀ token : Token, second token.placeless = second token)
    (there : Carries settled sequel scope (second shorter.current) shorter longer) :
    Carries settled sequel scope (current >>= second) shorter longer := by
  intro value final reading stopped
  rw [current, finds_look_bind_iff] at reading
  obtain ⟨finalLonger, readingLonger, last⟩ := there value final reading stopped
  refine ⟨finalLonger, ?_, last⟩
  rwa [current, finds_look_bind_iff, ← placeless, extension.current more, placeless]

/-- What depends on the current token, and refuses the end of input. -/
theorem stable_current_bind {second : Token → Grammar β}
    (placeless : ∀ token : Token, second token.placeless = second token)
    (ended : ∀ token : Token, token.isEnd = true → ∃ fault, second token = refuse fault)
    (there : ∀ shorter longer, Cursor.Extends sequel shorter longer → shorter.ahead ≠ [] →
      Carries settled sequel scope (second shorter.current) shorter longer) :
    Stable settled sequel scope (current >>= second) := by
  intro shorter longer extension
  by_cases done : shorter.ahead = []
  · obtain ⟨fault, refuses⟩ := ended _ (Cursor.isEnd_current_of_ahead_eq_nil done)
    intro value final reading _
    rw [current, finds_look_bind_iff, refuses, finds_refuse_iff] at reading
    exact reading.elim
  · exact carries_current_bind extension done placeless (there shorter longer extension done)

/-- A look at which both sequences show the same, as far as it matters. -/
theorem carries_look_bind {view : Scope → Cursor → α} {second : α → Grammar β}
    (same : second (view scope longer) = second (view scope shorter))
    (there : Carries settled sequel scope (second (view scope shorter)) shorter longer) :
    Carries settled sequel scope (look view >>= second) shorter longer := by
  intro value final reading stopped
  rw [finds_look_bind_iff] at reading
  obtain ⟨finalLonger, readingLonger, last⟩ := there value final reading stopped
  refine ⟨finalLonger, ?_, last⟩
  rwa [finds_look_bind_iff, same]

theorem stable_sees_bind {text : String} {second : Bool → Grammar β}
    (other : Sequel.Foreign text)
    (there : ∀ seen, Stable settled sequel scope (second seen)) :
    Stable settled sequel scope (sees text >>= second) :=
  stable_look_bind (fun _ _ extension => extension.spells other) there

theorem stable_seesAny_bind {texts : List String} {second : Bool → Grammar β}
    (other : ∀ text ∈ texts, Sequel.Foreign text)
    (there : ∀ seen, Stable settled sequel scope (second seen)) :
    Stable settled sequel scope (seesAny texts >>= second) :=
  stable_look_bind (fun _ _ extension => extension.spells_any other) there

/-- A word or mark that is seen is a token to move past. -/
theorem stable_sees_advance {text : String} {second : Bool → Grammar β}
    (other : Sequel.Foreign text)
    (seen : ∀ shorter longer, Cursor.Extends sequel shorter longer → shorter.ahead ≠ [] →
      Carries settled sequel scope (second true) shorter longer)
    (unseen : Stable settled sequel scope (second false)) :
    Stable settled sequel scope (sees text >>= second) := by
  intro shorter longer extension
  refine carries_look_bind (congrArg second (extension.spells other)) ?_
  cases spelled : shorter.current.spells text with
  | true => exact seen shorter longer extension (Cursor.ahead_ne_nil_of_spells spelled)
  | false => exact unseen shorter longer extension

/-- One of several words that is seen is a token to move past. -/
theorem stable_seesAny_advance {texts : List String} {second : Bool → Grammar β}
    (other : ∀ text ∈ texts, Sequel.Foreign text)
    (seen : ∀ shorter longer, Cursor.Extends sequel shorter longer → shorter.ahead ≠ [] →
      Carries settled sequel scope (second true) shorter longer)
    (unseen : Stable settled sequel scope (second false)) :
    Stable settled sequel scope (seesAny texts >>= second) := by
  intro shorter longer extension
  refine carries_look_bind (congrArg second (extension.spells_any other)) ?_
  cases spelled : texts.any shorter.current.spells with
  | true =>
      obtain ⟨text, _, spells⟩ := List.any_eq_true.mp spelled
      exact seen shorter longer extension (Cursor.ahead_ne_nil_of_spells spells)
  | false => exact unseen shorter longer extension

/-- A token of a kind that is seen is a token to move past. -/
theorem stable_seesKind_bind {kind : Token.Kind} {second : Bool → Grammar β}
    (other : Sequel.ForeignKind kind)
    (seen : ∀ shorter longer, Cursor.Extends sequel shorter longer → shorter.ahead ≠ [] →
      Carries settled sequel scope (second true) shorter longer)
    (unseen : Stable settled sequel scope (second false)) :
    Stable settled sequel scope (seesKind kind >>= second) := by
  intro shorter longer extension
  have same : decide (longer.current.kind = kind) = decide (shorter.current.kind = kind) :=
    decide_eq_decide.mpr (extension.kind_eq_iff other)
  refine carries_look_bind (congrArg second same) ?_
  by_cases isKind : shorter.current.kind = kind
  · rw [decide_eq_true isKind]
    refine seen shorter longer extension (Cursor.ahead_ne_nil_of_kind fun ended => other ?_)
    simp [← isKind, ended]
  · rw [decide_eq_false isKind]
    exact unseen shorter longer extension

/-- A bare word that has to be there is a token to move past. -/
theorem stable_keyword?_bind {second : Option String → Grammar β}
    (seen : ∀ word shorter longer, Cursor.Extends sequel shorter longer → shorter.ahead ≠ [] →
      Carries settled sequel scope (second (some word)) shorter longer)
    (unseen : ∃ fault, second none = refuse fault) :
    Stable settled sequel scope (keyword? >>= second) := by
  obtain ⟨fault, refuses⟩ := unseen
  intro shorter longer extension
  by_cases done : shorter.ahead = []
  · have none := Token.keyword?_of_isEnd (Cursor.isEnd_current_of_ahead_eq_nil done)
    intro value final reading _
    rw [keyword?, finds_look_bind_iff, none, refuses, finds_refuse_iff] at reading
    exact reading.elim
  · refine carries_look_bind (congrArg second (extension.keyword? done)) ?_
    cases shorter.current.keyword? with
    | some word => exact seen word shorter longer extension done
    | none =>
        rw [refuses]
        exact carries_refuse fault

/-- What is read where two words in a row are seen, and what is read elsewhere. -/
theorem stable_sees_nextSees_ite {text next : String} {left right : Grammar β}
    (other : Sequel.Foreign text) (otherNext : Sequel.Foreign next)
    (seen : ∀ shorter longer, Cursor.Extends sequel shorter longer → shorter.ahead ≠ [] →
      shorter.advance.ahead ≠ [] → Carries settled sequel scope left shorter longer)
    (unseen : Stable settled sequel scope right) :
    Stable settled sequel scope
      (do if (← sees text) && (← nextSees next) then left else right) := by
  intro shorter longer extension value final reading stopped
  simp only [sees, nextSees, finds_look_bind_iff] at reading ⊢
  rw [extension.spells_next other otherNext]
  cases both : shorter.current.spells text && shorter.next.spells next with
  | true =>
      rw [both] at reading
      obtain ⟨here, there⟩ := Bool.and_eq_true_iff.mp both
      exact seen shorter longer extension (Cursor.ahead_ne_nil_of_spells here)
        (Cursor.ahead_ne_nil_of_spells there) value final reading stopped
  | false =>
      rw [both] at reading
      exact unseen shorter longer extension value final reading stopped

theorem stable_settings_bind {second : Settings → Grammar β}
    (there : Stable settled sequel scope (second scope.settings)) :
    Stable settled sequel scope (settings >>= second) := by
  intro shorter longer extension value final reading stopped
  simp only [settings, finds_look_bind_iff] at reading ⊢
  exact there shorter longer extension value final reading stopped

theorem stable_consume {text : String} (other : Sequel.Foreign text) :
    Stable settled sequel scope (consume text) := by
  intro shorter longer extension value final reading _
  have same := extension.spells other
  by_cases spelled : shorter.current.spells text = true
  · have moved : true = value ∧ shorter.advance = final := by
      simpa [consume, sees, spelled] using reading
    obtain ⟨rfl, rfl⟩ := moved
    refine ⟨longer.advance, ?_, extension.advance (Cursor.ahead_ne_nil_of_spells spelled)⟩
    simp [consume, sees, same, spelled]
  · have stayed : false = value ∧ shorter = final := by
      simpa [consume, sees, spelled] using reading
    obtain ⟨rfl, rfl⟩ := stayed
    refine ⟨longer, ?_, extension⟩
    simp [consume, sees, same, spelled]

theorem stable_consumeAny {texts : List String}
    (other : ∀ text ∈ texts, Sequel.Foreign text) :
    Stable settled sequel scope (consumeAny texts) := by
  intro shorter longer extension value final reading _
  have same := extension.spells_any other
  by_cases spelled : texts.any shorter.current.spells = true
  · have moved : true = value ∧ shorter.advance = final := by
      rw [consumeAny, seesAny, finds_look_bind_iff, if_pos spelled] at reading
      simpa using reading
    obtain ⟨rfl, rfl⟩ := moved
    obtain ⟨text, _, spells⟩ := List.any_eq_true.mp spelled
    refine ⟨longer.advance, ?_, extension.advance (Cursor.ahead_ne_nil_of_spells spells)⟩
    rw [consumeAny, seesAny, finds_look_bind_iff, if_pos (same.trans spelled)]
    simp
  · have stayed : false = value ∧ shorter = final := by
      rw [consumeAny, seesAny, finds_look_bind_iff, if_neg spelled] at reading
      simpa using reading
    obtain ⟨rfl, rfl⟩ := stayed
    refine ⟨longer, ?_, extension⟩
    rw [consumeAny, seesAny, finds_look_bind_iff, if_neg (by rwa [same])]
    simp

theorem stable_consume_bind {text : String} {second : Bool → Grammar β}
    (other : Sequel.Foreign text)
    (there : ∀ seen, Stable settled sequel scope (second seen)) :
    Stable settled sequel scope (consume text >>= second) :=
  stable_bind (stable_consume other) there

/-- What is read after a word or mark, and what is read without it. -/
theorem stable_consume_ite {text : String} {left right : Grammar β}
    (other : Sequel.Foreign text)
    (after : Stable settled sequel scope left) (without : Stable settled sequel scope right) :
    Stable settled sequel scope (do if ← consume text then left else right) :=
  stable_consume_bind other fun _ => stable_ite after without

theorem stable_sees_ite {text : String} {left right : Grammar β}
    (other : Sequel.Foreign text)
    (before : Stable settled sequel scope left) (without : Stable settled sequel scope right) :
    Stable settled sequel scope (do if ← sees text then left else right) :=
  stable_sees_bind other fun _ => stable_ite before without

theorem stable_consumeAny_bind {texts : List String} {second : Bool → Grammar β}
    (other : ∀ text ∈ texts, Sequel.Foreign text)
    (there : ∀ seen, Stable settled sequel scope (second seen)) :
    Stable settled sequel scope (consumeAny texts >>= second) :=
  stable_bind (stable_consumeAny other) there

theorem stable_consumeAny_ite {texts : List String} {left right : Grammar β}
    (other : ∀ text ∈ texts, Sequel.Foreign text)
    (after : Stable settled sequel scope left) (without : Stable settled sequel scope right) :
    Stable settled sequel scope (do if ← consumeAny texts then left else right) :=
  stable_consumeAny_bind other fun _ => stable_ite after without

/-- A word or mark that has to be there is refused at the end of the shorter sequence. -/
theorem stable_expect {text : String} {fault : Fault} :
    Stable settled sequel scope (expect text fault) := by
  intro shorter longer extension value final reading _
  obtain ⟨spelled, rfl⟩ := finds_expect_iff.mp reading
  have more := Cursor.ahead_ne_nil_of_spells spelled
  refine ⟨longer.advance, finds_expect_iff.mpr ⟨?_, rfl⟩, extension.advance more⟩
  rwa [extension.spells_inside more]

theorem stable_expect_bind {text : String} {fault : Fault} {second : Unit → Grammar β}
    (there : Stable settled sequel scope (second ())) :
    Stable settled sequel scope (expect text fault >>= second) :=
  stable_bind stable_expect fun _ => there

theorem stable_withStops {words : List String} {grammar : Grammar α}
    (stable : Stable settled sequel { scope with stops := scope.stops.adding words } grammar) :
    Stable settled sequel scope (withStops words grammar) :=
  stable

theorem stable_orRefuse {grammar : Grammar α} {fault : Fault}
    (stable : Stable settled sequel scope grammar) :
    Stable settled sequel scope (orRefuse grammar fault) := by
  intro shorter longer extension value final reading stopped
  obtain ⟨finalLonger, readingLonger, last⟩ :=
    stable shorter longer extension value final (finds_orRefuse_iff.mp reading) stopped
  exact ⟨finalLonger, finds_orRefuse_iff.mpr readingLonger, last⟩

end Grammar

end TableDdl
