import TableDdl.Proofs.Nesting.Steps

/-!
# Definitions on their own

The definitions of a table stand in one sequence of tokens, and each of them ends before a comma or
a closing parenthesis that is not inside parentheses of its own. A second cursor may stand in a
sequence that has the same tokens up to there and nothing after them. A grammar is confined if it
finds from the second cursor what it finds from the first one. The rules of this file put confined
grammars together, step by step, and follow them from one depth of parentheses to another.
-/

namespace TableDdl

/-! ## Where a definition ends -/

namespace Token

/-- A token as it comes from a text: it spells parentheses and commas only if it is one, and it is
no end of input. -/
structure Regular (token : Token) : Prop extends Paired token where
  /-- A comma. -/
  comma : token.spells "," = true ↔ token.kind = .comma
  /-- The token is not the last one. -/
  inside : token.isEnd = false

/-- The depth of parentheses after the token. -/
def depthAfter (depth : Nat) (token : Token) : Nat :=
  match token.kind with
  | .leftParen => depth + 1
  | .rightParen => depth - 1
  | _ => depth

/-- The token lies outside all parentheses, and is a comma or closes what surrounds it. -/
def endsSegment (depth : Nat) (token : Token) : Bool :=
  depth = 0 && (token.kind = .comma || token.kind = .rightParen)

/-- The tokens before the first one that ends what they belong to, and the tokens from that one
on. -/
def divide : Nat → List Token → List Token × List Token
  | _, [] => ([], [])
  | depth, token :: rest =>
      if endsSegment depth token then ([], token :: rest)
      else
        let parts := divide (token.depthAfter depth) rest
        (token :: parts.1, parts.2)

/-- The kinds of parentheses, commas and ends of input. -/
def Kind.divides : Kind → Bool
  | leftParen | rightParen | comma | endOfInput => true
  | _ => false

/-- The words and marks that are neither a parenthesis nor a comma. -/
def isPlain (text : String) : Bool := text ∉ ["(", ")", ","]

variable {token : Token} {tokens rest inner beyond : List Token} {depth : Nat}

theorem endsSegment_of_divides (other : token.kind.divides = false) :
    endsSegment depth token = false := by
  cases kind : token.kind <;> simp_all [endsSegment, Kind.divides]

theorem depthAfter_of_other (notOpen : token.kind ≠ .leftParen)
    (notClosed : token.kind ≠ .rightParen) : token.depthAfter depth = depth := by
  unfold depthAfter
  split
  · contradiction
  · contradiction
  · rfl

/-- A token that spells anything else is neither a parenthesis nor a comma. -/
theorem Regular.divides_eq_false {text : String} (regular : token.Regular)
    (spelled : token.spells text = true) (plain : isPlain text = true) :
    token.kind.divides = false := by
  simp only [isPlain, decide_eq_true_eq, List.mem_cons, List.not_mem_nil, or_false, not_or]
    at plain
  obtain ⟨noOpening, noClosing, noComma⟩ := plain
  obtain ⟨notOpen, notClosed⟩ := regular.kind_ne spelled noOpening noClosing
  have notComma : token.kind ≠ .comma := fun isComma =>
    noComma (eq_of_spells (by simp [isComma]) spelled (regular.comma.mpr isComma))
  have notEnd : token.kind ≠ .endOfInput := by simpa [isEnd] using regular.inside
  cases kind : token.kind <;> simp_all [Kind.divides]

theorem divide_cons_of_ends (ends : endsSegment depth token = true) :
    divide depth (token :: rest) = ([], token :: rest) := by
  simp [divide, ends]

theorem divide_cons (inside : endsSegment depth token = false) :
    divide depth (token :: rest) =
      (token :: (divide (token.depthAfter depth) rest).1,
        (divide (token.depthAfter depth) rest).2) := by
  simp [divide, inside]

/-- Both parts together are the tokens. -/
theorem append_of_divide (divided : divide depth tokens = (inner, beyond)) :
    tokens = inner ++ beyond := by
  induction tokens generalizing depth inner with
  | nil => simp_all [divide]
  | cons token rest ih =>
      cases ends : endsSegment depth token with
      | true =>
          rw [divide_cons_of_ends ends] at divided
          cases divided
          rfl
      | false =>
          rw [divide_cons ends] at divided
          cases divided
          rw [List.cons_append, ← ih rfl]

end Token

/-- The tokens of a text are regular. -/
theorem Lexer.regular_ofTokens {text : String} {tokens : List Token}
    (read : Token.tokenize text = .ok tokens) :
    ∀ token ∈ (Cursor.ofTokens tokens).ahead, token.Regular := by
  intro token member
  have paired := paired_ofTokens read token member
  obtain ⟨body, last, rfl, lexes⟩ := lexes_of_tokensFrom read
  rw [Cursor.ofTokens_append_finish] at member
  have place : token.placeless ∈ body.map Token.placeless := List.mem_map_of_mem member
  have marked := lexes.forall_mem Step.marked _ place
  have proper := lexes.forall_mem Step.proper _ place
  have inside : token.isEnd = false := lexes.isEnd_eq_false token.placeless place
  refine ⟨paired, ⟨fun spelled => ?_, fun isComma => ?_⟩, inside⟩
  · exact (Option.some.inj (marked.kind_of_spells (show ',' ∈ marks by decide) spelled)).symm
  · have text : token.text = "," := proper.comma isComma
    simp [Token.spells, Token.isPunctuation, isComma, text, Token.Kind.isPunctuation]

/-! ## Two cursors -/

theorem Cursor.ahead_eq_cons {cursor : Cursor} (more : cursor.ahead ≠ []) :
    cursor.ahead = cursor.current :: cursor.advance.ahead := by
  obtain ⟨token, rest, ahead⟩ := List.exists_cons_of_ne_nil more
  rw [current_of_ahead_eq_cons ahead, advance, ahead, List.tail_cons]

/-- Ahead of the second cursor lies what lies ahead of the first one, up to where a definition ends
in which both stand inside that many parentheses. The rest lies beyond. -/
structure Cursor.Severed (beyond : List Token) (depth : Nat) (longer shorter : Cursor) : Prop where
  /-- Where the tokens are divided. -/
  divided : Token.divide depth longer.ahead = (shorter.ahead, beyond)
  /-- The tokens are regular. -/
  regular : ∀ token ∈ longer.ahead, token.Regular

namespace Cursor.Severed

variable {beyond : List Token} {depth : Nat} {longer shorter : Cursor}

theorem ahead (severed : Severed beyond depth longer shorter) :
    longer.ahead = shorter.ahead ++ beyond :=
  Token.append_of_divide severed.divided

theorem remaining (severed : Severed beyond depth longer shorter) :
    longer.remaining = shorter.remaining + beyond.length := by
  rw [Cursor.remaining, severed.ahead, List.length_append, Cursor.remaining]

/-- Both cursors move on, or both stay. -/
theorem remaining_lt_iff {depthLater : Nat} {longerLater shorterLater : Cursor}
    (severed : Severed beyond depth longer shorter)
    (later : Severed beyond depthLater longerLater shorterLater) :
    longerLater.remaining < longer.remaining ↔ shorterLater.remaining < shorter.remaining := by
  rw [severed.remaining, later.remaining]
  omega

theorem regular_current (severed : Severed beyond depth longer shorter)
    (more : longer.ahead ≠ []) : longer.current.Regular := by
  apply severed.regular
  rw [ahead_eq_cons more]
  exact List.mem_cons_self

/-- Where the shorter sequence goes on, both cursors stand on the same token. -/
theorem current_eq (severed : Severed beyond depth longer shorter) (more : shorter.ahead ≠ []) :
    shorter.current = longer.current := by
  obtain ⟨token, rest, split⟩ := List.exists_cons_of_ne_nil more
  have longerSplit : longer.ahead = token :: (rest ++ beyond) := by
    rw [severed.ahead, split, List.cons_append]
  rw [current_of_ahead_eq_cons split, current_of_ahead_eq_cons longerSplit]

/-- The shorter sequence goes on up to the token that ends the definition. -/
theorem ahead_ne_nil (severed : Severed beyond depth longer shorter) (more : longer.ahead ≠ [])
    (inside : Token.endsSegment depth longer.current = false) : shorter.ahead ≠ [] := by
  have divided := severed.divided
  rw [ahead_eq_cons more, Token.divide_cons inside] at divided
  rw [← (Prod.mk.inj divided).1]
  exact List.cons_ne_nil _ _

theorem ahead_eq_nil (severed : Severed beyond depth longer shorter)
    (ends : Token.endsSegment depth longer.current = true) : shorter.ahead = [] := by
  have divided := severed.divided
  by_cases done : longer.ahead = []
  · rw [done] at divided
    exact (Prod.mk.inj divided).1.symm
  · rw [ahead_eq_cons done, Token.divide_cons_of_ends ends] at divided
    exact (Prod.mk.inj divided).1.symm

theorem advance (severed : Severed beyond depth longer shorter) (more : shorter.ahead ≠ []) :
    Severed beyond (longer.current.depthAfter depth) longer.advance shorter.advance := by
  have inside : Token.endsSegment depth longer.current = false := by
    rw [← Bool.not_eq_true]
    exact fun ends => more (severed.ahead_eq_nil ends)
  have longerMore : longer.ahead ≠ [] := by simp [severed.ahead, more]
  have divided := severed.divided
  rw [ahead_eq_cons longerMore, ahead_eq_cons more, Token.divide_cons inside, Prod.mk.injEq,
    List.cons.injEq] at divided
  refine ⟨Prod.ext divided.1.2 divided.2, fun token member => ?_⟩
  exact severed.regular token (List.mem_of_mem_tail member)

theorem passed (severed : Severed beyond depth longer shorter) (more : shorter.ahead ≠ [])
    (notOpen : longer.current.kind ≠ .leftParen) (notClosed : longer.current.kind ≠ .rightParen) :
    Severed beyond depth longer.advance shorter.advance := by
  have advanced := severed.advance more
  rwa [Token.depthAfter_of_other notOpen notClosed] at advanced

theorem ahead_ne_nil_of_divides (severed : Severed beyond depth longer shorter)
    (other : longer.current.kind.divides = false) : shorter.ahead ≠ [] := by
  refine severed.ahead_ne_nil (ahead_ne_nil_of_kind fun isEnd => ?_)
    (Token.endsSegment_of_divides other)
  simp [isEnd, Token.Kind.divides] at other

theorem advance_of_divides (severed : Severed beyond depth longer shorter)
    (other : longer.current.kind.divides = false) :
    Severed beyond depth longer.advance shorter.advance := by
  refine severed.passed (severed.ahead_ne_nil_of_divides other) ?_ ?_
  · intro opens
    simp [opens, Token.Kind.divides] at other
  · intro closes
    simp [closes, Token.Kind.divides] at other

/-- A parenthesis that opens belongs to the definition. -/
theorem ahead_ne_nil_of_opens (severed : Severed beyond depth longer shorter)
    (opens : longer.current.kind = .leftParen) : shorter.ahead ≠ [] :=
  severed.ahead_ne_nil (ahead_ne_nil_of_kind (by simp [opens])) (by simp [Token.endsSegment, opens])

theorem opened (severed : Severed beyond depth longer shorter)
    (opens : longer.current.kind = .leftParen) :
    Severed beyond (depth + 1) longer.advance shorter.advance := by
  have advanced := severed.advance (severed.ahead_ne_nil_of_opens opens)
  simpa [Token.depthAfter, opens] using advanced

/-- So does one that closes a parenthesis of the definition. -/
theorem ahead_ne_nil_of_inside (severed : Severed beyond (depth + 1) longer shorter)
    (more : longer.ahead ≠ []) : shorter.ahead ≠ [] :=
  severed.ahead_ne_nil more (by simp [Token.endsSegment])

theorem closed (severed : Severed beyond (depth + 1) longer shorter)
    (closes : longer.current.kind = .rightParen) :
    Severed beyond depth longer.advance shorter.advance := by
  have more := severed.ahead_ne_nil_of_inside (ahead_ne_nil_of_kind (by simp [closes]))
  have advanced := severed.advance more
  simpa [Token.depthAfter, closes] using advanced

/-- Both cursors see the word or mark, unless it ends the definition. -/
theorem spells_eq (severed : Severed beyond depth longer shorter) {text : String}
    (inside : longer.current.spells text = true →
      Token.endsSegment depth longer.current = false) :
    shorter.current.spells text = longer.current.spells text := by
  by_cases done : shorter.ahead = []
  · rw [Token.spells_of_isEnd (isEnd_current_of_ahead_eq_nil done), eq_comm, ← Bool.not_eq_true]
    intro spelled
    exact severed.ahead_ne_nil (ahead_ne_nil_of_spells spelled) (inside spelled) done
  · rw [severed.current_eq done]

theorem divides_of_spells (severed : Severed beyond depth longer shorter) {text : String}
    (plain : Token.isPlain text = true) (spelled : longer.current.spells text = true) :
    longer.current.kind.divides = false :=
  (severed.regular_current (ahead_ne_nil_of_spells spelled)).divides_eq_false spelled plain

theorem spells (severed : Severed beyond depth longer shorter) {text : String}
    (plain : Token.isPlain text = true) :
    shorter.current.spells text = longer.current.spells text :=
  severed.spells_eq fun spelled =>
    Token.endsSegment_of_divides (severed.divides_of_spells plain spelled)

theorem spells_any (severed : Severed beyond depth longer shorter) {texts : List String}
    (plain : texts.all Token.isPlain = true) :
    texts.any shorter.current.spells = texts.any longer.current.spells := by
  rw [Bool.eq_iff_iff, List.any_eq_true, List.any_eq_true]
  refine exists_congr fun text => and_congr_right fun member => ?_
  rw [severed.spells (List.all_eq_true.mp plain text member)]

theorem spells_inside (severed : Severed beyond (depth + 1) longer shorter) (text : String) :
    shorter.current.spells text = longer.current.spells text :=
  severed.spells_eq fun _ => by simp [Token.endsSegment]

theorem opens_of_spells (severed : Severed beyond depth longer shorter)
    (spelled : longer.current.spells "(" = true) : longer.current.kind = .leftParen :=
  (severed.regular_current (ahead_ne_nil_of_spells spelled)).opening.mp spelled

theorem spells_opening (severed : Severed beyond depth longer shorter) :
    shorter.current.spells "(" = longer.current.spells "(" :=
  severed.spells_eq fun spelled => by simp [Token.endsSegment, severed.opens_of_spells spelled]

/-- Both cursors stand on a token of the kind, if no definition ends with one. -/
theorem kind_eq_iff (severed : Severed beyond depth longer shorter) {kind : Token.Kind}
    (other : kind.divides = false) :
    shorter.current.kind = kind ↔ longer.current.kind = kind := by
  constructor
  · intro isKind
    have more : shorter.ahead ≠ [] := ahead_ne_nil_of_kind fun isEnd => by
      simp [← isKind, isEnd, Token.Kind.divides] at other
    rw [← severed.current_eq more, isKind]
  · intro isKind
    rw [severed.current_eq (severed.ahead_ne_nil_of_divides (isKind ▸ other)), isKind]

theorem keyword? (severed : Severed beyond depth longer shorter) :
    shorter.current.keyword? = longer.current.keyword? := by
  by_cases isWord : longer.current.kind = .word
  · rw [severed.current_eq (severed.ahead_ne_nil_of_divides (isWord ▸ rfl))]
  · have noWord : shorter.current.kind ≠ .word := fun seen =>
      isWord ((severed.kind_eq_iff (show Token.Kind.divides .word = false from rfl)).mp seen)
    simp [Token.keyword?, isWord, noWord]

/-- A group belongs to the definition with the parenthesis that closes it. -/
theorem skip (inner : Nat) {length : Nat}
    (severed : Severed beyond (depth + inner + 1) longer shorter)
    (closing : Grammar.closingIndex? inner longer.ahead = some length) :
    Severed beyond depth (longer.skip (length + 1)) (shorter.skip (length + 1)) := by
  generalize tokens : longer.ahead = ahead at closing
  -- Up to the closing parenthesis the depth stays positive, so that no token ends the definition.
  fun_induction Grammar.closingIndex? inner ahead generalizing longer shorter length with
  | case1 inner => simp at closing
  | case2 inner token others isEnd => simp at closing
  | case3 inner token others opens ih =>
      obtain ⟨count, found, rfl⟩ := Option.map_eq_some_iff.mp closing
      have current := Cursor.current_of_ahead_eq_cons tokens
      rw [Cursor.skip_succ longer, Cursor.skip_succ shorter]
      exact ih (severed.opened (current ▸ opens)) (by simp [Cursor.advance, tokens]) found
  | case4 token others closes =>
      obtain rfl : 0 = length := by simpa using closing
      have current := Cursor.current_of_ahead_eq_cons tokens
      rw [Cursor.skip_succ longer, Cursor.skip_succ shorter]
      exact severed.closed (current ▸ closes)
  | case5 token others closes outer ih =>
      obtain ⟨count, found, rfl⟩ := Option.map_eq_some_iff.mp closing
      have current := Cursor.current_of_ahead_eq_cons tokens
      rw [Cursor.skip_succ longer, Cursor.skip_succ shorter]
      exact ih (severed.closed (current ▸ closes)) (by simp [Cursor.advance, tokens]) found
  | case6 inner token others noEnd noOpening noClosing ih =>
      obtain ⟨count, found, rfl⟩ := Option.map_eq_some_iff.mp closing
      have current := Cursor.current_of_ahead_eq_cons tokens
      have more := severed.ahead_ne_nil_of_inside (by simp [tokens])
      rw [Cursor.skip_succ longer, Cursor.skip_succ shorter]
      exact ih (severed.passed more (by rwa [current]) (by rwa [current]))
        (by simp [Cursor.advance, tokens]) found

/-- The tokens of a group are the same in both sequences. -/
theorem take_eq {length : Nat}
    (skipped : Severed beyond depth (longer.skip length) (shorter.skip length))
    (severed : longer.ahead = shorter.ahead ++ beyond) (bound : length ≤ longer.remaining) :
    longer.ahead.take length = shorter.ahead.take length := by
  have lengths := skipped.remaining
  simp only [Cursor.remaining, Cursor.skip, List.length_drop, severed, List.length_append]
    at lengths bound
  rw [severed, List.take_append_of_le_length (by omega)]

end Cursor.Severed

/-! ## Confined grammars -/

namespace Grammar

variable {α β σ : Type} {beyond : List Token} {scope : Scope} {depth before middle after : Nat}

/-- What the grammar finds in the longer sequence it also finds in the shorter one, and it leads
from one depth of parentheses to another. -/
def Confined (beyond : List Token) (scope : Scope) (before after : Nat) (grammar : Grammar α) :
    Prop :=
  ∀ longer shorter value final, Cursor.Severed beyond before longer shorter →
    grammar.Finds scope longer value final →
      ∃ finalShorter, grammar.Finds scope shorter value finalShorter ∧
        Cursor.Severed beyond after final finalShorter

/-- The same where the grammar stands neither on a parenthesis nor on a comma, nor at the end. -/
def ConfinedElsewhere (beyond : List Token) (scope : Scope) (before after : Nat)
    (grammar : Grammar α) : Prop :=
  ∀ longer shorter value final, Cursor.Severed beyond before longer shorter →
    longer.current.kind.divides = false → grammar.Finds scope longer value final →
      ∃ finalShorter, grammar.Finds scope shorter value finalShorter ∧
        Cursor.Severed beyond after final finalShorter

/-! ## Steps -/

theorem Confined.elsewhere {grammar : Grammar α}
    (confined : Confined beyond scope before after grammar) :
    ConfinedElsewhere beyond scope before after grammar :=
  fun longer shorter value final severed _ => confined longer shorter value final severed

theorem confined_pure (value : α) :
    Confined beyond scope depth depth (pure value : Grammar α) := by
  intro longer shorter found final severed reading
  obtain ⟨rfl, rfl⟩ := finds_pure_iff.mp reading
  exact ⟨shorter, finds_pure_iff.mpr ⟨rfl, rfl⟩, severed⟩

theorem confined_refuse (fault : Fault) :
    Confined beyond scope before after (refuse fault : Grammar α) :=
  fun _ _ _ _ _ found => (finds_refuse_iff.mp found).elim

theorem confined_refuse_bind {fault : Fault} {second : α → Grammar β} :
    Confined beyond scope before after ((refuse fault : Grammar α) >>= second) :=
  fun _ _ _ _ _ found => (finds_refuse_bind_iff.mp found).elim

theorem Confined.bind {first : Grammar α} {second : α → Grammar β}
    (here : Confined beyond scope before middle first)
    (there : ∀ value, Confined beyond scope middle after (second value)) :
    Confined beyond scope before after (first >>= second) := by
  intro longer shorter value final severed found
  obtain ⟨seen, cursor, reading, others⟩ := finds_bind_iff.mp found
  obtain ⟨cursorShorter, readingShorter, between⟩ := here _ _ _ _ severed reading
  obtain ⟨finalShorter, othersShorter, last⟩ := there seen _ _ _ _ between others
  refine ⟨finalShorter, finds_bind_iff.mpr ?_, last⟩
  exact ⟨seen, cursorShorter, readingShorter, othersShorter⟩

/-- What is found can be changed. -/
theorem Confined.map {first : Grammar α} (here : Confined beyond scope before after first)
    (change : α → β) : Confined beyond scope before after (do return change (← first)) :=
  here.bind fun _ => confined_pure _

theorem confined_ite {condition : Prop} [Decidable condition] {left right : Grammar α}
    (ifTrue : Confined beyond scope before after left)
    (ifFalse : Confined beyond scope before after right) :
    Confined beyond scope before after (if condition then left else right) := by
  split
  · exact ifTrue
  · exact ifFalse

/-- A look at which both sequences show the same. -/
theorem confined_look_bind {view : Scope → Cursor → α} {second : α → Grammar β}
    (same : ∀ longer shorter, Cursor.Severed beyond before longer shorter →
      second (view scope shorter) = second (view scope longer))
    (there : ∀ value, Confined beyond scope before after (second value)) :
    Confined beyond scope before after (look view >>= second) := by
  intro longer shorter value final severed found
  rw [finds_look_bind_iff] at found
  obtain ⟨finalShorter, reading, last⟩ := there _ _ _ _ _ severed found
  refine ⟨finalShorter, finds_look_bind_iff.mpr ?_, last⟩
  rwa [same longer shorter severed]

/-- A look at the current token. -/
theorem confinedElsewhere_look_bind (view : Scope → Token → α) {second : α → Grammar β}
    (there : ∀ value, ConfinedElsewhere beyond scope before after (second value)) :
    ConfinedElsewhere beyond scope before after
      (look (fun scope cursor => view scope cursor.current) >>= second) := by
  intro longer shorter value final severed other found
  rw [finds_look_bind_iff] at found
  obtain ⟨finalShorter, reading, last⟩ := there _ _ _ _ _ severed other found
  refine ⟨finalShorter, finds_look_bind_iff.mpr ?_, last⟩
  rwa [severed.current_eq (severed.ahead_ne_nil_of_divides other)]

theorem confinedElsewhere_advance_bind {second : Unit → Grammar β}
    (there : Confined beyond scope before after (second ())) :
    ConfinedElsewhere beyond scope before after (advance >>= second) := by
  intro longer shorter value final severed other found
  rw [finds_advance_bind_iff] at found
  obtain ⟨finalShorter, reading, last⟩ :=
    there _ _ _ _ (severed.advance_of_divides other) found
  exact ⟨finalShorter, finds_advance_bind_iff.mpr reading, last⟩

/-- What takes the current token goes on after it. -/
theorem confinedElsewhere_take {second : Token → Grammar β}
    (there : ∀ token, Confined beyond scope before after (second token)) :
    ConfinedElsewhere beyond scope before after (do
      let token ← current
      advance
      second token) :=
  confinedElsewhere_look_bind (fun _ token => token) fun token =>
    confinedElsewhere_advance_bind (there token)

theorem confined_settings_bind {second : Settings → Grammar β}
    (there : Confined beyond scope before after (second scope.settings)) :
    Confined beyond scope before after (settings >>= second) := by
  intro longer shorter value final severed found
  rw [settings, finds_look_bind_iff] at found
  obtain ⟨finalShorter, reading, last⟩ := there _ _ _ _ severed found
  exact ⟨finalShorter, finds_look_bind_iff.mpr reading, last⟩

theorem confined_keyword?_bind {second : Option String → Grammar β}
    (seen : ∀ word, ConfinedElsewhere beyond scope before after (second (some word)))
    (unseen : Confined beyond scope before after (second none)) :
    Confined beyond scope before after (keyword? >>= second) := by
  intro longer shorter value final severed found
  rw [keyword?, finds_look_bind_iff] at found
  simp only [keyword?, finds_look_bind_iff, severed.keyword?]
  cases keyword : longer.current.keyword? with
  | none =>
      rw [keyword] at found
      exact unseen _ _ _ _ severed found
  | some word =>
      rw [keyword] at found
      refine seen word _ _ _ _ severed ?_ found
      cases kind : longer.current.kind <;> simp_all [Token.keyword?, Token.Kind.divides]

theorem confined_seesKind_bind {kind : Token.Kind} {second : Bool → Grammar β}
    (other : kind.divides = false)
    (seen : ConfinedElsewhere beyond scope before after (second true))
    (unseen : Confined beyond scope before after (second false)) :
    Confined beyond scope before after (seesKind kind >>= second) := by
  intro longer shorter value final severed found
  simp only [seesKind, finds_look_bind_iff, severed.kind_eq_iff other] at found ⊢
  by_cases isKind : longer.current.kind = kind
  · rw [decide_eq_true isKind] at found ⊢
    exact seen _ _ _ _ severed (isKind ▸ other) found
  · rw [decide_eq_false isKind] at found ⊢
    exact unseen _ _ _ _ severed found

theorem confined_sees_bind {text : String} {second : Bool → Grammar β}
    (plain : Token.isPlain text = true)
    (seen : ConfinedElsewhere beyond scope before after (second true))
    (unseen : Confined beyond scope before after (second false)) :
    Confined beyond scope before after (sees text >>= second) := by
  intro longer shorter value final severed found
  simp only [sees, finds_look_bind_iff, severed.spells plain] at found ⊢
  cases spelled : longer.current.spells text with
  | true =>
      rw [spelled] at found
      exact seen _ _ _ _ severed (severed.divides_of_spells plain spelled) found
  | false =>
      rw [spelled] at found
      exact unseen _ _ _ _ severed found

theorem confined_seesAny_bind {texts : List String} {second : Bool → Grammar β}
    (plain : texts.all Token.isPlain = true)
    (seen : ConfinedElsewhere beyond scope before after (second true))
    (unseen : Confined beyond scope before after (second false)) :
    Confined beyond scope before after (seesAny texts >>= second) := by
  intro longer shorter value final severed found
  simp only [seesAny, finds_look_bind_iff, severed.spells_any plain] at found ⊢
  cases spelled : texts.any longer.current.spells with
  | true =>
      obtain ⟨text, member, spells⟩ := List.any_eq_true.mp spelled
      rw [spelled] at found
      exact seen _ _ _ _ severed
        (severed.divides_of_spells (List.all_eq_true.mp plain text member) spells) found
  | false =>
      rw [spelled] at found
      exact unseen _ _ _ _ severed found

theorem confined_sees_ite {text : String} {left right : Grammar β}
    (plain : Token.isPlain text = true) (ifTrue : Confined beyond scope before after left)
    (ifFalse : Confined beyond scope before after right) :
    Confined beyond scope before after (do if ← sees text then left else right) :=
  confined_sees_bind plain ifTrue.elsewhere ifFalse

theorem confined_consume {text : String} (plain : Token.isPlain text = true) :
    Confined beyond scope depth depth (consume text) :=
  confined_sees_bind plain (confinedElsewhere_advance_bind (confined_pure true))
    (confined_pure false)

theorem confined_consumeAny {texts : List String} (plain : texts.all Token.isPlain = true) :
    Confined beyond scope depth depth (consumeAny texts) :=
  confined_seesAny_bind plain (confinedElsewhere_advance_bind (confined_pure true))
    (confined_pure false)

theorem confined_consume_ite {text : String} {left right : Grammar β}
    (plain : Token.isPlain text = true) (ifTrue : Confined beyond scope before after left)
    (ifFalse : Confined beyond scope before after right) :
    Confined beyond scope before after (do if ← consume text then left else right) :=
  (confined_consume plain).bind fun _ => confined_ite ifTrue ifFalse

theorem confined_expect {text : String} {fault : Fault} (plain : Token.isPlain text = true) :
    Confined beyond scope depth depth (expect text fault) :=
  (confined_consume plain).bind fun _ => confined_ite (confined_pure ()) (confined_refuse fault)

/-- What is read after two words in a row, and what is read without them. -/
theorem confined_twoWords_ite {condition : Bool} {first second : String} {left right : Grammar β}
    (plain : Token.isPlain first = true) (plainNext : Token.isPlain second = true)
    (ifTrue : Confined beyond scope before after left)
    (ifFalse : Confined beyond scope before after right) :
    Confined beyond scope before after (do
      if condition && (← sees first) && (← nextSees second) then
        advance
        advance
        left
      else
        right) := by
  intro longer shorter value final severed found
  have next (spelled : longer.current.spells first = true) :
      Cursor.Severed beyond before longer.advance shorter.advance :=
    severed.advance_of_divides (severed.divides_of_spells plain spelled)
  have same : (condition && shorter.current.spells first && shorter.next.spells second) =
      (condition && longer.current.spells first && longer.next.spells second) := by
    rw [severed.spells plain]
    cases spelled : longer.current.spells first with
    | false => simp
    | true => rw [Cursor.next, Cursor.next, (next spelled).spells plainNext]
  simp only [sees, nextSees, finds_look_bind_iff, same] at found ⊢
  cases words : condition && longer.current.spells first && longer.next.spells second with
  | false =>
      rw [words] at found
      exact ifFalse _ _ _ _ severed found
  | true =>
      rw [words] at found
      simp only [if_true, finds_advance_bind_iff] at found ⊢
      simp only [Bool.and_eq_true] at words
      have between := next words.1.2
      have other := between.divides_of_spells plainNext words.2
      exact ifTrue _ _ _ _ (between.advance_of_divides other) found

/-! ## Parentheses and the commas between them -/

theorem confined_opening {fault : Fault} :
    Confined beyond scope depth (depth + 1) (expect "(" fault) := by
  intro longer shorter value final severed found
  obtain ⟨spelled, rfl⟩ := finds_expect_iff.mp found
  refine ⟨shorter.advance, finds_expect_iff.mpr ⟨?_, rfl⟩, ?_⟩
  · rwa [severed.spells_opening]
  · exact severed.opened (severed.opens_of_spells spelled)

theorem confined_closing {fault : Fault} :
    Confined beyond scope (depth + 1) depth (expect ")" fault) := by
  intro longer shorter value final severed found
  obtain ⟨spelled, rfl⟩ := finds_expect_iff.mp found
  have regular := severed.regular_current (Cursor.ahead_ne_nil_of_spells spelled)
  refine ⟨shorter.advance, finds_expect_iff.mpr ⟨?_, rfl⟩, ?_⟩
  · rwa [severed.spells_inside]
  · exact severed.closed (regular.closing.mp spelled)

/-- What is read inside a parenthesis that may be missing. -/
theorem confined_opening_ite {left right : Grammar β}
    (inside : Confined beyond scope (before + 1) after left)
    (without : Confined beyond scope before after right) :
    Confined beyond scope before after (do if ← consume "(" then left else right) := by
  intro longer shorter value final severed found
  rw [finds_consume_ite_iff] at found
  simp only [finds_consume_ite_iff, severed.spells_opening]
  split at found
  · rename_i spelled
    simp only [spelled, if_true]
    exact inside _ _ _ _ (severed.opened (severed.opens_of_spells spelled)) found
  · rename_i unspelled
    simp only [unspelled]
    exact without _ _ _ _ severed found

/-- Commas inside parentheses do not end the definition. -/
theorem confined_comma : Confined beyond scope (depth + 1) (depth + 1) (consume ",") := by
  intro longer shorter value final severed found
  have same := severed.spells_inside ","
  by_cases spelled : longer.current.spells "," = true
  · obtain ⟨rfl, rfl⟩ : true = value ∧ longer.advance = final := by
      simpa [consume, sees, spelled] using found
    have more := Cursor.ahead_ne_nil_of_spells spelled
    have isComma := (severed.regular_current more).comma.mp spelled
    refine ⟨shorter.advance, by simp [consume, sees, same, spelled], ?_⟩
    exact severed.passed (severed.ahead_ne_nil_of_inside more) (by simp [isComma])
      (by simp [isComma])
  · obtain ⟨rfl, rfl⟩ : false = value ∧ longer = final := by
      simpa [consume, sees, spelled] using found
    exact ⟨shorter, by simp [consume, sees, same, spelled], severed⟩

/-! ## Repetitions, scans and groups -/

theorem confined_consumed {grammar : Grammar α}
    (confined : Confined beyond scope before after grammar) :
    Confined beyond scope before after grammar.consumed := by
  intro longer shorter tokens final severed found
  obtain ⟨value, reading, rfl⟩ := finds_consumed_iff.mp found
  obtain ⟨finalShorter, readingShorter, last⟩ := confined _ _ _ _ severed reading
  refine ⟨finalShorter, finds_consumed_iff.mpr ⟨value, readingShorter, ?_⟩, last⟩
  rw [Cursor.between, Cursor.between, severed.remaining, last.remaining, Nat.add_sub_add_right,
    severed.ahead]
  exact (List.take_append_of_le_length (Nat.sub_le shorter.remaining _)).symm

theorem confined_many {item? : Grammar (Option α)}
    (confined : Confined beyond scope depth depth item?) :
    Confined beyond scope depth depth (many item?) := by
  intro longer shorter values final severed found
  obtain ⟨finalShorter, run, last⟩ := (repeats_of_finds_many found).carry
    Cursor.Severed.remaining_lt_iff (fun here reading _ => confined _ _ _ _ here reading) severed
  exact ⟨finalShorter, finds_many_of_repeats run, last⟩

theorem confined_parenthesized {opening closing : Fault} {item : Grammar α}
    (confined : Confined beyond scope (depth + 1) (depth + 1) item) :
    Confined beyond scope depth depth (parenthesized opening closing item) := by
  have items : Confined beyond scope (depth + 1) (depth + 1) (commaSeparated item) := by
    refine confined.bind fun _ => (confined_many ?_).map _
    exact confined_comma.bind fun _ => confined_ite (confined.map _) (confined_pure none)
  exact confined_opening.bind fun _ => items.bind fun _ => confined_closing.map _

theorem confined_group : Confined beyond scope depth depth group := by
  intro longer shorter text final severed found
  obtain ⟨opened, length, closing, rfl, rfl⟩ := finds_group_iff.mp found
  have inside := severed.opened (severed.opens_of_spells opened)
  have skipped : Cursor.Severed beyond depth (longer.advance.skip (length + 1))
      (shorter.advance.skip (length + 1)) := Cursor.Severed.skip 0 inside closing
  have same : longer.ahead.tail.take (length + 1) = shorter.ahead.tail.take (length + 1) :=
    skipped.take_eq inside.ahead (closingIndex?_lt closing)
  refine ⟨shorter.skip (length + 2), finds_group_iff.mpr ⟨?_, length, ?_, ?_, rfl⟩, ?_⟩
  · rwa [severed.spells_opening]
  · have closes := closingIndex?_take closing
    rw [same] at closes
    rw [← List.take_append_drop (length + 1) shorter.ahead.tail]
    exact closingIndex?_append _ closes
  · have texts := congrArg (List.take length) same
    rw [List.take_take, List.take_take, Nat.min_eq_left (Nat.le_succ length)] at texts
    rw [texts]
  · rw [Cursor.skip_succ longer, Cursor.skip_succ shorter]
    exact skipped

theorem Passes.depthAfter_eq {stops : Stops} {token : Token} {depthAfter : Nat}
    (passes : Passes stops depth token depthAfter) : token.depthAfter depth = depthAfter := by
  cases passes with
  | opened opens => simp [Token.depthAfter, opens]
  | closed closes => simp [Token.depthAfter, closes]
  | shown shown => exact Token.depthAfter_of_other shown.notOpen shown.notClosed

/-- What a scan moves past does not end the definition, if a comma stops the scan. -/
theorem Passes.endsSegment_eq_false {stops : Stops} {token : Token} {depthAfter : Nat}
    (comma : token.kind = .comma → stops.stopAt token = true)
    (passes : Passes stops depth token depthAfter) : token.endsSegment depth = false := by
  cases passes with
  | opened opens => simp [Token.endsSegment, opens]
  | closed closes => simp [Token.endsSegment]
  | shown shown =>
      by_cases outside : depth = 0
      · have notComma : token.kind ≠ .comma := fun isComma =>
          Bool.noConfusion ((shown.noStop outside).symm.trans (comma isComma))
        simp [Token.endsSegment, notComma, shown.notClosed]
      · simp [Token.endsSegment, outside]

theorem parallel_severed {stops : Stops} {final : Cursor}
    (comma : ∀ token : Token, token.Regular → token.kind = .comma → stops.stopAt token = true) :
    Parallel stops final (Cursor.Severed beyond) := by
  have goesOn {depth depthAfter : Nat} {longer shorter : Cursor}
      (here : Cursor.Severed beyond depth longer shorter)
      (passes : Passes stops depth longer.current depthAfter) : shorter.ahead ≠ [] := by
    have more := Cursor.ahead_ne_nil_of_not_atEnd passes.isEnd_eq_false
    exact here.ahead_ne_nil more
      (passes.endsSegment_eq_false (comma _ (here.regular_current more)))
  refine ⟨fun here later => here.remaining_lt_iff later, fun here passes _ => ?_,
    fun here passes _ => ?_⟩
  · rw [here.current_eq (goesOn here passes)]
  · rw [← passes.depthAfter_eq]
    exact here.advance (goesOn here passes)

/-- A scan ends with the definition at the latest, and goes the same way in the shorter sequence. -/
theorem confined_scan {words : List String} {initial : σ} {visit : Visitor σ}
    (comma : "," ∈ words) (honest : Honest visit)
    (confined : ∀ depth gathered, Confined beyond scope depth depth (visit depth gathered)) :
    Confined beyond scope 0 0 (scan words initial visit) := by
  intro longer shorter result final severed found
  have member : "," ∈ (scope.stops.adding words).words :=
    List.mem_append_left _ (List.mem_map.mpr ⟨",", comma, by decide⟩)
  have stops (token : Token) (regular : token.Regular) (isComma : token.kind = .comma) :
      (scope.stops.adding words).stopAt token = true := by
    have text : token.text = "," := by
      simpa [Token.spells, isComma, Token.isPunctuation, Token.Kind.isPunctuation]
        using regular.comma.mpr isComma
    simp [Stops.stopAt, isComma, Token.isPunctuation, Token.Kind.isPunctuation, text, member]
  have run := finds_scan_iff.mp found
  have halts {finalShorter : Cursor} (last : Cursor.Severed beyond 0 final finalShorter) :
      Halts (scope.stops.adding words) finalShorter := by
    by_cases done : finalShorter.ahead = []
    · exact .inl (Cursor.isEnd_current_of_ahead_eq_nil done)
    · exact run.halts.of_placeless (by rw [last.current_eq done])
  obtain ⟨finalShorter, runShorter, last⟩ := run.carry (parallel_severed stops)
    (fun _ noStop => noStop) honest
    (fun depth gathered _ _ _ _ here _ reading _ => confined depth gathered _ _ _ _ here reading)
    halts severed
  exact ⟨finalShorter, finds_scan_iff.mpr runShorter, last⟩

theorem confined_skipTo {words : List String} (comma : "," ∈ words) :
    Confined beyond scope 0 0 (skipTo words) := by
  refine confined_scan comma ?_ fun _ _ => confined_pure _
  intro depth gathered scope start gatheredNow final found
  exact (finds_pure_iff.mp found).2.symm

end Grammar

end TableDdl
