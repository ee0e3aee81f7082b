import TableDdl.Proofs.Extension.Runs
import TableDdl.Proofs.Grammar.Parse
import TableDdl.Proofs.Lexer.Marks

/-!
# Parentheses and semicolons

A cursor approaches a semicolon if all the parentheses in which it stands are closed before the
semicolon. Grammars are followed from one depth of parentheses to another: a grammar heeds the
semicolon if it does not read past it. The rules of this file put such grammars together, step by
step.
-/

namespace TableDdl

namespace Token

/-- A semicolon. -/
def semicolon : Token := .bare .semicolon ";"

/-- The tokens that spell parentheses are those of their kinds. -/
structure Paired (token : Token) : Prop where
  /-- An opening parenthesis. -/
  opening : token.spells "(" = true ↔ token.kind = .leftParen
  /-- A closing parenthesis. -/
  closing : token.spells ")" = true ↔ token.kind = .rightParen

/-- The token is neither a parenthesis nor a semicolon. -/
structure Neutral (token : Token) : Prop where
  /-- It opens nothing. -/
  noOpening : token.kind ≠ .leftParen
  /-- It closes nothing. -/
  noClosing : token.kind ≠ .rightParen
  /-- It is no semicolon. -/
  noSemicolon : token.placeless ≠ semicolon

/-- The kinds of parentheses and semicolons. -/
def Kind.nests : Kind → Bool
  | leftParen | rightParen | semicolon => true
  | _ => false

theorem neutral_of_kind {token : Token} (other : token.kind.nests = false) : token.Neutral := by
  refine ⟨fun same => ?_, fun same => ?_, fun same => ?_⟩
  · rw [same] at other
    cases other
  · rw [same] at other
    cases other
  · rw [← kind_placeless, same] at other
    cases other

/-- The words and marks that are neither a parenthesis nor a semicolon. -/
def isOther (text : String) : Bool := text ∉ ["(", ")", ";"]

/-- What is no word spells only one mark. -/
theorem eq_of_spells {token : Token} {text mark : String} (noWord : token.kind ≠ .word)
    (spelled : token.spells text = true) (isMark : token.spells mark = true) : text = mark := by
  simp only [spells, noWord, if_false, Bool.and_eq_true, beq_iff_eq] at spelled isMark
  exact spelled.2.symm.trans isMark.2

/-- A token that spells anything else is no parenthesis. -/
theorem Paired.kind_ne {token : Token} {text : String} (paired : token.Paired)
    (spelled : token.spells text = true) (noOpening : text ≠ "(") (noClosing : text ≠ ")") :
    token.kind ≠ .leftParen ∧ token.kind ≠ .rightParen := by
  constructor
  · intro opens
    exact noOpening (eq_of_spells (by simp [opens]) spelled (paired.opening.mpr opens))
  · intro closes
    exact noClosing (eq_of_spells (by simp [closes]) spelled (paired.closing.mpr closes))

theorem Paired.neutral {token : Token} {text : String} (paired : token.Paired)
    (other : isOther text = true) (spelled : token.spells text = true) : token.Neutral := by
  simp only [isOther, decide_eq_true_eq, List.mem_cons, List.not_mem_nil, or_false, not_or]
    at other
  obtain ⟨noOpening, noClosing, noSemicolon⟩ := other
  obtain ⟨notOpen, notClosed⟩ := paired.kind_ne spelled noOpening noClosing
  refine ⟨notOpen, notClosed, fun isSemicolon => noSemicolon ?_⟩
  rw [← spells_placeless, isSemicolon] at spelled
  have same : ";" = text := by
    simpa [spells, semicolon, isPunctuation, Kind.isPunctuation] using spelled
  exact same.symm

/-- Semicolons do not change the depth of parentheses. -/
theorem depth?_dropWhile {tokens : List Token} (paired : ∀ token ∈ tokens, token.Paired)
    (depth : Nat) : depth? depth (tokens.dropWhile (·.spells ";")) = depth? depth tokens := by
  induction tokens with
  | nil => rfl
  | cons token rest ih =>
      obtain ⟨here, there⟩ := List.forall_mem_cons.mp paired
      rw [List.dropWhile_cons]
      split
      · rename_i spelled
        obtain ⟨notOpen, notClosed⟩ := here.kind_ne spelled (by decide) (by decide)
        rw [ih there, Lexer.depth?_cons_of_other notOpen notClosed]
      · rfl

end Token

/-- The tokens of a text spell parentheses only where they are. -/
theorem Lexer.Lexes.paired {operand : Bool} {characters left : List Char} {tokens : List Token}
    (lexes : Lexes operand characters tokens left) : ∀ token ∈ tokens, token.Paired := by
  intro token member
  have marked := lexes.forall_mem Step.marked token member
  have proper := lexes.forall_mem Step.proper token member
  refine ⟨⟨fun spelled => ?_, fun isOpening => ?_⟩, ⟨fun spelled => ?_, fun isClosing => ?_⟩⟩
  · exact (Option.some.inj (marked.kind_of_spells (show '(' ∈ marks by decide) spelled)).symm
  · simp [Token.spells, Token.isPunctuation, isOpening, proper.opening isOpening,
      Token.Kind.isPunctuation]
  · exact (Option.some.inj (marked.kind_of_spells (show ')' ∈ marks by decide) spelled)).symm
  · simp [Token.spells, Token.isPunctuation, isClosing, proper.closing isClosing,
      Token.Kind.isPunctuation]

theorem Lexer.paired_ofTokens {text : String} {tokens : List Token}
    (read : Token.tokenize text = .ok tokens) :
    ∀ token ∈ (Cursor.ofTokens tokens).ahead, token.Paired := by
  obtain ⟨body, last, rfl, lexes⟩ := lexes_of_tokensFrom read
  rw [Cursor.ofTokens_append_finish]
  intro token member
  have paired := lexes.paired token.placeless (List.mem_map_of_mem member)
  exact ⟨paired.opening, paired.closing⟩

theorem Cursor.skip_succ (cursor : Cursor) (count : Nat) :
    cursor.skip (count + 1) = cursor.advance.skip count := by
  simp [skip, advance]

/-! ## Cursors before a semicolon -/

/-- The cursor stands inside that many parentheses, all of which are closed before a semicolon,
after which the rest follows. -/
structure Cursor.Approaches (rest : List Token) (depth : Nat) (cursor : Cursor) : Prop where
  /-- What lies between the cursor and the semicolon. -/
  ahead : ∃ tokens, cursor.view = tokens ++ Token.semicolon :: rest ∧
    Token.depth? depth tokens = some 0
  /-- The tokens ahead spell parentheses only where they are. -/
  paired : ∀ token ∈ cursor.view, token.Paired

namespace Cursor.Approaches

variable {rest : List Token} {depth after : Nat} {cursor : Cursor}

theorem ahead_ne_nil (approaches : cursor.Approaches rest depth) : cursor.ahead ≠ [] := by
  obtain ⟨tokens, view, -⟩ := approaches.ahead
  intro done
  rw [Cursor.view_eq_nil_iff.mpr done] at view
  simp at view

theorem paired_current (approaches : cursor.Approaches rest depth) : cursor.current.Paired := by
  obtain ⟨token, others, ahead⟩ := List.exists_cons_of_ne_nil approaches.ahead_ne_nil
  have paired := approaches.paired token.placeless (by simp [Cursor.view, ahead])
  rw [Cursor.current_of_ahead_eq_cons ahead]
  exact ⟨paired.opening, paired.closing⟩

/-- Moving past a token that is not the semicolon. -/
theorem advance_of_depth (approaches : cursor.Approaches rest depth)
    (other : depth = 0 → cursor.current.placeless ≠ Token.semicolon)
    (moves : ∀ tokens, Token.depth? depth (cursor.current.placeless :: tokens) =
      Token.depth? after tokens) : cursor.advance.Approaches rest after := by
  obtain ⟨tokens, view, ended⟩ := approaches.ahead
  refine ⟨?_, fun token member => approaches.paired token ?_⟩
  · cases tokens with
    | nil =>
        have current := Cursor.placeless_current_of_view_eq_cons view
        exact absurd current (other (by simpa [Token.depth?] using ended))
    | cons token tokens =>
        rw [List.cons_append] at view
        refine ⟨tokens, by rw [Cursor.view_advance, view, List.tail_cons], ?_⟩
        rwa [← Cursor.placeless_current_of_view_eq_cons view, moves] at ended
  · rw [Cursor.view_advance] at member
    exact List.mem_of_mem_tail member

theorem advance (approaches : cursor.Approaches rest depth)
    (noOpening : cursor.current.kind ≠ .leftParen) (noClosing : cursor.current.kind ≠ .rightParen)
    (other : depth = 0 → cursor.current.placeless ≠ Token.semicolon) :
    cursor.advance.Approaches rest depth := by
  exact approaches.advance_of_depth other fun tokens =>
    Lexer.depth?_cons_of_other noOpening noClosing

theorem advance_of_neutral (approaches : cursor.Approaches rest depth)
    (neutral : cursor.current.Neutral) : cursor.advance.Approaches rest depth :=
  approaches.advance neutral.noOpening neutral.noClosing fun _ => neutral.noSemicolon

theorem advance_of_spells (approaches : cursor.Approaches rest depth) {text : String}
    (spelled : cursor.current.spells text = true) (other : Token.isOther text = true) :
    cursor.advance.Approaches rest depth :=
  approaches.advance_of_neutral (approaches.paired_current.neutral other spelled)

theorem opened (approaches : cursor.Approaches rest depth)
    (opens : cursor.current.kind = .leftParen) : cursor.advance.Approaches rest (depth + 1) := by
  refine approaches.advance_of_depth (fun _ same => ?_) fun tokens => ?_
  · rw [← Token.kind_placeless, same] at opens
    cases opens
  · simp [Token.depth?, opens]

theorem closed (approaches : cursor.Approaches rest (depth + 1))
    (closes : cursor.current.kind = .rightParen) : cursor.advance.Approaches rest depth := by
  refine approaches.advance_of_depth (by simp) fun tokens => ?_
  simp [Token.depth?, closes]

/-- The parenthesis that closes a group is among those that are closed before the semicolon. -/
theorem skip {inner length : Nat} (approaches : cursor.Approaches rest (depth + inner + 1))
    (closing : Grammar.closingIndex? inner cursor.ahead = some length) :
    (cursor.skip (length + 1)).Approaches rest depth := by
  generalize tokens : cursor.ahead = ahead at closing
  fun_induction Grammar.closingIndex? inner ahead generalizing cursor length with
  | case1 inner => simp at closing
  | case2 inner token others isEnd => simp at closing
  | case3 inner token others opens ih =>
      obtain ⟨count, found, rfl⟩ := Option.map_eq_some_iff.mp closing
      have current := Cursor.current_of_ahead_eq_cons tokens
      rw [Cursor.skip_succ]
      exact ih (approaches.opened (current ▸ opens)) (by simp [Cursor.advance, tokens]) found
  | case4 token others closes =>
      obtain rfl : 0 = length := by simpa using closing
      have current := Cursor.current_of_ahead_eq_cons tokens
      rw [Cursor.skip_succ]
      exact approaches.closed (current ▸ closes)
  | case5 token others closes outer ih =>
      obtain ⟨count, found, rfl⟩ := Option.map_eq_some_iff.mp closing
      have current := Cursor.current_of_ahead_eq_cons tokens
      rw [Cursor.skip_succ]
      exact ih (approaches.closed (current ▸ closes)) (by simp [Cursor.advance, tokens]) found
  | case6 inner token others noEnd noOpening noClosing ih =>
      obtain ⟨count, found, rfl⟩ := Option.map_eq_some_iff.mp closing
      have current := Cursor.current_of_ahead_eq_cons tokens
      rw [Cursor.skip_succ]
      exact ih (approaches.advance (by rwa [current]) (by rwa [current]) (by simp))
        (by simp [Cursor.advance, tokens]) found

end Cursor.Approaches

namespace Grammar

variable {α β σ : Type} {rest : List Token} {scope : Scope} {depth before middle after : Nat}

/-- Where a semicolon outside all parentheses lies ahead, the grammar does not read past it, and
leads from one depth of parentheses to another. -/
def Heeds (rest : List Token) (scope : Scope) (before after : Nat) (grammar : Grammar α) : Prop :=
  ∀ start value final, grammar.Finds scope start value final → start.Approaches rest before →
    final.Approaches rest after

/-- The same where the grammar stands neither on a parenthesis nor on a semicolon. -/
def HeedsElsewhere (rest : List Token) (scope : Scope) (before after : Nat)
    (grammar : Grammar α) : Prop :=
  ∀ start value final, grammar.Finds scope start value final → start.current.Neutral →
    start.Approaches rest before → final.Approaches rest after

/-- Outside all parentheses, semicolons are stop words. -/
def Guards (scope : Scope) (depth : Nat) : Prop :=
  depth = 0 → scope.stops.stopAt Token.semicolon = true

theorem Guards.inside : Guards scope (depth + 1) :=
  fun outside => absurd outside (Nat.succ_ne_zero depth)

theorem Guards.adding (guards : Guards scope depth) (words : List String) :
    Guards { scope with stops := scope.stops.adding words } depth := by
  intro outside
  have stop := guards outside
  simp only [Stops.stopAt, Stops.adding, Token.semicolon, Token.kind_bare, reduceCtorEq, if_false,
    Bool.and_eq_true, List.contains_iff_mem, Token.text_bare, List.mem_append] at stop ⊢
  exact ⟨stop.1, .inr stop.2⟩

/-! ## Steps -/

theorem Heeds.elsewhere {grammar : Grammar α} (heeds : Heeds rest scope before after grammar) :
    HeedsElsewhere rest scope before after grammar :=
  fun start value final found _ => heeds start value final found

theorem heeds_pure (value : α) : Heeds rest scope depth depth (pure value : Grammar α) := by
  intro start found final reading approaches
  obtain ⟨-, rfl⟩ := finds_pure_iff.mp reading
  exact approaches

theorem heeds_refuse (fault : Fault) :
    Heeds rest scope before after (refuse fault : Grammar α) :=
  fun _ _ _ found => (finds_refuse_iff.mp found).elim

theorem heeds_refuse_bind {fault : Fault} {second : α → Grammar β} :
    Heeds rest scope before after ((refuse fault : Grammar α) >>= second) :=
  fun _ _ _ found => (finds_refuse_bind_iff.mp found).elim

theorem Heeds.bind {first : Grammar α} {second : α → Grammar β}
    (here : Heeds rest scope before middle first)
    (there : ∀ value, Heeds rest scope middle after (second value)) :
    Heeds rest scope before after (first >>= second) := by
  intro start value final found approaches
  obtain ⟨seen, cursor, reading, others⟩ := finds_bind_iff.mp found
  exact there seen _ _ _ others (here _ _ _ reading approaches)

/-- What is found can be changed. -/
theorem Heeds.map {first : Grammar α} (here : Heeds rest scope before after first)
    (change : α → β) : Heeds rest scope before after (do return change (← first)) :=
  here.bind fun _ => heeds_pure _

theorem heeds_ite {condition : Prop} [Decidable condition] {left right : Grammar α}
    (ifTrue : Heeds rest scope before after left)
    (ifFalse : Heeds rest scope before after right) :
    Heeds rest scope before after (if condition then left else right) := by
  split
  · exact ifTrue
  · exact ifFalse

theorem heedsElsewhere_ite {condition : Prop} [Decidable condition] {left right : Grammar α}
    (ifTrue : HeedsElsewhere rest scope before after left)
    (ifFalse : HeedsElsewhere rest scope before after right) :
    HeedsElsewhere rest scope before after (if condition then left else right) := by
  split
  · exact ifTrue
  · exact ifFalse

theorem heeds_look_bind {view : Scope → Cursor → α} {second : α → Grammar β}
    (there : ∀ value, Heeds rest scope before after (second value)) :
    Heeds rest scope before after (look view >>= second) :=
  fun _ _ _ found => there _ _ _ _ (finds_look_bind_iff.mp found)

theorem heedsElsewhere_look_bind {view : Scope → Cursor → α} {second : α → Grammar β}
    (there : ∀ value, HeedsElsewhere rest scope before after (second value)) :
    HeedsElsewhere rest scope before after (look view >>= second) :=
  fun _ _ _ found => there _ _ _ _ (finds_look_bind_iff.mp found)

theorem heedsElsewhere_advance_bind {second : Unit → Grammar β}
    (there : Heeds rest scope before after (second ())) :
    HeedsElsewhere rest scope before after (advance >>= second) :=
  fun _ _ _ found neutral approaches =>
    there _ _ _ (finds_advance_bind_iff.mp found) (approaches.advance_of_neutral neutral)

theorem heeds_settings_bind {second : Settings → Grammar β}
    (there : Heeds rest scope before after (second scope.settings)) :
    Heeds rest scope before after (settings >>= second) :=
  fun _ _ _ found => there _ _ _ (finds_look_bind_iff.mp found)

/-- What takes the current token goes on after it. -/
theorem heedsElsewhere_take {second : Token → Grammar β}
    (there : ∀ token, Heeds rest scope before after (second token)) :
    HeedsElsewhere rest scope before after (do
      let token ← current
      advance
      second token) :=
  heedsElsewhere_look_bind fun token => heedsElsewhere_advance_bind (there token)

theorem heeds_keyword?_bind {second : Option String → Grammar β}
    (seen : ∀ word, HeedsElsewhere rest scope before after (second (some word)))
    (unseen : Heeds rest scope before after (second none)) :
    Heeds rest scope before after (keyword? >>= second) := by
  intro start value final found
  rw [keyword?, finds_look_bind_iff] at found
  cases keyword : start.current.keyword? with
  | none => exact unseen _ _ _ (keyword ▸ found)
  | some word =>
      refine seen word _ _ _ (keyword ▸ found) (Token.neutral_of_kind ?_)
      cases kind : start.current.kind <;> simp_all [Token.keyword?, Token.Kind.nests]

theorem heeds_seesKind_bind {kind : Token.Kind} {second : Bool → Grammar β}
    (other : kind.nests = false) (seen : HeedsElsewhere rest scope before after (second true))
    (unseen : Heeds rest scope before after (second false)) :
    Heeds rest scope before after (seesKind kind >>= second) := by
  intro start value final found
  rw [seesKind, finds_look_bind_iff] at found
  by_cases isKind : start.current.kind = kind
  · rw [decide_eq_true isKind] at found
    exact seen _ _ _ found (Token.neutral_of_kind (isKind ▸ other))
  · rw [decide_eq_false isKind] at found
    exact unseen _ _ _ found

theorem heeds_current_bind {second : Token → Grammar β}
    (nesting : ∀ token, token.kind.nests = true → Heeds rest scope before after (second token))
    (other : ∀ token, token.kind.nests = false →
      HeedsElsewhere rest scope before after (second token)) :
    Heeds rest scope before after (current >>= second) := by
  intro start value final found
  rw [current, finds_look_bind_iff] at found
  cases nests : start.current.kind.nests with
  | true => exact nesting _ nests _ _ _ found
  | false => exact other _ nests _ _ _ found (Token.neutral_of_kind nests)

theorem heeds_sees_bind {text : String} {second : Bool → Grammar β}
    (other : Token.isOther text = true)
    (seen : HeedsElsewhere rest scope before after (second true))
    (unseen : Heeds rest scope before after (second false)) :
    Heeds rest scope before after (sees text >>= second) := by
  intro start value final found approaches
  rw [sees, finds_look_bind_iff] at found
  cases spelled : start.current.spells text with
  | true =>
      exact seen _ _ _ (spelled ▸ found) (approaches.paired_current.neutral other spelled)
        approaches
  | false => exact unseen _ _ _ (spelled ▸ found) approaches

theorem heeds_seesAny_bind {texts : List String} {second : Bool → Grammar β}
    (other : texts.all Token.isOther = true)
    (seen : HeedsElsewhere rest scope before after (second true))
    (unseen : Heeds rest scope before after (second false)) :
    Heeds rest scope before after (seesAny texts >>= second) := by
  intro start value final found approaches
  rw [seesAny, finds_look_bind_iff] at found
  cases spelled : texts.any start.current.spells with
  | true =>
      obtain ⟨text, member, spells⟩ := List.any_eq_true.mp spelled
      exact seen _ _ _ (spelled ▸ found)
        (approaches.paired_current.neutral (List.all_eq_true.mp other text member) spells)
        approaches
  | false => exact unseen _ _ _ (spelled ▸ found) approaches

theorem heeds_consume {text : String} (other : Token.isOther text = true) :
    Heeds rest scope depth depth (consume text) :=
  heeds_sees_bind other (heedsElsewhere_advance_bind (heeds_pure true)) (heeds_pure false)

theorem heeds_consumeAny {texts : List String} (other : texts.all Token.isOther = true) :
    Heeds rest scope depth depth (consumeAny texts) :=
  heeds_seesAny_bind other (heedsElsewhere_advance_bind (heeds_pure true)) (heeds_pure false)

theorem heeds_consume_ite {text : String} {left right : Grammar β}
    (other : Token.isOther text = true) (ifTrue : Heeds rest scope before after left)
    (ifFalse : Heeds rest scope before after right) :
    Heeds rest scope before after (do if ← consume text then left else right) :=
  (heeds_consume other).bind fun _ => heeds_ite ifTrue ifFalse

theorem heeds_expect {text : String} {fault : Fault} (other : Token.isOther text = true) :
    Heeds rest scope depth depth (expect text fault) :=
  (heeds_consume other).bind fun _ => heeds_ite (heeds_pure ()) (heeds_refuse fault)

theorem heeds_opening {fault : Fault} : Heeds rest scope depth (depth + 1) (expect "(" fault) := by
  intro start value final found approaches
  obtain ⟨spelled, rfl⟩ := finds_expect_iff.mp found
  exact approaches.opened (approaches.paired_current.opening.mp spelled)

theorem heeds_closing {fault : Fault} : Heeds rest scope (depth + 1) depth (expect ")" fault) := by
  intro start value final found approaches
  obtain ⟨spelled, rfl⟩ := finds_expect_iff.mp found
  exact approaches.closed (approaches.paired_current.closing.mp spelled)

/-- What is read inside a parenthesis that may be missing. -/
theorem heeds_opening_ite {left right : Grammar β}
    (inside : Heeds rest scope (before + 1) after left)
    (without : Heeds rest scope before after right) :
    Heeds rest scope before after (do if ← consume "(" then left else right) := by
  intro start value final found approaches
  rw [finds_consume_ite_iff] at found
  split at found
  · rename_i spelled
    exact inside _ _ _ found (approaches.opened (approaches.paired_current.opening.mp spelled))
  · exact without _ _ _ found approaches

theorem heeds_withStops {words : List String} {grammar : Grammar α}
    (heeds : Heeds rest { scope with stops := scope.stops.adding words } before after grammar) :
    Heeds rest scope before after (withStops words grammar) :=
  fun _ _ _ found => heeds _ _ _ (finds_withStops_iff.mp found)

theorem heeds_orRefuse {grammar : Grammar α} {fault : Fault}
    (heeds : Heeds rest scope before after grammar) :
    Heeds rest scope before after (orRefuse grammar fault) :=
  fun _ _ _ found => heeds _ _ _ (finds_orRefuse_iff.mp found)

theorem heeds_consumed {grammar : Grammar α} (heeds : Heeds rest scope before after grammar) :
    Heeds rest scope before after grammar.consumed := by
  intro start tokens final found
  obtain ⟨value, reading, -⟩ := finds_consumed_iff.mp found
  exact heeds _ _ _ reading

/-! ## Repetitions, scans and groups -/

theorem heeds_many {item? : Grammar (Option α)} (heeds : Heeds rest scope depth depth item?) :
    Heeds rest scope depth depth (many item?) := by
  intro start values final found approaches
  have run := repeats_of_finds_many found
  clear found
  induction run with
  | done none => exact heeds _ _ _ none approaches
  | more found progress after ih => exact ih (heeds _ _ _ found approaches)
  | stuck found standstill => exact heeds _ _ _ found approaches

theorem heeds_parenthesized {opening closing : Fault} {item : Grammar α}
    (heeds : Heeds rest scope (depth + 1) (depth + 1) item) :
    Heeds rest scope depth depth (parenthesized opening closing item) := by
  have items : Heeds rest scope (depth + 1) (depth + 1) (commaSeparated item) := by
    refine heeds.bind fun _ => (heeds_many ?_).map _
    exact heeds_consume_ite (by decide) (heeds.map _) (heeds_pure none)
  exact heeds_opening.bind fun _ => items.bind fun _ => heeds_closing.map _

/-- A group ends with the parenthesis that closes it. -/
theorem heeds_group : Heeds rest scope depth depth group := by
  intro start text final found approaches
  obtain ⟨opened, length, closing, -, rfl⟩ := finds_group_iff.mp found
  rw [Cursor.skip_succ]
  exact (approaches.opened (approaches.paired_current.opening.mp opened)).skip closing

/-- A scan closes the parentheses that it opens, and ends at a semicolon outside of all. -/
theorem Scans.approaches {stops : Stops} {visit : Visitor σ} {inner : Nat}
    {gathered result : σ} {start final : Cursor}
    (guards : depth = 0 → stops.stopAt Token.semicolon = true) (honest : Honest visit)
    (heeds : ∀ inner gathered,
      Heeds rest scope (depth + inner) (depth + inner) (visit inner gathered))
    (run : Scans stops visit scope inner gathered start result final)
    (approaches : start.Approaches rest (depth + inner)) : final.Approaches rest depth := by
  induction run with
  | ended | surrounded | stopped => exact approaches
  | opened opens others ih => exact ih (approaches.opened opens)
  | closed closes others ih => exact ih (approaches.closed closes)
  | taken inside notOpen notClosed noStop found progress others ih =>
      exact ih (heeds _ _ _ _ _ found approaches)
  | @passed inner gathered gatheredNow result taken start cursor final inside notOpen notClosed
      noStop found untaken others ih =>
      obtain rfl : cursor = start := honest.eq_of_untaken found untaken
      refine ih (approaches.advance notOpen notClosed fun outside isSemicolon => ?_)
      have noStop := noStop (by omega)
      rw [← Token.stopAt_placeless, isSemicolon, guards (by omega)] at noStop
      exact Bool.noConfusion noStop

theorem heeds_scan {words : List String} {initial : σ} {visit : Visitor σ}
    (guards : Guards scope depth) (honest : Honest visit)
    (heeds : ∀ inner gathered,
      Heeds rest scope (depth + inner) (depth + inner) (visit inner gathered)) :
    Heeds rest scope depth depth (scan words initial visit) :=
  fun _ _ _ found approaches =>
    (finds_scan_iff.mp found).approaches (guards.adding words) honest heeds approaches

theorem heeds_skipTo {words : List String} (guards : Guards scope depth) :
    Heeds rest scope depth depth (skipTo words) := by
  refine heeds_scan guards ?_ fun _ _ => heeds_pure _
  intro depth gathered scope start gatheredNow final found
  exact (finds_pure_iff.mp found).2.symm

end Grammar

end TableDdl
