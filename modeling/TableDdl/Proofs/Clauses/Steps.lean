import TableDdl.Proofs.Grammar.Operators
import TableDdl.Proofs.Lockstep.Statements
import TableDdl.Proofs.Script.Layout

/-!
# Where a clause ends

A clause ends before a comma, before a semicolon, before the word that begins a partitioning, or at
the end of its sequence. Two cursors may stand in sequences with the same tokens up to such a
boundary and different ones behind it. A grammar is clausal if it finds from the second cursor what
it finds from the first one without passing the boundary, and if the last token that it moves past
is no separator itself. The rules of this file put clausal grammars together, step by step. What has
something to follow it need not be clausal, since it does not look behind its last token.
-/

namespace TableDdl

open Grammar

/-! ## Boundaries -/

namespace Token

/-- The words and marks before which a clause ends. -/
def clauseMarks : List String := [",", ";", "PARTITION"]

/-- The word or mark does not end a clause. -/
def isInner (text : String) : Bool := Text.upper text ∉ clauseMarks

/-- The token sets clauses or statements apart. -/
def Separates (token : Token) : Prop := token.placeless ∈ [comma, semicolon]

variable {token : Token} {text other : String}

/-- A token spells one word or mark only, in any case. -/
theorem upper_eq_of_spells (spelled : token.spells text = true)
    (spelledOther : token.spells other = true) : Text.upper text = Text.upper other := by
  by_cases isWord : token.kind = .word
  · simp only [spells, isWord, if_true, Text.sameWord, beq_iff_eq] at spelled spelledOther
    rw [← spelled, spelledOther]
  · rw [eq_of_spells isWord spelled spelledOther]

/-- What spells a mark that ends a clause spells no other word or mark. -/
theorem not_spells_of_isInner (isMark : other ∈ clauseMarks) (marked : token.spells other = true)
    (inner : isInner text = true) : token.spells text = false := by
  have upper : ∀ mark ∈ clauseMarks, Text.upper mark = mark := by decide
  rw [← Bool.not_eq_true]
  intro spelled
  have same : Text.upper text = other :=
    (upper_eq_of_spells spelled marked).trans (upper other isMark)
  simp [isInner, same, isMark] at inner

theorem Separates.kind (separates : token.Separates) :
    token.kind = .comma ∨ token.kind = .semicolon := by
  simp only [Separates, List.mem_cons, List.not_mem_nil, or_false] at separates
  exact separates.imp (congrArg Token.kind) (congrArg Token.kind)

theorem not_separates_of_kind (other : token.kind ∉ [.comma, .semicolon]) : ¬ token.Separates := by
  intro separates
  exact other (by simpa using separates.kind)

theorem not_separates_of_spells (inner : isInner text = true) (spelled : token.spells text = true) :
    ¬ token.Separates := by
  intro separates
  have marked : ∃ mark ∈ clauseMarks, token.spells mark = true := by
    simp only [Separates, List.mem_cons, List.not_mem_nil, or_false] at separates
    rcases separates with isComma | isSemicolon
    · exact ⟨",", by decide, by rw [← spells_placeless, isComma]; decide⟩
    · exact ⟨";", by decide, by rw [← spells_placeless, isSemicolon]; decide⟩
  obtain ⟨mark, isMark, spelledMark⟩ := marked
  rw [not_spells_of_isInner isMark spelledMark inner] at spelled
  exact Bool.noConfusion spelled

end Token

/-- What may lie behind a clause: nothing, or tokens of which the first one ends the clause and all
scans in it. -/
structure Bounds (stops : Stops) (rest : List Token) : Prop where
  /-- The first token is one of the marks. -/
  marked : ∀ token ∈ rest.head?, ∃ mark ∈ Token.clauseMarks, token.spells mark = true
  /-- Scans end at the first token. -/
  ends : Ends (stops.adding [","]) rest

namespace Bounds

variable {stops : Stops} {rest : List Token} {text : String}

theorem nil : Bounds stops [] := ⟨by simp, ends_nil _⟩

theorem adding (bounds : Bounds stops rest) (words : List String) :
    Bounds (stops.adding words) rest := by
  refine ⟨bounds.marked, fun token member => (bounds.ends token member).imp id fun stop => ?_⟩
  refine ⟨stop.1, stop.2.1, ?_⟩
  have found := stop.2.2
  simp only [Stops.stopAt, Stops.adding, List.contains_eq_mem, List.mem_append] at found ⊢
  split at found
  · rw [if_pos ‹_›]
    simp only [decide_eq_true_eq] at found ⊢
    exact found.imp id .inr
  · rw [if_neg ‹_›]
    simp only [Bool.and_eq_true, decide_eq_true_eq] at found ⊢
    exact ⟨found.1, found.2.imp id .inr⟩

/-- No other word or mark stands behind a clause. -/
theorem unseen (bounds : Bounds stops rest) (inner : Token.isInner text = true) :
    Unseen text rest := by
  intro token member
  obtain ⟨mark, isMark, spelled⟩ := bounds.marked token member
  exact Token.not_spells_of_isInner isMark spelled inner

/-- Only words and marks stand behind a clause. -/
theorem kind (bounds : Bounds stops rest) (token : Token) (member : token ∈ rest.head?) :
    token.kind = .word ∨ token.kind.isPunctuation = true := by
  obtain ⟨mark, -, spelled⟩ := bounds.marked token member
  by_cases isWord : token.kind = .word
  · exact .inl isWord
  · simp only [Token.spells, isWord, if_false, Bool.and_eq_true] at spelled
    exact .inr spelled.1

end Bounds

/-- The boundary between a clause and what lies behind it in two sequences. -/
structure Boundary (stops : Stops) (rest restRight : List Token) : Prop where
  /-- What lies behind the clause in the first sequence. -/
  left : Bounds stops rest
  /-- What lies behind the clause in the second sequence. -/
  right : Bounds stops restRight
  /-- Semicolons are stop words. -/
  semicolon : ";" ∈ stops.words

theorem Boundary.adding {stops : Stops} {rest restRight : List Token}
    (boundary : Boundary stops rest restRight) (words : List String) :
    Boundary (stops.adding words) rest restRight :=
  ⟨boundary.left.adding words, boundary.right.adding words,
    List.mem_append_right _ boundary.semicolon⟩

/-! ## Two cursors before a boundary -/

namespace Cursor

variable {rest restRight : List Token} {left right start middle final finalRight : Cursor}
  {stops : Stops} {text : String}

/-- Up to the boundary, the cursors have the same tokens ahead, apart from their places. -/
def Shares (rest restRight : List Token) (left right : Cursor) : Prop :=
  ∃ shared, left.view = shared ++ rest ∧ right.view = shared ++ restRight

theorem Reaches.view_eq_drop (reaches : start.Reaches final) :
    final.view = start.view.drop (start.remaining - final.remaining) := by
  obtain ⟨before, split⟩ := reaches.ahead
  have length : start.remaining - final.remaining = before.length := by
    simp [remaining, ← split]
  rw [length, view, view, ← split, List.map_append, ← List.length_map, List.drop_left]

namespace Shares

theorem remaining (shares : Shares rest restRight left right) :
    left.remaining + restRight.length = right.remaining + rest.length := by
  obtain ⟨shared, view, viewRight⟩ := shares
  rw [← length_view, ← length_view, view, viewRight, List.length_append, List.length_append]
  omega

/-- Before the boundary, both cursors stand on the same token up to its place. -/
theorem current (shares : Shares rest restRight left right)
    (before : rest.length < left.remaining) :
    right.current.placeless = left.current.placeless := by
  obtain ⟨shared, view, viewRight⟩ := shares
  cases shared with
  | nil =>
      rw [← length_view, view, List.nil_append] at before
      exact absurd before (Nat.lt_irrefl _)
  | cons token others =>
      rw [placeless_current_of_view_eq_cons view, placeless_current_of_view_eq_cons viewRight]

theorem kind (shares : Shares rest restRight left right) (before : rest.length < left.remaining) :
    right.current.kind = left.current.kind := by
  rw [← Token.kind_placeless, shares.current before, Token.kind_placeless]

theorem keyword? (shares : Shares rest restRight left right)
    (before : rest.length < left.remaining) : right.current.keyword? = left.current.keyword? := by
  rw [← Token.keyword?_placeless, shares.current before, Token.keyword?_placeless]

theorem atEnd (shares : Shares rest restRight left right) (before : rest.length < left.remaining) :
    right.atEnd = left.atEnd := by
  rw [Cursor.atEnd, Token.isEnd, shares.kind before]
  rfl

theorem stopAt (shares : Shares rest restRight left right) (before : rest.length < left.remaining)
    (stops : Stops) : stops.stopAt right.current = stops.stopAt left.current := by
  rw [← Token.stopAt_placeless, shares.current before, Token.stopAt_placeless]

/-- Wherever both cursors have moved past the same number of tokens, they share what is left. -/
theorem of_reaches (shares : Shares rest restRight left right) (reaches : left.Reaches final)
    (reachesRight : right.Reaches finalRight) (bound : rest.length ≤ final.remaining)
    (remaining : final.remaining + restRight.length = finalRight.remaining + rest.length) :
    Shares rest restRight final finalRight := by
  have same := shares.remaining
  have forward := reaches.remaining_le
  obtain ⟨shared, view, viewRight⟩ := shares
  have length : left.remaining = shared.length + rest.length := by
    rw [← length_view, view, List.length_append]
  have moved : left.remaining - final.remaining = right.remaining - finalRight.remaining := by omega
  refine ⟨shared.drop (left.remaining - final.remaining), ?_, ?_⟩
  · rw [reaches.view_eq_drop, view, List.drop_append_of_le_length (by omega)]
  · rw [reachesRight.view_eq_drop, ← moved, viewRight, List.drop_append_of_le_length (by omega)]

theorem advance (shares : Shares rest restRight left right)
    (before : rest.length < left.remaining) :
    Shares rest restRight left.advance right.advance := by
  have same := shares.remaining
  refine shares.of_reaches (.advance left) (.advance right) ?_ ?_
  · rw [remaining_advance]
    omega
  · rw [remaining_advance, remaining_advance]
    omega

/-- At the boundary, the cursors see what lies behind it. -/
theorem view_of_not_before (shares : Shares rest restRight left right)
    (behind : ¬ rest.length < left.remaining) :
    left.view = rest ∧ right.view = restRight := by
  obtain ⟨shared, view, viewRight⟩ := shares
  have none : shared = [] := by
    rw [← List.length_eq_zero_iff]
    rw [← length_view, view, List.length_append] at behind
    omega
  rw [none] at view viewRight
  exact ⟨view, viewRight⟩

/-- Both cursors see the same words and marks, apart from those that end a clause. -/
theorem spells (shares : Shares rest restRight left right)
    (boundary : Boundary stops rest restRight) (inner : Token.isInner text = true) :
    right.current.spells text = left.current.spells text := by
  by_cases before : rest.length < left.remaining
  · rw [← Token.spells_placeless, shares.current before, Token.spells_placeless]
  · obtain ⟨view, viewRight⟩ := shares.view_of_not_before before
    rw [not_spells_of_unseen view (boundary.left.unseen inner),
      not_spells_of_unseen viewRight (boundary.right.unseen inner)]

theorem spells_any (shares : Shares rest restRight left right)
    (boundary : Boundary stops rest restRight) {texts : List String}
    (inner : texts.all Token.isInner = true) :
    texts.any right.current.spells = texts.any left.current.spells := by
  rw [Bool.eq_iff_iff, List.any_eq_true, List.any_eq_true]
  refine exists_congr fun text => and_congr_right fun member => ?_
  rw [shares.spells boundary (List.all_eq_true.mp inner text member)]

/-- A cursor that sees a word or mark that does not end a clause stands before the boundary. -/
theorem before_of_spells (shares : Shares rest restRight left right)
    (boundary : Boundary stops rest restRight) (inner : Token.isInner text = true)
    (spelled : left.current.spells text = true) : rest.length < left.remaining := by
  by_contra behind
  obtain ⟨view, -⟩ := shares.view_of_not_before behind
  rw [not_spells_of_unseen view (boundary.left.unseen inner)] at spelled
  exact Bool.noConfusion spelled

/-- Neither cursor sees a token at the boundary that is neither a word nor a mark. -/
theorem kind_ne (shares : Shares rest restRight left right)
    (boundary : Boundary stops rest restRight) {kind : Token.Kind}
    (other : kind ∈ [.identifier, .quotedString, .integer, .float, .binaryLiteral])
    (behind : ¬ rest.length < left.remaining) :
    left.current.kind ≠ kind ∧ right.current.kind ≠ kind := by
  have kinds : ∀ kind ∈ [Token.Kind.identifier, .quotedString, .integer, .float, .binaryLiteral],
      kind ≠ .endOfInput ∧ kind ≠ .word ∧ kind.isPunctuation = false := by decide
  obtain ⟨notEnd, notWord, notMark⟩ := kinds kind other
  have differs {cursor : Cursor} {rest : List Token} (view : cursor.view = rest)
      (bounds : Bounds stops rest) : cursor.current.kind ≠ kind := by
    rintro rfl
    cases rest with
    | nil => exact notEnd (Token.kind_of_isEnd (isEnd_of_view_nil view))
    | cons token others =>
        rw [kind_of_view view] at notWord notMark
        rcases bounds.kind token (by simp) with isWord | isMark
        · exact notWord isWord
        · rw [isMark] at notMark
          exact Bool.noConfusion notMark
  obtain ⟨view, viewRight⟩ := shares.view_of_not_before behind
  exact ⟨differs view boundary.left, differs viewRight boundary.right⟩

theorem take_eq (shares : Shares rest restRight left right) (count : Nat)
    (inside : rest.length + count ≤ left.remaining) :
    right.view.take count = left.view.take count := by
  obtain ⟨shared, view, viewRight⟩ := shares
  rw [← length_view, view, List.length_append] at inside
  rw [view, viewRight, List.take_append_of_le_length (by omega),
    List.take_append_of_le_length (by omega)]

/-- Before the boundary, the cursors stand abreast. -/
theorem exists_abreast (shares : Shares rest restRight left right) (margin : Nat)
    (before : rest.length + margin < left.remaining) :
    ∃ behind behindRight, behind.length = rest.length + 1 ∧
      behindRight.length = restRight.length + 1 ∧
        Lockstep.Abreast ⟨.exact, behind, behindRight, margin⟩ left right := by
  obtain ⟨shared, view, viewRight⟩ := shares
  obtain ⟨ahead, behind, split, sameAhead, sameBehind⟩ := List.map_eq_append_iff.mp view
  obtain ⟨aheadRight, behindRight, splitRight, sameRight, sameBehindRight⟩ :=
    List.map_eq_append_iff.mp viewRight
  refine ⟨behind ++ [left.finish], behindRight ++ [right.finish], ?_, ?_, ahead, aheadRight,
    ?_, ?_, ?_, ?_⟩
  · rw [List.length_append, ← sameBehind, List.length_map, List.length_singleton]
  · rw [List.length_append, ← sameBehindRight, List.length_map, List.length_singleton]
  · rw [tokens, split, List.append_assoc]
  · rw [tokens, splitRight, List.append_assoc]
  · exact Token.forall₂_alike_of_map_placeless (sameAhead.trans sameRight.symm)
  · rw [← length_view, view, List.length_append, ← sameAhead, List.length_map] at before
    show margin < ahead.length
    omega

end Shares

/-! ## The last token of a clause -/

theorem between_append (reaches : start.Reaches middle) (further : middle.Reaches final) :
    start.between final = start.between middle ++ middle.between final := by
  obtain ⟨before, split⟩ := reaches.ahead
  obtain ⟨after, splitFurther⟩ := further.ahead
  rw [between_of_append split.symm, between_of_append splitFurther.symm, between_of_append]
  rw [List.append_assoc, splitFurther, split]

/-- The last token between the cursors, if there is one, is no separator. -/
def Lands (start final : Cursor) : Prop :=
  ∀ token ∈ (start.between final).getLast?, ¬ token.Separates

namespace Lands

theorem refl (cursor : Cursor) : cursor.Lands cursor := by
  simp [Lands, between]

theorem advance (other : ¬ start.current.Separates) : start.Lands start.advance := by
  intro token member
  cases ahead : start.ahead with
  | nil => simp [between, ahead] at member
  | cons head others =>
      have last : start.between start.advance = [head] :=
        between_of_append (by simp [Cursor.advance, ahead])
      rw [current_of_ahead_eq_cons ahead] at other
      obtain rfl : head = token := by simpa [last] using member
      exact other

theorem trans (reaches : start.Reaches middle) (further : middle.Reaches final)
    (lands : start.Lands middle) (landsFurther : middle.Lands final) : start.Lands final := by
  intro token member
  rw [between_append reaches further, List.getLast?_append] at member
  cases last : (middle.between final).getLast? with
  | none =>
      rw [last, Option.none_or] at member
      exact lands token member
  | some other =>
      rw [last, Option.some_or] at member
      exact landsFurther token (last ▸ member)

/-- Only the last step counts, if it moves past a token. -/
theorem of_progress (reaches : start.Reaches middle) (further : middle.Reaches final)
    (progress : final.remaining < middle.remaining) (lands : middle.Lands final) :
    start.Lands final := by
  have some : middle.between final ≠ [] := by
    intro none
    have length := congrArg List.length none
    simp only [between, List.length_take, List.length_nil, remaining] at length progress
    omega
  intro token member
  rw [between_append reaches further, List.getLast?_append_of_ne_nil _ some] at member
  exact lands token member

end Lands

/-- On the way from the start, the cursors share what is left up to the boundary, and outside all
parentheses the last token that the first one has moved past is no separator. -/
structure SharesFrom (rest restRight : List Token) (start : Cursor) (depth : Nat)
    (left right : Cursor) : Prop where
  /-- The cursors share what is left. -/
  shares : Shares rest restRight left right
  /-- The first cursor comes from the start. -/
  reaches : start.Reaches left
  /-- The last token is no separator. -/
  lands : depth = 0 → start.Lands left

namespace SharesFrom

theorem refl (shares : Shares rest restRight left right) (depth : Nat) :
    SharesFrom rest restRight left depth left right :=
  ⟨shares, .refl left, fun _ => .refl left⟩

/-- Both cursors move on, or both stay. -/
theorem remaining_lt_iff {depth depthLater : Nat} {leftLater rightLater : Cursor}
    (here : SharesFrom rest restRight start depth left right)
    (later : SharesFrom rest restRight start depthLater leftLater rightLater) :
    leftLater.remaining < left.remaining ↔ rightLater.remaining < right.remaining := by
  have := here.shares.remaining
  have := later.shares.remaining
  omega

end SharesFrom

end Cursor

/-! ## Steps -/

namespace Grammar

open Cursor (Shares SharesFrom)

variable {α β σ : Type} {rest restRight : List Token} {scope : Scope}

/-- What the grammar finds from a cursor without passing the boundary, it finds from every cursor
that shares its tokens up to there, and both stop at the same token; the last token that is moved
past is no separator. -/
def Clausal (rest restRight : List Token) (scope : Scope) (grammar : Grammar α) : Prop :=
  ∀ left right value final, Shares rest restRight left right →
    grammar.Finds scope left value final → rest.length ≤ final.remaining →
      left.Lands final ∧ ∃ finalRight, grammar.Finds scope right value finalRight ∧
        Shares rest restRight final finalRight

/-- The same from cursors that stand before the boundary and on no separator. -/
def ClausalInside (rest restRight : List Token) (scope : Scope) (grammar : Grammar α) : Prop :=
  ∀ left right value final, Shares rest restRight left right → rest.length < left.remaining →
    ¬ left.current.Separates → grammar.Finds scope left value final →
      rest.length ≤ final.remaining →
        left.Lands final ∧ ∃ finalRight, grammar.Finds scope right value finalRight ∧
          Shares rest restRight final finalRight

theorem Clausal.inside {grammar : Grammar α} (clausal : Clausal rest restRight scope grammar) :
    ClausalInside rest restRight scope grammar :=
  fun left right value final shares _ _ => clausal left right value final shares

/-- What a clausal grammar finds leads on, on the way from the start. -/
theorem Clausal.leads_on {grammar : Grammar α} (clausal : Clausal rest restRight scope grammar)
    {start left right middle : Cursor} {depth : Nat} {value : α}
    (here : SharesFrom rest restRight start depth left right)
    (found : grammar.Finds scope left value middle) (bound : rest.length ≤ middle.remaining) :
    ∃ middleRight, grammar.Finds scope right value middleRight ∧
      SharesFrom rest restRight start depth middle middleRight := by
  obtain ⟨lands, middleRight, foundRight, shares⟩ := clausal _ _ _ _ here.shares found bound
  exact ⟨middleRight, foundRight, shares, here.reaches.trans found.reaches,
    fun outside => (here.lands outside).trans here.reaches found.reaches lands⟩

theorem clausal_pure (value : α) : Clausal rest restRight scope (pure value : Grammar α) := by
  intro left right found final shares reading _
  obtain ⟨rfl, rfl⟩ := finds_pure_iff.mp reading
  exact ⟨.refl left, right, finds_pure_iff.mpr ⟨rfl, rfl⟩, shares⟩

theorem clausal_refuse (fault : Fault) :
    Clausal rest restRight scope (refuse fault : Grammar α) :=
  fun _ _ _ _ _ found => (finds_refuse_iff.mp found).elim

theorem clausal_refuse_bind {fault : Fault} {second : α → Grammar β} :
    Clausal rest restRight scope ((refuse fault : Grammar α) >>= second) :=
  fun _ _ _ _ _ found => (finds_refuse_bind_iff.mp found).elim

theorem Clausal.bind {first : Grammar α} {second : α → Grammar β}
    (here : Clausal rest restRight scope first)
    (there : ∀ value, Clausal rest restRight scope (second value)) :
    Clausal rest restRight scope (first >>= second) := by
  intro left right value final shares found bound
  obtain ⟨seen, middle, before, after⟩ := finds_bind_iff.mp found
  obtain ⟨lands, middleRight, beforeRight, between⟩ :=
    here _ _ _ _ shares before (Nat.le_trans bound after.remaining_le)
  obtain ⟨landsAfter, finalRight, afterRight, last⟩ := there seen _ _ _ _ between after bound
  exact ⟨lands.trans before.reaches after.reaches landsAfter, finalRight,
    finds_bind_iff.mpr ⟨seen, middleRight, beforeRight, afterRight⟩, last⟩

theorem Clausal.map {first : Grammar α} (here : Clausal rest restRight scope first)
    (change : α → β) : Clausal rest restRight scope (do return change (← first)) :=
  here.bind fun value => clausal_pure (change value)

/-- What something has to follow need not be clausal: as far as it looks, both sequences are the
same. -/
theorem clausal_after {first : Grammar α} {second : α → Grammar β} (margin : Nat)
    (matching : ∀ behind behindRight,
      Matches ⟨.exact, behind, behindRight, margin⟩ scope id first first)
    (progresses : ∀ value scope start found final, (second value).Finds scope start found final →
      final.remaining + margin < start.remaining)
    (there : ∀ value, Clausal rest restRight scope (second value)) :
    Clausal rest restRight scope (first >>= second) := by
  intro left right value final shares found bound
  obtain ⟨seen, middle, before, after⟩ := finds_bind_iff.mp found
  have progress := progresses seen _ _ _ _ after
  have moved := before.remaining_le
  obtain ⟨behind, behindRight, length, lengthRight, abreast⟩ :=
    shares.exists_abreast margin (by omega)
  obtain ⟨middleRight, beforeRight, abreastMiddle⟩ :=
    (matching behind behindRight).finds abreast before (by
      show behind.length + margin ≤ middle.remaining
      omega)
  have remaining : middle.remaining + behindRight.length =
      middleRight.remaining + behind.length := abreastMiddle.remaining
  have between := shares.of_reaches before.reaches beforeRight.reaches (by omega) (by omega)
  obtain ⟨landsAfter, finalRight, afterRight, last⟩ := there seen _ _ _ _ between after bound
  exact ⟨landsAfter.of_progress before.reaches after.reaches (by omega), finalRight,
    finds_bind_iff.mpr ⟨seen, middleRight, beforeRight, afterRight⟩, last⟩

theorem clausal_withStops {words : List String} {grammar : Grammar α}
    (clausal : Clausal rest restRight { scope with stops := scope.stops.adding words } grammar) :
    Clausal rest restRight scope (withStops words grammar) :=
  clausal

theorem clausal_ite {condition : Prop} [Decidable condition] {left right : Grammar α}
    (ifTrue : Clausal rest restRight scope left) (ifFalse : Clausal rest restRight scope right) :
    Clausal rest restRight scope (if condition then left else right) := by
  split
  · exact ifTrue
  · exact ifFalse

theorem clausalInside_advance_bind {second : Unit → Grammar β}
    (there : Clausal rest restRight scope (second ())) :
    ClausalInside rest restRight scope (advance >>= second) := by
  intro left right value final shares before other found bound
  rw [finds_advance_bind_iff] at found
  obtain ⟨lands, finalRight, foundRight, last⟩ :=
    there _ _ _ _ (shares.advance before) found bound
  exact ⟨(Cursor.Lands.advance other).trans (.advance left) found.reaches lands, finalRight,
    finds_advance_bind_iff.mpr foundRight, last⟩

theorem clausalInside_current_bind {second : Token → Grammar β}
    (placeless : ∀ token : Token, second token.placeless = second token)
    (there : ∀ token, ClausalInside rest restRight scope (second token)) :
    ClausalInside rest restRight scope (current >>= second) := by
  intro left right value final shares before other found bound
  rw [current, finds_look_bind_iff] at found
  obtain ⟨lands, finalRight, foundRight, last⟩ :=
    there left.current _ _ _ _ shares before other found bound
  refine ⟨lands, finalRight, ?_, last⟩
  rwa [current, finds_look_bind_iff, ← placeless, shares.current before, placeless]

/-- A token that has to be moved past, and that is no separator. -/
theorem clausal_current_bind {second : Token → Grammar β}
    (progresses : Progresses (current >>= second))
    (placeless : ∀ token : Token, second token.placeless = second token)
    (separator : ∀ start value final, start.current.Separates →
      ¬ (current >>= second).Finds scope start value final)
    (there : ∀ token, ClausalInside rest restRight scope (second token)) :
    Clausal rest restRight scope (current >>= second) := by
  intro left right value final shares found bound
  have before : rest.length < left.remaining :=
    Nat.lt_of_le_of_lt bound (progresses _ _ _ _ found)
  refine clausalInside_current_bind placeless there _ _ _ _ shares before ?_ found bound
  exact fun separates => separator _ _ _ separates found

/-- A bare word that has to be there. -/
theorem clausal_keyword?_bind {second : Option String → Grammar β}
    (progresses : Progresses (keyword? >>= second))
    (seen : ∀ word, ClausalInside rest restRight scope (second (some word)))
    (unseen : ∃ fault, second none = refuse fault) :
    Clausal rest restRight scope (keyword? >>= second) := by
  intro left right value final shares found bound
  have before : rest.length < left.remaining :=
    Nat.lt_of_le_of_lt bound (progresses _ _ _ _ found)
  obtain ⟨fault, refuses⟩ := unseen
  simp only [keyword?, finds_look_bind_iff, shares.keyword? before] at found ⊢
  cases keyword : left.current.keyword? with
  | none =>
      rw [keyword, refuses] at found
      exact (finds_refuse_iff.mp found).elim
  | some word =>
      rw [keyword] at found
      refine seen word _ _ _ _ shares before (Token.not_separates_of_kind ?_) found bound
      intro separator
      have noWord : left.current.kind ≠ .word := by
        rintro isWord
        simp [isWord] at separator
      simp [Token.keyword?, noWord] at keyword

section

variable (boundary : Boundary scope.stops rest restRight)
include boundary

theorem clausal_sees_bind {text : String} {second : Bool → Grammar β}
    (inner : Token.isInner text = true)
    (there : ∀ seen, Clausal rest restRight scope (second seen)) :
    Clausal rest restRight scope (sees text >>= second) := by
  intro left right value final shares found bound
  simp only [sees, finds_look_bind_iff, shares.spells boundary inner] at found ⊢
  exact there _ _ _ _ _ shares found bound

theorem clausalInside_sees_bind {text : String} {second : Bool → Grammar β}
    (inner : Token.isInner text = true)
    (there : ∀ seen, ClausalInside rest restRight scope (second seen)) :
    ClausalInside rest restRight scope (sees text >>= second) := by
  intro left right value final shares before other found bound
  simp only [sees, finds_look_bind_iff, shares.spells boundary inner] at found ⊢
  exact there _ _ _ _ _ shares before other found bound

theorem clausal_seesAny_bind {texts : List String} {second : Bool → Grammar β}
    (inner : texts.all Token.isInner = true)
    (there : ∀ seen, Clausal rest restRight scope (second seen)) :
    Clausal rest restRight scope (seesAny texts >>= second) := by
  intro left right value final shares found bound
  simp only [seesAny, finds_look_bind_iff, shares.spells_any boundary inner] at found ⊢
  exact there _ _ _ _ _ shares found bound

/-- What is read at a token of the kind, and what is read elsewhere. -/
theorem clausal_seesKind_bind {kind : Token.Kind} {second : Bool → Grammar β}
    (other : kind ∈ [.identifier, .quotedString, .integer, .float, .binaryLiteral])
    (seen : ClausalInside rest restRight scope (second true))
    (unseen : Clausal rest restRight scope (second false)) :
    Clausal rest restRight scope (seesKind kind >>= second) := by
  intro left right value final shares found bound
  simp only [seesKind, finds_look_bind_iff] at found ⊢
  by_cases before : rest.length < left.remaining
  · rw [shares.kind before]
    by_cases isKind : left.current.kind = kind
    · rw [decide_eq_true isKind] at found ⊢
      refine seen _ _ _ _ shares before (Token.not_separates_of_kind ?_) found bound
      have kinds : ∀ kind ∈ [Token.Kind.identifier, .quotedString, .integer, .float,
          .binaryLiteral], kind ∉ [Token.Kind.comma, .semicolon] := by decide
      rw [isKind]
      exact kinds kind other
    · rw [decide_eq_false isKind] at found ⊢
      exact unseen _ _ _ _ shares found bound
  · obtain ⟨notKind, notKindRight⟩ := shares.kind_ne boundary other before
    rw [decide_eq_false notKind] at found
    rw [decide_eq_false notKindRight]
    exact unseen _ _ _ _ shares found bound

theorem clausal_consume {text : String} (inner : Token.isInner text = true) :
    Clausal rest restRight scope (consume text) := by
  intro left right value final shares found bound
  simp only [consume, sees, finds_look_bind_iff, shares.spells boundary inner] at found ⊢
  split at found
  · rename_i spelled
    rw [if_pos spelled]
    exact clausalInside_advance_bind (clausal_pure true) _ _ _ _ shares
      (shares.before_of_spells boundary inner spelled)
      (Token.not_separates_of_spells inner spelled) found bound
  · rename_i unspelled
    rw [if_neg unspelled]
    exact clausal_pure false _ _ _ _ shares found bound

theorem clausal_consume_ite {text : String} {left right : Grammar β}
    (inner : Token.isInner text = true) (ifTrue : Clausal rest restRight scope left)
    (ifFalse : Clausal rest restRight scope right) :
    Clausal rest restRight scope (do if ← consume text then left else right) :=
  (clausal_consume boundary inner).bind fun _ => clausal_ite ifTrue ifFalse

theorem clausal_consumeAny {texts : List String} (inner : texts.all Token.isInner = true) :
    Clausal rest restRight scope (consumeAny texts) := by
  intro left right value final shares found bound
  simp only [consumeAny, seesAny, finds_look_bind_iff, shares.spells_any boundary inner] at found ⊢
  split at found
  · rename_i spelled
    obtain ⟨text, member, spells⟩ := List.any_eq_true.mp spelled
    have isInner := List.all_eq_true.mp inner text member
    rw [if_pos spelled]
    exact clausalInside_advance_bind (clausal_pure true) _ _ _ _ shares
      (shares.before_of_spells boundary isInner spells)
      (Token.not_separates_of_spells isInner spells) found bound
  · rename_i unspelled
    rw [if_neg unspelled]
    exact clausal_pure false _ _ _ _ shares found bound

theorem clausal_expect {text : String} {fault : Fault} (inner : Token.isInner text = true) :
    Clausal rest restRight scope (expect text fault) :=
  (clausal_consume boundary inner).bind fun _ =>
    clausal_ite (clausal_pure ()) (clausal_refuse fault)

/-- What is read after two words in a row, and what is read without them. -/
theorem clausal_twoWords_ite {condition : Bool} {first second : String} {left right : Grammar β}
    (inner : Token.isInner first = true) (innerNext : Token.isInner second = true)
    (ifTrue : Clausal rest restRight scope left) (ifFalse : Clausal rest restRight scope right) :
    Clausal rest restRight scope (do
      if condition && (← sees first) && (← nextSees second) then
        advance
        advance
        left
      else
        right) := by
  intro start startRight value final shares found bound
  have next (spelled : start.current.spells first = true) :
      Shares rest restRight start.advance startRight.advance :=
    shares.advance (shares.before_of_spells boundary inner spelled)
  have same : (condition && startRight.current.spells first && startRight.next.spells second) =
      (condition && start.current.spells first && start.next.spells second) := by
    rw [shares.spells boundary inner]
    cases spelled : start.current.spells first with
    | false => simp
    | true => rw [Cursor.next, Cursor.next, (next spelled).spells boundary innerNext]
  simp only [sees, nextSees, finds_look_bind_iff, same] at found ⊢
  cases words : condition && start.current.spells first && start.next.spells second with
  | false =>
      rw [words] at found
      exact ifFalse _ _ _ _ shares found bound
  | true =>
      rw [words] at found
      simp only [Bool.and_eq_true] at words
      rw [if_pos rfl, finds_advance_bind_iff] at found
      have between := next words.1.2
      obtain ⟨lands, finalRight, foundRight, last⟩ :=
        clausalInside_advance_bind ifTrue _ _ _ _ between
          (between.before_of_spells boundary innerNext words.2)
          (Token.not_separates_of_spells innerNext words.2) found bound
      refine ⟨?_, finalRight, ?_, last⟩
      · have first : start.Lands start.advance :=
          .advance (Token.not_separates_of_spells inner words.1.2)
        exact first.trans (.advance start) found.reaches lands
      · rwa [if_pos rfl, finds_advance_bind_iff]

/-- A list in parentheses: its items have to be followed by the closing parenthesis. -/
theorem clausal_parenthesized {opening closing : Fault} {item : Grammar α}
    (matching : ∀ behind behindRight,
      Matches ⟨.exact, behind, behindRight, 0⟩ scope id item item) :
    Clausal rest restRight scope (parenthesized opening closing item) := by
  refine (clausal_expect boundary (by decide)).bind fun _ => ?_
  refine clausal_after 0 (fun behind behindRight => ?_)
    (fun items => (progresses_expect _ _).bind _) fun items => ?_
  · have items := matches_commaSeparated (matching behind behindRight)
    rwa [List.map_id_fun] at items
  · exact (clausal_expect boundary (by decide)).map _

end

/-! ## Repetitions, groups and scans -/

theorem clausal_many {item? : Grammar (Option α)} (clausal : Clausal rest restRight scope item?) :
    Clausal rest restRight scope (many item?) := by
  intro left right values final shares found bound
  obtain ⟨finalRight, run, last⟩ := (repeats_of_finds_many found).carry
    SharesFrom.remaining_lt_iff (fun here reading further =>
      clausal.leads_on here reading (Nat.le_trans bound further.remaining_le))
    (SharesFrom.refl shares 0)
  exact ⟨last.lands rfl, finalRight, finds_many_of_repeats run, last.shares⟩

theorem clausal_group : Clausal rest restRight scope group := by
  intro left right text final shares found bound
  obtain ⟨opening, inner, close, ahead, -, closes, -⟩ := exists_of_finds_group found
  have lands : left.Lands final := by
    have read : left.between final = (opening :: inner) ++ [close] :=
      Cursor.between_of_append (by simp [ahead])
    intro token member
    rw [read, List.getLast?_concat] at member
    obtain rfl : close = token := Option.some.inj member
    exact Token.not_separates_of_kind (by simp [closes])
  obtain ⟨opened, length, closing, rfl, rfl⟩ := finds_group_iff.mp found
  have moved : rest.length + (length + 2) ≤ left.remaining := by
    have inside := closingIndex?_lt closing
    simp only [Cursor.remaining, Cursor.skip, List.length_drop, List.length_tail] at bound inside ⊢
    omega
  -- All tokens of the group lie before the boundary.
  have same : right.view.tail.take (length + 1) = left.view.tail.take (length + 1) := by
    have taken := (shares.advance (by omega)).take_eq (length + 1) (by
      rw [Cursor.remaining_advance]
      omega)
    rwa [Cursor.view_advance, Cursor.view_advance] at taken
  have opens : right.current.spells "(" = left.current.spells "(" := by
    rw [← Token.spells_placeless, shares.current (by omega), Token.spells_placeless]
  have tail (cursor : Cursor) : cursor.ahead.tail.map Token.placeless = cursor.view.tail :=
    List.map_tail
  refine ⟨lands, right.skip (length + 2),
    finds_group_iff.mpr ⟨opens.trans opened, length, ?_, ?_, rfl⟩, ?_⟩
  · rw [← closingIndex?_map_placeless, tail] at closing ⊢
    have taken := closingIndex?_take closing
    rw [← same] at taken
    rw [← List.take_append_drop (length + 1) right.view.tail]
    exact closingIndex?_append _ taken
  · have texts := congrArg (List.take length) same
    rw [List.take_take, List.take_take, Nat.min_eq_left (Nat.le_succ length)] at texts
    rw [← Token.renderRaw_map_placeless, List.map_take, tail, texts, ← tail, ← List.map_take,
      Token.renderRaw_map_placeless]
  · have remaining := shares.remaining
    refine shares.of_reaches (.skip left _) (.skip right _) bound ?_
    simp only [Cursor.remaining, Cursor.skip, List.length_drop] at remaining moved ⊢
    omega

/-- Outside all parentheses a scan moves past no separator, if those are stop words. -/
theorem Passes.not_separates {stops : Stops} {token : Token} {depth : Nat}
    (separators : ∀ token : Token, token.Separates → stops.stopAt token = true)
    (passes : Passes stops depth token 0) : ¬ token.Separates := by
  cases passes with
  | closed closes => exact Token.not_separates_of_kind (by simp [closes])
  | shown shown =>
      intro separates
      have noStop := shown.noStop rfl
      rw [separators _ separates] at noStop
      exact Bool.noConfusion noStop

/-- Where a scan moves past a token, that token lies before the boundary. -/
theorem parallel_sharesFrom {stops : Stops} {start final : Cursor}
    (separators : ∀ token : Token, token.Separates → stops.stopAt token = true)
    (bound : rest.length ≤ final.remaining) :
    Parallel stops final (SharesFrom rest restRight start) := by
  have before {left : Cursor} (notEnd : left.current.isEnd = false)
      (further : left.advance.Reaches final) : rest.length < left.remaining :=
    Nat.lt_of_le_of_lt (Nat.le_trans bound further.remaining_le) (remaining_advance_lt notEnd)
  refine ⟨fun here later => here.remaining_lt_iff later, fun here passes further => ?_,
    fun {depth depthAfter left right} here passes further => ?_⟩
  · exact here.shares.current (before passes.isEnd_eq_false further)
  · refine ⟨here.shares.advance (before passes.isEnd_eq_false further),
      here.reaches.trans (.advance left), ?_⟩
    rintro rfl
    exact .of_progress here.reaches (.advance left) (remaining_advance_lt passes.isEnd_eq_false)
      (.advance (passes.not_separates separators))

/-- A scan ends at the boundary at the latest, and goes the same way in both sequences. -/
theorem clausal_scan (boundary : Boundary scope.stops rest restRight) {initial : σ}
    {visit : Visitor σ} (honest : Honest visit)
    (clausal : ∀ depth gathered, Clausal rest restRight scope (visit depth gathered)) :
    Clausal rest restRight scope (scan [","] initial visit) := by
  intro left right result final shares found bound
  have separators (token : Token) (separates : token.Separates) :
      (scope.stops.adding [","]).stopAt token = true := by
    rw [← Token.stopAt_placeless]
    simp only [Token.Separates, List.mem_cons, List.not_mem_nil, or_false] at separates
    rcases separates with isComma | isSemicolon
    · simp [isComma, Stops.stopAt, Stops.adding, Token.comma, Token.isPunctuation,
        Token.Kind.isPunctuation, show Text.upper "," = "," by decide]
    · simp [isSemicolon, Stops.stopAt, Stops.adding, Token.semicolon, Token.isPunctuation,
        Token.Kind.isPunctuation, boundary.semicolon]
  have run := finds_scan_iff.mp found
  have alike : VisitsAlike visit scope scope final (SharesFrom rest restRight left) :=
    fun depth gathered _ _ _ _ here _ reading further => (clausal depth gathered).leads_on here
      reading (Nat.le_trans bound further.remaining_le)
  have halts {finalRight : Cursor} (last : SharesFrom rest restRight left 0 final finalRight) :
      Halts (scope.stops.adding [","]) finalRight := by
    by_cases inside : rest.length < final.remaining
    · exact run.halts.of_placeless (last.shares.current inside)
    · exact halts_of_ends boundary.right.ends (last.shares.view_of_not_before inside).2
  obtain ⟨finalRight, runRight, last⟩ := run.carry (parallel_sharesFrom separators bound)
    (fun _ noStop => noStop) honest alike halts (.refl shares 0)
  exact ⟨last.lands rfl, finalRight, finds_scan_iff.mpr runRight, last.shares⟩

theorem clausal_skipTo (boundary : Boundary scope.stops rest restRight) :
    Clausal rest restRight scope (skipTo [","]) := by
  refine clausal_scan boundary ?_ fun _ _ => clausal_pure _
  intro depth gathered scope start gatheredNow final found
  exact (finds_pure_iff.mp found).2.symm

end Grammar

end TableDdl
