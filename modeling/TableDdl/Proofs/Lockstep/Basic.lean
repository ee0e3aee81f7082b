import Mathlib.Data.List.Forall2
import TableDdl.Proofs.Grammar.Progress
import TableDdl.Token.Raw

/-!
# Two readings in lockstep

Two sequences of tokens are read by the same grammar. As long as the tokens are alike, the readings
go the same way: they find alike values, or refuse the text for alike reasons, and stop at the same
place. Tokens are alike if they have the same kind and the same text, up to a folding of the texts
of words that respects upper case.

The sequences need be alike only up to some place. Then the readings agree where the first one
succeeds and does not stop behind that place. Where they are alike as a whole, the readings agree in
every case.
-/

namespace TableDdl

/-- A way to compare the texts of words. -/
structure Folding where
  /-- The form by which a text is compared. -/
  fold : String → String
  /-- A joined text is compared part by part. -/
  append : ∀ left right, fold (left ++ right) = fold left ++ fold right
  /-- Texts that are the same have the same upper-case form. -/
  upper : ∀ left right, fold left = fold right → Text.upper left = Text.upper right

namespace Folding

/-- Texts are compared as they are. -/
def exact : Folding := ⟨id, fun _ _ => rfl, fun _ _ same => congrArg Text.upper same⟩

/-- Texts are compared up to the case of their letters. -/
def caseless : Folding := ⟨Text.upper, Text.upper_append, fun _ _ same => same⟩

theorem append_congr (folding : Folding) {left leftRight right rightRight : String}
    (before : folding.fold left = folding.fold leftRight)
    (after : folding.fold right = folding.fold rightRight) :
    folding.fold (left ++ right) = folding.fold (leftRight ++ rightRight) := by
  rw [folding.append, folding.append, before, after]

theorem isEmpty_eq (folding : Folding) {left right : String}
    (same : folding.fold left = folding.fold right) : left.isEmpty = right.isEmpty := by
  have lengths := congrArg (fun text => text.toList.length) (folding.upper left right same)
  simp only [Text.toList_upper, List.length_map] at lengths
  rw [Bool.eq_iff_iff, String.isEmpty_iff, String.isEmpty_iff, ← String.toList_eq_nil_iff,
    ← String.toList_eq_nil_iff, ← List.length_eq_zero_iff, ← List.length_eq_zero_iff, lengths]

end Folding

/-! ## Alike tokens -/

namespace Token

/-- The tokens have the same kind, and the same text up to the folding; only the texts of words may
differ at all. -/
structure Alike (folding : Folding) (left right : Token) : Prop where
  kind : left.kind = right.kind
  text : folding.fold left.text = folding.fold right.text
  verbatim : left.kind ≠ .word → left.text = right.text

namespace Alike

variable {folding : Folding} {left right : Token}

theorem upper (alike : Alike folding left right) : Text.upper left.text = Text.upper right.text :=
  folding.upper _ _ alike.text

theorem isEnd (alike : Alike folding left right) : left.isEnd = right.isEnd := by
  rw [Token.isEnd, Token.isEnd, alike.kind]

theorem isPunctuation (alike : Alike folding left right) :
    left.isPunctuation = right.isPunctuation := by
  rw [Token.isPunctuation, Token.isPunctuation, alike.kind]

theorem spells (alike : Alike folding left right) : left.spells = right.spells := by
  funext text
  by_cases isWord : left.kind = .word
  · have isWordRight : right.kind = .word := alike.kind ▸ isWord
    simp [Token.spells, isWord, isWordRight, Text.sameWord, alike.upper]
  · have notWordRight : right.kind ≠ .word := alike.kind ▸ isWord
    simp [Token.spells, isWord, notWordRight, alike.isPunctuation, alike.verbatim isWord]

theorem keyword? (alike : Alike folding left right) : left.keyword? = right.keyword? := by
  rw [Token.keyword?, Token.keyword?, alike.kind, alike.upper]

theorem stopAt (alike : Alike folding left right) (stops : Stops) :
    stops.stopAt left = stops.stopAt right := by
  by_cases isWord : left.kind = .word
  · have isWordRight : right.kind = .word := alike.kind ▸ isWord
    simp [Stops.stopAt, isWord, isWordRight, alike.upper]
  · have notWordRight : right.kind ≠ .word := alike.kind ▸ isWord
    simp [Stops.stopAt, isWord, notWordRight, alike.isPunctuation, alike.verbatim isWord]

theorem described (alike : Alike folding left right) :
    folding.fold left.described = folding.fold right.described := by
  rw [Token.described, Token.described, alike.isEnd]
  split
  · rfl
  · exact alike.text

theorem isWritten (alike : Alike folding left right) : left.isWritten = right.isWritten := by
  rw [Token.isWritten, Token.isWritten, alike.kind, alike.isEnd]

theorem spelling (alike : Alike folding left right) :
    folding.fold left.spelling = folding.fold right.spelling := by
  by_cases isWord : left.kind = .word
  · have isWordRight : right.kind = .word := alike.kind ▸ isWord
    simpa [Token.spelling, isWord, isWordRight] using alike.text
  · rw [Token.spelling, Token.spelling, alike.kind, alike.verbatim isWord]

theorem joined {previous previousRight : Token} (before : Alike folding previous previousRight)
    (alike : Alike folding left right) :
    Token.joined previous left = Token.joined previousRight right := by
  have same : Text.sameWord previous.text = Text.sameWord previousRight.text := by
    funext word
    rw [Text.sameWord, Text.sameWord, before.upper]
  rw [Token.joined, Token.joined, before.kind, alike.kind, same]

end Alike

variable {folding : Folding} {left right : List Token}

theorem fold_spelledAfter {previous previousRight : Token}
    (before : Alike folding previous previousRight)
    (alike : List.Forall₂ (Alike folding) left right) :
    folding.fold (spelledAfter previous left) =
      folding.fold (spelledAfter previousRight right) := by
  induction alike generalizing previous previousRight with
  | nil => rfl
  | cons first others ih =>
      rw [spelledAfter, spelledAfter, Alike.joined before first]
      exact folding.append_congr (folding.append_congr rfl first.spelling) (ih first)

theorem filter_isWritten (alike : List.Forall₂ (Alike folding) left right) :
    List.Forall₂ (Alike folding) (left.filter isWritten) (right.filter isWritten) := by
  induction alike with
  | nil => exact .nil
  | @cons token tokenRight rest restRight first others ih =>
      have written := first.isWritten
      cases isWritten : token.isWritten with
      | false =>
          rw [List.filter_cons_of_neg (by simp [isWritten]),
            List.filter_cons_of_neg (by simp [← written, isWritten])]
          exact ih
      | true =>
          rw [List.filter_cons_of_pos isWritten, List.filter_cons_of_pos (written ▸ isWritten)]
          exact .cons first ih

/-- The texts of alike runs of tokens are the same up to the folding. -/
theorem fold_renderRaw (alike : List.Forall₂ (Alike folding) left right) :
    folding.fold (renderRaw left) = folding.fold (renderRaw right) := by
  have written := filter_isWritten alike
  unfold renderRaw
  generalize left.filter isWritten = shown at written ⊢
  generalize right.filter isWritten = shownRight at written ⊢
  cases written with
  | nil => rfl
  | cons first others =>
      exact folding.append_congr first.spelling (fold_spelledAfter first others)

end Token

/-! ## Cursors abreast -/

/-- Two sequences that are compared up to some place. -/
structure Lockstep where
  /-- How texts are compared. -/
  folding : Folding
  /-- What the first sequence has after the part that is compared. -/
  rest : List Token
  /-- What the second sequence has after the part that is compared. -/
  restRight : List Token
  /-- How many tokens are compared behind the one on which a reading may stop. -/
  margin : Nat

namespace Lockstep

variable (pace : Lockstep)

/-- The sequences are compared as a whole. -/
structure Whole : Prop where
  rest : pace.rest = []
  restRight : pace.restRight = []
  margin : pace.margin = 0

/-- The cursor has not gone behind the place up to which the sequences are compared. -/
def Within (cursor : Cursor) : Prop := pace.rest.length + pace.margin ≤ cursor.remaining

/-- The cursors stand at the same token of the part that is compared. -/
def Abreast (left right : Cursor) : Prop :=
  ∃ shared sharedRight, left.tokens = shared ++ pace.rest ∧
    right.tokens = sharedRight ++ pace.restRight ∧
    List.Forall₂ (Token.Alike pace.folding) shared sharedRight ∧ pace.margin < shared.length

/-- The same comparison, where a reading stops one token earlier. -/
def further : Lockstep := { pace with margin := pace.margin + 1 }

variable {pace} {left right : Cursor}

theorem Whole.within (whole : pace.Whole) (cursor : Cursor) : pace.Within cursor := by
  simp [Within, whole.rest, whole.margin]

theorem Within.of_reaches {earlier later : Cursor} (reaches : earlier.Reaches later)
    (within : pace.Within later) : pace.Within earlier :=
  Nat.le_trans within reaches.remaining_le

namespace Abreast

theorem current (abreast : pace.Abreast left right) :
    Token.Alike pace.folding left.current right.current := by
  obtain ⟨shared, sharedRight, split, splitRight, alike, margin⟩ := abreast
  have head := left.head?_tokens
  have headRight := right.head?_tokens
  rw [split] at head
  rw [splitRight] at headRight
  cases alike with
  | nil => exact absurd margin (Nat.not_lt_zero _)
  | cons first others =>
      simp only [List.cons_append, List.head?_cons, Option.some.injEq] at head headRight
      rwa [← head, ← headRight]

theorem remaining (abreast : pace.Abreast left right) :
    left.remaining + pace.restRight.length = right.remaining + pace.rest.length := by
  obtain ⟨shared, sharedRight, split, splitRight, alike, -⟩ := abreast
  have lengths := congrArg List.length split
  have lengthsRight := congrArg List.length splitRight
  have same := alike.length_eq
  simp only [Cursor.length_tokens, List.length_append] at lengths lengthsRight
  omega

theorem atEnd (abreast : pace.Abreast left right) : left.atEnd = right.atEnd :=
  abreast.current.isEnd

/-- Some tokens ahead of both cursors, up to a place that is compared. -/
theorem skip (abreast : pace.Abreast left right) {count : Nat} (bound : count ≤ left.remaining)
    (within : pace.Within (left.skip count)) :
    List.Forall₂ (Token.Alike pace.folding) (left.ahead.take count) (right.ahead.take count) ∧
      pace.Abreast (left.skip count) (right.skip count) := by
  have remaining := abreast.remaining
  obtain ⟨shared, sharedRight, split, splitRight, alike, margin⟩ := abreast
  have lengths := congrArg List.length split
  have same := alike.length_eq
  have skipped : (left.skip count).remaining = left.remaining - count := by
    simp [Cursor.remaining, Cursor.skip]
  rw [Within, skipped] at within
  simp only [Cursor.length_tokens, List.length_append] at lengths
  have boundRight : count ≤ right.remaining := by omega
  have inside : count ≤ shared.length := by omega
  have insideRight : count ≤ sharedRight.length := by omega
  constructor
  · have taken : left.ahead.take count = shared.take count := by
      have prefixes := congrArg (List.take count) split
      rwa [Cursor.tokens, List.take_append_of_le_length bound,
        List.take_append_of_le_length inside] at prefixes
    have takenRight : right.ahead.take count = sharedRight.take count := by
      have prefixes := congrArg (List.take count) splitRight
      rwa [Cursor.tokens, List.take_append_of_le_length boundRight,
        List.take_append_of_le_length insideRight] at prefixes
    rw [taken, takenRight]
    exact List.forall₂_take count alike
  · refine ⟨shared.drop count, sharedRight.drop count, ?_, ?_, List.forall₂_drop count alike, ?_⟩
    · rw [Cursor.tokens_skip bound, split, List.drop_append_of_le_length inside]
    · rw [Cursor.tokens_skip boundRight, splitRight, List.drop_append_of_le_length insideRight]
    · rw [List.length_drop]
      omega

theorem advance (abreast : pace.Abreast left right) (inside : left.current.isEnd = false)
    (within : pace.Within left.advance) : pace.Abreast left.advance right.advance := by
  have skips (cursor : Cursor) : cursor.advance = cursor.skip 1 := by
    simp [Cursor.advance, Cursor.skip]
  have bound : 1 ≤ left.remaining := @Cursor.remaining_pos_of_not_atEnd left inside
  rw [skips] at within ⊢
  rw [skips]
  exact (abreast.skip bound within).2

theorem next (abreast : pace.Abreast left right) (inside : left.current.isEnd = false)
    (within : pace.Within left.advance) : Token.Alike pace.folding left.next right.next :=
  (abreast.advance inside within).current

/-- Also at the last token, the next token of sequences that are compared as a whole is alike. -/
theorem next_of_whole (abreast : pace.Abreast left right) (whole : pace.Whole) :
    Token.Alike pace.folding left.next right.next := by
  have remaining := abreast.remaining
  rw [whole.rest, whole.restRight] at remaining
  by_cases last : left.remaining = 0
  · have stays (cursor : Cursor) (last : cursor.remaining = 0) : cursor.next = cursor.current := by
      have none : cursor.ahead = [] := List.eq_nil_of_length_eq_zero last
      simp [Cursor.next, Cursor.advance, Cursor.current, none]
    rw [stays left last, stays right (by simpa [last] using remaining.symm)]
    exact abreast.current
  · have skips (cursor : Cursor) : cursor.advance = cursor.skip 1 := by
      simp [Cursor.advance, Cursor.skip]
    rw [Cursor.next, Cursor.next, skips, skips]
    exact (abreast.skip (by omega) (whole.within _)).2.current

theorem of_further (abreast : pace.further.Abreast left right) : pace.Abreast left right := by
  obtain ⟨shared, sharedRight, split, splitRight, alike, more⟩ := abreast
  exact ⟨shared, sharedRight, split, splitRight, alike, Nat.lt_of_succ_lt more⟩

theorem further (abreast : pace.Abreast left right) (within : pace.further.Within left) :
    pace.further.Abreast left right := by
  obtain ⟨shared, sharedRight, split, splitRight, alike, -⟩ := abreast
  refine ⟨shared, sharedRight, split, splitRight, alike, ?_⟩
  have lengths := congrArg List.length split
  simp only [Cursor.length_tokens, List.length_append] at lengths
  simp only [Within, Lockstep.further] at within ⊢
  omega

theorem within (abreast : pace.Abreast left right) : pace.Within left := by
  obtain ⟨shared, sharedRight, split, -, -, margin⟩ := abreast
  have lengths := congrArg List.length split
  simp only [Cursor.length_tokens, List.length_append] at lengths
  rw [Within]
  omega

/-- A reading that stops one token earlier may look at the next token. -/
theorem next_of_further (abreast : pace.further.Abreast left right) :
    Token.Alike pace.folding left.next right.next := by
  have within := abreast.within
  simp only [Within, Lockstep.further] at within
  have skips (cursor : Cursor) : cursor.advance = cursor.skip 1 := by
    simp [Cursor.advance, Cursor.skip]
  rw [Cursor.next, Cursor.next, skips, skips]
  refine (abreast.of_further.skip (by omega) ?_).2.current
  rw [Within, ← skips, Cursor.remaining_advance]
  omega

end Abreast

end Lockstep

end TableDdl
