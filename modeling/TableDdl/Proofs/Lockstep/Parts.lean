import Mathlib
import TableDdl.Proofs.Lockstep.Statements

/-!
# What decides how a part is read

Two sequences of tokens are compared from an index on. A part that is found from there on the first
sequence depends only on the tokens up to the one on which its reading stops: it is found on every
sequence that shows the same tokens up to there. And it does not depend on the case of letters in
bare words: on sequences that differ in nothing else, readings stop at the same index, and what
they find differs at most in the case of letters.
-/

namespace TableDdl

open Grammar

namespace Cursor

/-- The sequence of some tokens is these tokens, and an end of input if they do not end with one. -/
theorem sequence_eq (tokens : List Token) :
    sequence tokens = tokens ∧ (tokens.getLast?.any Token.isEnd) = true ∨
      sequence tokens = tokens ++ [Token.finish (placeAfter tokens.getLast?)] ∧
        (tokens.getLast?.any Token.isEnd) = false := by
  unfold sequence ofTokens
  cases last : tokens.getLast? with
  | none => exact .inr ⟨by simp [Cursor.tokens, List.getLast?_eq_none_iff.mp last], rfl⟩
  | some token =>
      simp only [Option.any_some]
      split
      · rename_i isEnd
        refine .inl ⟨?_, isEnd⟩
        obtain ⟨before, rfl⟩ := List.getLast?_eq_some_iff.mp last
        simp [Cursor.tokens]
      · rename_i notEnd
        exact .inr ⟨rfl, by simpa using notEnd⟩

/-- Sequences of alike tokens are alike. -/
theorem sequence_alike {folding : Folding} {left right : List Token}
    (alike : List.Forall₂ (Token.Alike folding) left right) :
    List.Forall₂ (Token.Alike folding) (sequence left) (sequence right) := by
  have ends : left.getLast?.any Token.isEnd = right.getLast?.any Token.isEnd := by
    have reversed := List.forall₂_reverse_iff.mpr alike
    rw [List.getLast?_eq_head?_reverse, List.getLast?_eq_head?_reverse]
    generalize left.reverse = backwards at reversed ⊢
    generalize right.reverse = backwardsRight at reversed ⊢
    cases reversed with
    | nil => rfl
    | cons first others => exact first.isEnd
  have finishes (place placeRight : Location) :
      Token.Alike folding (Token.finish place) (Token.finish placeRight) := ⟨rfl, rfl, fun _ => rfl⟩
  rcases sequence_eq left with ⟨same, isEnd⟩ | ⟨same, isEnd⟩
  · rcases sequence_eq right with ⟨sameRight, -⟩ | ⟨-, isEndRight⟩
    · rwa [same, sameRight]
    · rw [ends, isEndRight] at isEnd
      cases isEnd
  · rcases sequence_eq right with ⟨-, isEndRight⟩ | ⟨sameRight, -⟩
    · rw [ends, isEndRight] at isEnd
      cases isEnd
    · rw [same, sameRight]
      exact List.rel_append alike (.cons (finishes _ _) .nil)

/-- From the same index, cursors of sequences that are alike as a whole stand abreast. -/
theorem abreast_of_alike {folding : Folding} {left right : List Token} {position : Nat}
    (alike : List.Forall₂ (Token.Alike folding) (sequence left) (sequence right))
    (inside : position < (sequence left).length) :
    Lockstep.Abreast ⟨folding, [], [], 0⟩ (atIndex left position) (atIndex right position) := by
  refine ⟨(sequence left).drop position, (sequence right).drop position, ?_, ?_,
    List.forall₂_drop position alike, ?_⟩
  · rw [tokens_atIndex inside, List.append_nil]
  · rw [tokens_atIndex (alike.length_eq ▸ inside), List.append_nil]
  · rw [List.length_drop]
    exact Nat.sub_pos_of_lt inside

/-- From the same index, cursors of sequences that show the same tokens up to a later index stand
abreast. -/
theorem abreast_of_agree {left right : List Token} {position final : Nat}
    (further : position ≤ final) (bound : final < (sequence left).length)
    (agree : ∀ index, position ≤ index → index ≤ final →
      ((sequence left)[index]?).map (fun token => (token.kind, token.text)) =
        ((sequence right)[index]?).map fun token => (token.kind, token.text)) :
    final < (sequence right).length ∧
    Lockstep.Abreast
      ⟨.exact, (sequence left).drop (final + 1), (sequence right).drop (final + 1), 0⟩
      (atIndex left position) (atIndex right position) := by
  have boundRight : final < (sequence right).length := by
    have last := agree final further (Nat.le_refl final)
    rw [List.getElem?_eq_getElem bound, Option.map_some] at last
    obtain ⟨token, found, -⟩ := Option.map_eq_some_iff.mp last.symm
    exact (List.getElem?_eq_some_iff.mp found).1
  have splits (tokens : List Token) (bound : final < (sequence tokens).length) :
      (atIndex tokens position).tokens =
        ((sequence tokens).drop position).take (final + 1 - position) ++
          (sequence tokens).drop (final + 1) := by
    have rest : (sequence tokens).drop (final + 1) =
        ((sequence tokens).drop position).drop (final + 1 - position) := by
      rw [List.drop_drop]
      congr 1
      omega
    rw [tokens_atIndex (by omega), rest, List.take_append_drop]
  refine ⟨boundRight, _, _, splits left bound, splits right boundRight, ?_, ?_⟩
  · rw [List.forall₂_iff_get]
    refine ⟨by simp only [List.length_take, List.length_drop]; omega,
      fun index inside insideRight => ?_⟩
    simp only [List.length_take, List.length_drop] at inside insideRight
    have same := agree (position + index) (by omega) (by omega)
    rw [List.getElem?_eq_getElem (by omega), List.getElem?_eq_getElem (by omega), Option.map_some,
      Option.map_some, Option.some.injEq, Prod.mk.injEq] at same
    simp only [List.get_eq_getElem, List.getElem_take, List.getElem_drop]
    exact ⟨same.1, same.2, fun _ => same.2⟩
  · simp only [List.length_take, List.length_drop]
    omega

end Cursor

/-! ## Locality -/

/-- A part that is found from an index on is found on every sequence that shows the same kinds and
texts up to the token on which its reading stops, whatever follows that token. -/
theorem Part.finds_of_agree (part : Part) (scope : Scope) (left right : List Token)
    (position final : Nat) (node : part.Node)
    (inside : position < (Cursor.sequence left).length)
    (bound : final < (Cursor.sequence left).length)
    (found : part.grammar.Finds scope (Cursor.atIndex left position) node
      (Cursor.atIndex left final))
    (agree : ∀ index ≤ final, position ≤ index →
      ((Cursor.sequence left)[index]?).map (fun token => (token.kind, token.text)) =
        ((Cursor.sequence right)[index]?).map fun token => (token.kind, token.text)) :
    part.grammar.Finds scope (Cursor.atIndex right position) node (Cursor.atIndex right final) := by
  have further : position ≤ final := by
    have moved := found.remaining_le
    rw [Cursor.remaining_atIndex inside, Cursor.remaining_atIndex bound] at moved
    omega
  obtain ⟨boundRight, abreast⟩ := Cursor.abreast_of_agree further bound
    fun index after before => agree index before after
  obtain ⟨nodeRight, finalRight, reaches, outcome, same, last⟩ :=
    (part.matches_grammar _ _ abreast).of_ok found.outcome_eq (by
      simp only [Lockstep.Within, Cursor.remaining_atIndex bound, List.length_drop]
      omega)
  obtain rfl : node = nodeRight := by
    simpa only [Folding.exact, Part.mapTexts_id, id_eq] using same
  -- The second reading has moved past as many tokens as the first one.
  have ended : finalRight = Cursor.atIndex right final := by
    have place := (reaches.eq_atIndex (by omega)).1
    have remaining := last.remaining
    rw [Cursor.remaining_atIndex bound, List.length_drop, List.length_drop] at remaining
    rw [place]
    congr 1
    omega
  rw [← ended]
  exact ⟨by rw [outcome], by rw [outcome]⟩

/-- A partitioning by a key without columns ends at a comma, before different tokens. -/
theorem Part.finds_of_agree_key :
    let shared : List Token := [⟨.word, "PARTITION", ⟨1, 1⟩⟩, ⟨.word, "BY", ⟨1, 11⟩⟩,
      ⟨.word, "KEY", ⟨1, 14⟩⟩, ⟨.leftParen, "(", ⟨1, 18⟩⟩, ⟨.rightParen, ")", ⟨1, 19⟩⟩,
      ⟨.comma, ",", ⟨1, 20⟩⟩]
    let left := shared ++ [⟨.word, "PARTITIONS", ⟨1, 22⟩⟩]
    let right := shared ++ [⟨.endOfInput, "", ⟨1, 21⟩⟩, ⟨.integer, "2", ⟨2, 1⟩⟩]
    let scope : Scope := ⟨.standard, .none⟩
    Part.partitioning.grammar.Finds scope (Cursor.atIndex left 0) (.single { kind := .key })
        (Cursor.atIndex left 5) ∧
      Part.partitioning.grammar.Finds scope (Cursor.atIndex right 0) (.single { kind := .key })
        (Cursor.atIndex right 5) := by
  intro shared left right scope
  have found : Part.partitioning.grammar.Finds scope (Cursor.atIndex left 0)
      (.single { kind := .key }) (Cursor.atIndex left 5) := by
    constructor <;> cbv
  refine ⟨found, Part.finds_of_agree .partitioning scope left right 0 5 _ (by decide) (by decide)
    found ?_⟩
  decide

/-! ## Letter case -/

/-- On sequences that differ only in the case of letters in bare words, and in the places of their
tokens, readings of a part stop at the same index. Both refuse the text, or both find the part, and
what they find is the same once all texts in it are in upper case. -/
theorem Part.reads_in_any_case (part : Part) (scope : Scope) (left right : List Token)
    (position : Nat) (inside : position < (Cursor.sequence left).length)
    (alike : List.Forall₂ (Token.Alike .caseless) left right) :
    let outcome := part.grammar scope (Cursor.atIndex left position)
    let outcomeRight := part.grammar scope (Cursor.atIndex right position)
    (∃ final, outcome.cursor = Cursor.atIndex left final ∧
      outcomeRight.cursor = Cursor.atIndex right final ∧
      final < (Cursor.sequence left).length ∧ final < (Cursor.sequence right).length) ∧
    ((∃ error errorRight, outcome.result = .error error ∧
        outcomeRight.result = .error errorRight) ∨
      ∃ node nodeRight, outcome.result = .ok node ∧ outcomeRight.result = .ok nodeRight ∧
        part.mapTexts Text.upper node = part.mapTexts Text.upper nodeRight) := by
  intro outcome outcomeRight
  have sequences := Cursor.sequence_alike alike
  have lengths := sequences.length_eq
  have abreast := Cursor.abreast_of_alike sequences inside
  obtain ⟨same, last⟩ := part.matches_grammar _ _ abreast (.inl ⟨rfl, rfl, rfl⟩)
  constructor
  · have place := (outcome.reaches.eq_atIndex inside).1
    have placeRight := (outcomeRight.reaches.eq_atIndex (lengths ▸ inside)).1
    have remaining : outcome.cursor.remaining = outcomeRight.cursor.remaining := last.remaining
    rw [← lengths, ← remaining] at placeRight
    exact ⟨_, place, placeRight, by omega, by omega⟩
  · rcases same.error_or_ok with ⟨error, errorRight, refused, refusedRight, -⟩ | accepted
    · exact .inl ⟨error, errorRight, refused, refusedRight⟩
    · exact .inr accepted

/-- A renaming with its words in capitals and in small letters, on different lines. -/
theorem Part.reads_in_any_case_renamed :
    let left : List Token := [⟨.word, "A", ⟨1, 1⟩⟩, ⟨.word, "TO", ⟨1, 3⟩⟩, ⟨.word, "b", ⟨1, 6⟩⟩]
    let right : List Token := [⟨.word, "a", ⟨1, 1⟩⟩, ⟨.word, "to", ⟨2, 1⟩⟩, ⟨.word, "b", ⟨2, 4⟩⟩]
    let scope : Scope := ⟨.standard, .none⟩
    List.Forall₂ (Token.Alike .caseless) left right ∧
      ∃ node nodeRight,
        (Part.rename.grammar scope (Cursor.atIndex left 0)).result = .ok node ∧
          (Part.rename.grammar scope (Cursor.atIndex right 0)).result = .ok nodeRight ∧
            Part.rename.mapTexts Text.upper node = Part.rename.mapTexts Text.upper nodeRight := by
  intro left right scope
  have alike : List.Forall₂ (Token.Alike .caseless) left right :=
    .cons ⟨rfl, by decide, by decide⟩ (.cons ⟨rfl, by decide, by decide⟩
      (.cons ⟨rfl, rfl, by decide⟩ .nil))
  have found : (Part.rename.grammar scope (Cursor.atIndex left 0)).result =
      .ok (⟨"A", "b"⟩ : Rename) := by cbv
  obtain ⟨-, ⟨error, errorRight, refused, -⟩ | accepted⟩ :=
    Part.reads_in_any_case .rename scope left right 0 (by decide) alike
  · rw [found] at refused
    cases refused
  · exact ⟨alike, accepted⟩

end TableDdl
