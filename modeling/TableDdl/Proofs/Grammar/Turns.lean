import TableDdl.Proofs.Grammar.Progress
import TableDdl.Proofs.Grammar.Sequences

/-!
# Runs from two cursors

A repetition goes the same way from two cursors if they stay in a relation over every turn, and so
does a scan. The relation may be that both stand in one sequence, that one sequence goes on behind
the other one, or that both sequences are the same up to some token. It has to be kept where a turn
moves past a token and where something is read; that it is kept over a whole run is an induction
over the turns, made here once for all of them.
-/

namespace TableDdl

namespace Cursor

variable {earlier later : Cursor}

theorem Reaches.eq_of_not_lt (reaches : earlier.Reaches later)
    (standstill : ¬ later.remaining < earlier.remaining) : later = earlier := by
  apply ext_of_tokens
  rw [reaches.tokens_eq_drop, Nat.sub_eq_zero_of_le (Nat.le_of_not_lt standstill), List.drop_zero]

/-- What lies further on lies past the first token. -/
theorem Reaches.advance_of_lt (reaches : earlier.Reaches later)
    (progress : later.remaining < earlier.remaining) : earlier.advance.Reaches later := by
  obtain ⟨before, split⟩ := reaches.ahead
  cases before with
  | nil =>
      rw [List.nil_append] at split
      simp [Cursor.remaining, split] at progress
  | cons token others => exact ⟨⟨others, by simp [Cursor.advance, ← split]⟩, reaches.finish⟩

end Cursor

namespace Grammar

variable {α σ : Type} {scope scopeRight : Scope} {left right final : Cursor}

/-! ## Repetitions -/

/-- A run of a repetition is carried over to another cursor, if every turn up to its end is. Both
cursors move on, or both stay. -/
theorem Repeats.carry {item? : Grammar (Option α)} {apart : Cursor → Cursor → Prop}
    (progress : ∀ {left right leftLater rightLater}, apart left right →
      apart leftLater rightLater →
        (leftLater.remaining < left.remaining ↔ rightLater.remaining < right.remaining))
    (turn : ∀ {left right value middle}, apart left right → item?.Finds scope left value middle →
      middle.Reaches final →
        ∃ middleRight, item?.Finds scope right value middleRight ∧ apart middle middleRight)
    {values : List α} (run : Repeats item? scope left values final) (here : apart left right) :
    ∃ finalRight, Repeats item? scope right values finalRight ∧ apart final finalRight := by
  induction run generalizing right with
  | done none =>
      obtain ⟨finalRight, noneRight, last⟩ := turn here none (.refl _)
      exact ⟨finalRight, .done noneRight, last⟩
  | more found moved after ih =>
      obtain ⟨middleRight, foundRight, between⟩ :=
        turn here found (finds_many_of_repeats after).reaches
      obtain ⟨finalRight, afterRight, last⟩ := ih turn between
      exact ⟨finalRight, .more foundRight ((progress here between).mp moved) afterRight, last⟩
  | stuck found standstill =>
      obtain ⟨finalRight, foundRight, last⟩ := turn here found (.refl _)
      exact ⟨finalRight, .stuck foundRight (mt (progress here last).mpr standstill), last⟩

/-! ## Visitors -/

/-- The visitor of a scan moves only if it says so. -/
def Honest (visit : Visitor σ) : Prop :=
  ∀ depth gathered scope start gatheredNow final,
    (visit depth gathered).Finds scope start (false, gatheredNow) final → final = start

/-- Where the scan itself moves past the token, the visitor has not moved. -/
theorem Honest.eq_of_untaken {visit : Visitor σ} (honest : Honest visit) {depth : Nat}
    {gathered gatheredNow : σ} {taken : Bool} {start middle : Cursor}
    (found : (visit depth gathered).Finds scope start (taken, gatheredNow) middle)
    (untaken : taken = true → ¬ middle.remaining < start.remaining) : middle = start := by
  cases taken with
  | false => exact honest _ _ _ _ _ _ found
  | true => exact found.reaches.eq_of_not_lt (untaken rfl)

/-- A visitor that reads only outside all parentheses. -/
theorem honest_outside {read : σ → Grammar (Bool × σ)}
    (honest : ∀ gathered scope start gatheredNow final,
      (read gathered).Finds scope start (false, gatheredNow) final → final = start) :
    Honest fun depth gathered => if depth = 0 then read gathered else pure (false, gathered) := by
  intro depth gathered scope start gatheredNow final found
  dsimp only at found
  split at found
  · exact honest gathered scope start gatheredNow final found
  · exact (finds_pure_iff.mp found).2.symm

/-! ## Scans -/

/-- A scan with the stop words moves past the token, from one depth to another. -/
inductive Passes (stops : Stops) : Nat → Token → Nat → Prop where
  /-- A parenthesis opens. -/
  | opened {depth : Nat} {token : Token} (opens : token.kind = .leftParen) :
      Passes stops depth token (depth + 1)
  /-- A parenthesis of the scan closes. -/
  | closed {depth : Nat} {token : Token} (closes : token.kind = .rightParen) :
      Passes stops (depth + 1) token depth
  /-- The token was shown to the visitor. -/
  | shown {depth : Nat} {token : Token} (shown : Shown stops depth token) :
      Passes stops depth token depth

variable {stops stopsRight : Stops} {visit : Visitor σ} {depth : Nat} {gathered result : σ}

theorem Passes.isEnd_eq_false {token : Token} {depthAfter : Nat}
    (passes : Passes stops depth token depthAfter) : token.isEnd = false := by
  cases passes with
  | opened opens => simp [Token.isEnd, opens]
  | closed closes => simp [Token.isEnd, closes]
  | shown shown => exact shown.notEnd

theorem Halts.of_placeless (halts : Halts stops left)
    (same : right.current.placeless = left.current.placeless) : Halts stops right := by
  rw [Halts, Cursor.atEnd, ← Token.isEnd_placeless, ← Token.kind_placeless,
    ← Token.stopAt_placeless, same]
  exact halts

/-- A relation between two cursors, at each depth of a scan that ends at the final cursor. -/
structure Parallel (stops : Stops) (final : Cursor) (apart : Nat → Cursor → Cursor → Prop) :
    Prop where
  /-- Both cursors move on, or both stay. -/
  progress : ∀ {depth depthLater left right leftLater rightLater}, apart depth left right →
    apart depthLater leftLater rightLater →
      (leftLater.remaining < left.remaining ↔ rightLater.remaining < right.remaining)
  /-- Both stand on the same token, apart from its place, where the scan moves past it. -/
  current : ∀ {depth depthAfter left right}, apart depth left right →
    Passes stops depth left.current depthAfter → left.advance.Reaches final →
      right.current.placeless = left.current.placeless
  /-- The relation is kept there. -/
  advance : ∀ {depth depthAfter left right}, apart depth left right →
    Passes stops depth left.current depthAfter → left.advance.Reaches final →
      apart depthAfter left.advance right.advance

/-- What the visitor finds up to the final cursor it finds from both cursors, which are related
again afterwards. -/
def VisitsAlike (visit : Visitor σ) (scope scopeRight : Scope) (final : Cursor)
    (apart : Nat → Cursor → Cursor → Prop) : Prop :=
  ∀ depth gathered left right found middle, apart depth left right → left.atEnd = false →
    (visit depth gathered).Finds scope left found middle → middle.Reaches final →
      ∃ middleRight, (visit depth gathered).Finds scopeRight right found middleRight ∧
        apart depth middle middleRight

/-- A run of a scan leads to the same place from another cursor, under any stop words that do not
end it before. -/
theorem Scans.carry_leads {apart : Nat → Cursor → Cursor → Prop}
    (parallel : Parallel stops final apart)
    (fewer : ∀ token, stops.stopAt token = false → stopsRight.stopAt token = false)
    (honest : Honest visit)
    (alike : VisitsAlike visit scope scopeRight final apart)
    (run : Scans stops visit scope depth gathered left result final)
    (here : apart depth left right) :
    ∃ finalRight,
      Leads stopsRight visit scopeRight ⟨depth, gathered, right⟩ ⟨0, result, finalRight⟩ ∧
        apart 0 final finalRight := by
  induction run generalizing right with
  | ended | surrounded | stopped => exact ⟨right, .refl _, here⟩
  | opened opens after ih =>
      have same := parallel.current here (.opened opens) after.reaches
      obtain ⟨finalRight, leads, last⟩ :=
        ih parallel alike (parallel.advance here (.opened opens) after.reaches)
      refine ⟨finalRight, (leads_opened ?_).trans leads, last⟩
      rwa [← Token.kind_placeless, same]
  | closed closes after ih =>
      have same := parallel.current here (.closed closes) after.reaches
      obtain ⟨finalRight, leads, last⟩ :=
        ih parallel alike (parallel.advance here (.closed closes) after.reaches)
      refine ⟨finalRight, (leads_closed ?_).trans leads, last⟩
      rwa [← Token.kind_placeless, same]
  | taken inside notOpen notClosed noStop found progress after ih =>
      have shown : Shown stops _ _ := ⟨inside, notOpen, notClosed, noStop⟩
      have further := (found.reaches.advance_of_lt progress).trans after.reaches
      have same := parallel.current here (.shown shown) further
      obtain ⟨middleRight, foundRight, between⟩ := alike _ _ _ _ _ _ here inside found after.reaches
      obtain ⟨finalRight, leads, last⟩ := ih parallel alike between
      have progressRight := (parallel.progress here between).mp progress
      exact ⟨finalRight,
        (leads_taken (shown.of_placeless fewer same) foundRight progressRight).trans leads, last⟩
  | @passed depth gathered gatheredNow result taken left middle final inside notOpen notClosed
      noStop found untaken after ih =>
      have shown : Shown stops depth left.current := ⟨inside, notOpen, notClosed, noStop⟩
      -- The visitor has not moved, so that there is a token to move past.
      obtain rfl : middle = left := honest.eq_of_untaken found untaken
      have same := parallel.current here (.shown shown) after.reaches
      obtain ⟨middleRight, foundRight, between⟩ :=
        alike _ _ _ _ _ _ here inside found ((Cursor.Reaches.advance middle).trans after.reaches)
      obtain ⟨finalRight, leads, last⟩ :=
        ih parallel alike (parallel.advance between (.shown shown) after.reaches)
      have untakenRight := fun isTaken => mt (parallel.progress here between).mpr (untaken isTaken)
      exact ⟨finalRight,
        (leads_passed (shown.of_placeless fewer same) foundRight untakenRight).trans leads, last⟩

/-- So it is a run from there, too, if the scan ends at that place. -/
theorem Scans.carry {apart : Nat → Cursor → Cursor → Prop}
    (parallel : Parallel stops final apart)
    (fewer : ∀ token, stops.stopAt token = false → stopsRight.stopAt token = false)
    (honest : Honest visit)
    (alike : VisitsAlike visit scope scopeRight final apart)
    (run : Scans stops visit scope depth gathered left result final)
    (halts : ∀ {finalRight}, apart 0 final finalRight → Halts stopsRight finalRight)
    (here : apart depth left right) :
    ∃ finalRight, Scans stopsRight visit scopeRight depth gathered right result finalRight ∧
      apart 0 final finalRight := by
  obtain ⟨finalRight, leads, last⟩ := run.carry_leads parallel fewer honest alike here
  exact ⟨finalRight, scans_of_leads leads (halts last), last⟩

end Grammar

end TableDdl
