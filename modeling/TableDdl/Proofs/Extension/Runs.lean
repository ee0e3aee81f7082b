import TableDdl.Proofs.Extension.Basic

/-!
# Repetitions, scans and groups of a text that goes on

A repetition carries over turn by turn. So does a scan, except that at the end of the shorter
sequence the longer one has to stop it; a list in parentheses does not need that, because the
parenthesis that closes it lies before the end.
-/

namespace TableDdl

namespace Cursor.Extends

variable {sequel : Sequel} {shorter longer : Cursor}

theorem remaining (extension : Extends sequel shorter longer) :
    longer.remaining = shorter.remaining + sequel.tokens.length :=
  Precedes.remaining extension.view

/-- Both cursors move on, or both stay. -/
theorem remaining_lt_iff {shorterLater longerLater : Cursor}
    (extension : Extends sequel shorter longer) (later : Extends sequel shorterLater longerLater) :
    shorterLater.remaining < shorter.remaining ↔ longerLater.remaining < longer.remaining :=
  Precedes.remaining_lt_iff extension.view later.view

end Cursor.Extends

namespace Grammar

variable {α σ : Type} {settled : Prop} {sequel : Sequel} {scope : Scope}

/-! ## Repetitions -/

theorem stable_many {item? : Grammar (Option α)} (stable : Stable settled sequel scope item?) :
    Stable settled sequel scope (many item?) := by
  intro shorter longer extension values final found stopped
  obtain ⟨finalLonger, run, last⟩ := (repeats_of_finds_many found).carry
    Cursor.Extends.remaining_lt_iff (fun here found further =>
      stable _ _ here _ _ found (stopped.imp id further.ahead_ne_nil)) extension
  exact ⟨finalLonger, finds_many_of_repeats run, last⟩

theorem stable_commaSeparated {item : Grammar α} (stable : Stable settled sequel scope item) :
    Stable settled sequel scope (commaSeparated item) := by
  refine stable_bind stable fun first => stable_bind (stable_many ?_) fun _ => stable_pure _
  refine stable_consume_bind (by decide) fun seen => ?_
  cases seen
  · exact stable_pure none
  · exact stable_bind stable fun value => stable_pure (some value)

/-- A list in parentheses is settled, because its items end before the closing parenthesis. -/
theorem stable_parenthesized {opening closing : Fault} {item : Grammar α}
    (stable : Stable False sequel scope item) :
    Stable settled sequel scope (parenthesized opening closing item) := by
  intro shorter longer extension values final found _
  obtain ⟨opened, middle, items, closed, rfl⟩ := finds_parenthesized_iff.mp found
  have inner := extension.advance (Cursor.ahead_ne_nil_of_spells opened)
  have more := Cursor.ahead_ne_nil_of_spells closed
  obtain ⟨middleLonger, itemsLonger, extended⟩ :=
    stable_commaSeparated stable _ _ inner values middle items (.inr more)
  refine ⟨middleLonger.advance, finds_parenthesized_iff.mpr
    ⟨?_, middleLonger, itemsLonger, ?_, rfl⟩, extended.advance more⟩
  · rwa [extension.spells (by decide)]
  · rwa [extended.spells (by decide)]

/-! ## Scans -/

theorem parallel_extends {stops : Stops} {final : Cursor} :
    Parallel stops final fun _ => Cursor.Extends sequel where
  progress here later := here.remaining_lt_iff later
  current here passes further := parallel_precedes.current here.view passes further
  advance here passes _ :=
    here.advance (Cursor.ahead_ne_nil_of_not_atEnd passes.isEnd_eq_false)

/-- The visitor is shown only tokens of the shorter sequence. -/
theorem visitsAlike_extends {visit : Visitor σ} {final : Cursor}
    (stable : ∀ depth gathered shorter longer, Cursor.Extends sequel shorter longer →
      shorter.ahead ≠ [] → Carries settled sequel scope (visit depth gathered) shorter longer)
    (stopped : settled ∨ final.ahead ≠ []) :
    VisitsAlike visit scope scope final fun _ => Cursor.Extends sequel := by
  intro depth gathered shorter longer found middle extension inside reading further
  have more := Cursor.ahead_ne_nil_of_not_atEnd inside
  exact stable depth gathered shorter longer extension more found middle reading
    (stopped.imp id further.ahead_ne_nil)

/-- A scan goes the same way on the longer sequence; at the end of the shorter one the stop words
have to end it. -/
theorem stable_scan {words : List String} {initial : σ} {visit : Visitor σ}
    (honest : Honest visit)
    (stable : ∀ depth gathered shorter longer, Cursor.Extends sequel shorter longer →
      shorter.ahead ≠ [] → Carries settled sequel scope (visit depth gathered) shorter longer)
    (stopsAt : settled → sequel.StopsAt (scope.stops.adding words)) :
    Stable settled sequel scope (scan words initial visit) := by
  intro shorter longer extension result final found stopped
  have run := finds_scan_iff.mp found
  have halts {longer : Cursor} (here : Cursor.Extends sequel final longer) :
      Halts (scope.stops.adding words) longer := by
    by_cases done : final.ahead = []
    · have stops := stopsAt (stopped.resolve_right fun more => more done)
      exact halts_of_ends stops.ends_tokens (here.view_at_end done)
    · exact run.halts.of_placeless (here.current done)
  obtain ⟨finalLonger, runLonger, last⟩ := run.carry parallel_extends (fun _ noStop => noStop)
    honest (visitsAlike_extends stable stopped) halts extension
  exact ⟨finalLonger, finds_scan_iff.mpr runLonger, last⟩

theorem stable_skipTo {words : List String}
    (stopsAt : settled → sequel.StopsAt (scope.stops.adding words)) :
    Stable settled sequel scope (skipTo words) := by
  refine stable_scan ?_ (fun _ _ _ _ extension _ => carries_pure extension _) stopsAt
  intro depth gathered scope start gatheredNow final found
  exact (finds_pure_iff.mp found).2.symm

/-! ## Groups -/

theorem stable_group : Stable settled sequel scope group :=
  persists_group.stable

/-! ## Names and literals -/

/-- A name that may be missing is missing at the end, if nothing new begins there. -/
theorem stable_name? (ends : settled → sequel.Ends) : Stable settled sequel scope name? := by
  intro shorter longer extension
  by_cases done : shorter.ahead = []
  · intro value final reading stopped
    have ended := Cursor.isEnd_current_of_ahead_eq_nil done
    obtain ⟨rfl, rfl⟩ : none = value ∧ shorter = final := by
      simpa [name?, Token.spells_of_isEnd ended, seesKind, atStop, Token.kind_of_isEnd ended]
        using reading
    have noWord : longer.current.kind ≠ .word := by
      intro isWord
      have found : longer.current.keyword? = some (Text.upper longer.current.text) := by
        simp [Token.keyword?, isWord]
      refine (extension.keyword?_at_end done found).2 (ends ?_)
      exact stopped.resolve_right fun more => more done
    refine ⟨longer, ?_, extension⟩
    simp [name?, extension.spells (show Sequel.Foreign "\x60" by decide),
      Token.spells_of_isEnd ended, seesKind, atStop, noWord]
  · exact (persistsAt_name? extension.view done).carries extension

theorem stable_name : Stable settled sequel scope name :=
  persists_name.stable

theorem stable_nameOrString : Stable settled sequel scope nameOrString :=
  persists_nameOrString.stable

theorem stable_names : Stable settled sequel scope names :=
  stable_parenthesized stable_name

theorem stable_unsigned (what : String) : Stable settled sequel scope (unsigned what) :=
  (persists_unsigned what).stable

theorem stable_literal : Stable settled sequel scope Literal.grammar :=
  (persists_literal (Sequel.Foreign.unseen (by decide) sequel)).stable

end Grammar

end TableDdl
