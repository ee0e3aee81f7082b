import TableDdl.Proofs.Extension.Runs

/-!
# Scans that go on

A scan that runs into the end of a shorter sequence goes on from there on a longer one, with what it
has gathered so far. What the whole scan gives there is what it gives from any point on its way.
-/

namespace TableDdl

namespace Grammar

variable {α β σ : Type} {scope : Scope} {stops : Stops} {visit : Visitor σ}

/-- What follows something that is found decides the outcome. -/
theorem Finds.outcome_bind {first : Grammar α} {second : α → Grammar β} {value : α}
    {start middle : Cursor} (found : first.Finds scope start value middle) :
    ((first >>= second) scope start).result = (second value scope middle).result ∧
      ((first >>= second) scope start).cursor = (second value scope middle).cursor := by
  simp only [bind, Grammar.bind, found.outcome_eq]
  exact ⟨rfl, rfl⟩

theorem outcome_map (grammar : Grammar α) (change : α → β) (scope : Scope) (start : Cursor) :
    ((do return change (← grammar)) scope start).result = (grammar scope start).result.map change ∧
      ((do return change (← grammar)) scope start).cursor = (grammar scope start).cursor := by
  simp only [bind, Grammar.bind]
  split
  · rename_i outcome
    simp [outcome, Except.map]
  · rename_i outcome
    simp [outcome, Except.map, pure, Grammar.pure, Outcome.since]

variable {depth : Nat} {gathered gatheredNow : σ} {start : Cursor}

/-- A scan with a settled visitor comes to the same place of the longer sequence, with the same
gathered, and goes on from there. -/
theorem Scans.resume {sequel : Sequel} (honest : Honest visit)
    (stable : ∀ depth gathered shorter longer, Cursor.Extends sequel shorter longer →
      shorter.ahead ≠ [] → Carries True sequel scope (visit depth gathered) shorter longer)
    {result : σ} {shorter final longer : Cursor}
    (run : Scans stops visit scope depth gathered shorter result final)
    (extension : Cursor.Extends sequel shorter longer) :
    ∃ rest, Leads stops visit scope ⟨depth, gathered, longer⟩ ⟨0, result, rest⟩ ∧
      Cursor.Extends sequel final rest :=
  run.carry_leads parallel_extends (fun _ noStop => noStop) honest
    (visitsAlike_extends stable (.inl trivial)) extension

/-! ## What a scan gives over given tokens -/

/-- From every cursor ahead of which the tokens lie, the scan gives the value, at the end of its
sequence, or refuses the text if there is none. -/
def Gives (stops : Stops) (visit : Visitor σ) (scope : Scope) (depth : Nat) (gathered : σ)
    (before : List Token) (expected : Option σ) : Prop :=
  ∀ (unclosed : ParseError) (start : Cursor), start.view = before →
    (scanFrom stops visit unclosed scope depth gathered start).result.toOption = expected ∧
      (expected.isSome →
        (scanFrom stops visit unclosed scope depth gathered start).cursor.ahead = [])

variable {token : Token} {rest middleTokens : List Token} {expected : Option σ}

theorem Gives.of_leads {depthLater : Nat} {gatheredLater : σ} {later : Cursor}
    (gives : Gives stops visit scope depthLater gatheredLater later.view expected)
    (leads : Leads stops visit scope ⟨depth, gathered, start⟩ ⟨depthLater, gatheredLater, later⟩)
    (unclosed : ParseError) :
    (scanFrom stops visit unclosed scope depth gathered start).result.toOption = expected ∧
      (expected.isSome →
        (scanFrom stops visit unclosed scope depth gathered start).cursor.ahead = []) := by
  obtain ⟨result, cursor⟩ := leads unclosed
  rw [result, cursor]
  exact gives unclosed later rfl

theorem gives_end : Gives stops visit scope 0 gathered [] (some gathered) := by
  intro unclosed start view
  obtain ⟨result, cursor⟩ := scanFrom_of_halts (halts_of_ends (ends_nil stops) view)
  rw [result, cursor]
  exact ⟨rfl, fun _ => Cursor.view_eq_nil_iff.mp view⟩

theorem gives_opened (opens : token.kind = .leftParen)
    (there : Gives stops visit scope (depth + 1) gathered rest expected) :
    Gives stops visit scope depth gathered (token :: rest) expected := by
  intro unclosed start view
  rw [← Cursor.view_advance_of_view view] at there
  exact there.of_leads (leads_opened ((Cursor.kind_of_view view).trans opens)) unclosed

theorem gives_closed (closes : token.kind = .rightParen)
    (there : Gives stops visit scope depth gathered rest expected) :
    Gives stops visit scope (depth + 1) gathered (token :: rest) expected := by
  intro unclosed start view
  rw [← Cursor.view_advance_of_view view] at there
  exact there.of_leads (leads_closed ((Cursor.kind_of_view view).trans closes)) unclosed

theorem gives_taken (shown : Shown stops depth token)
    (reads : (visit depth gathered).Reads scope (token :: rest) (true, gatheredNow) middleTokens)
    (progress : middleTokens.length ≤ rest.length)
    (there : Gives stops visit scope depth gatheredNow middleTokens expected) :
    Gives stops visit scope depth gathered (token :: rest) expected := by
  intro unclosed start view
  obtain ⟨middle, found, viewMiddle⟩ := reads start view
  have moved : middle.remaining < start.remaining := by
    rw [← Cursor.length_view, ← Cursor.length_view, view, viewMiddle, List.length_cons]
    omega
  rw [← viewMiddle] at there
  exact there.of_leads (leads_taken (shown.of_view view) found moved) unclosed

theorem gives_passed (shown : Shown stops depth token)
    (reads : (visit depth gathered).Reads scope (token :: rest) (false, gatheredNow)
      (token :: rest))
    (there : Gives stops visit scope depth gatheredNow rest expected) :
    Gives stops visit scope depth gathered (token :: rest) expected := by
  intro unclosed start view
  obtain ⟨middle, found, viewMiddle⟩ := reads start view
  rw [← Cursor.view_advance_of_view viewMiddle] at there
  exact there.of_leads (leads_passed (shown.of_view view) found (by simp)) unclosed

/-- The grammar refuses the text wherever the tokens lie ahead. -/
def Refuses (grammar : Grammar α) (scope : Scope) (before : List Token) : Prop :=
  ∀ start : Cursor, start.view = before → ∃ error, (grammar scope start).result = .error error

theorem refuses_of_not_finds {grammar : Grammar α} {before : List Token}
    (none : ∀ start value final, start.view = before → ¬ grammar.Finds scope start value final) :
    grammar.Refuses scope before := by
  intro start view
  cases outcome : (grammar scope start).result with
  | error error => exact ⟨error, rfl⟩
  | ok value => exact absurd ⟨outcome, rfl⟩ (none start value _ view)

theorem gives_refused (shown : Shown stops depth token)
    (refuses : (visit depth gathered).Refuses scope (token :: rest)) :
    Gives stops visit scope depth gathered (token :: rest) none := by
  intro unclosed start view
  obtain ⟨error, refused⟩ := refuses start view
  rw [(scanFrom_of_refusal (shown.of_view view) refused).1]
  exact ⟨rfl, fun none => Bool.noConfusion none⟩

end Grammar

end TableDdl
