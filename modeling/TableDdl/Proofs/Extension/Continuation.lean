import TableDdl.Proofs.Extension.Commas
import TableDdl.Proofs.Extension.References
import TableDdl.Proofs.Shape.Columns

/-!
# What follows the end of a clause

Something that was read up to the end of a shorter sequence is read on a longer one, too. Where its
last part is passed over up to a stop word, it takes in what follows, as far as it is not stopped
there; otherwise it ends at the same place, and all that follows is left.

A column without a place and an index are passed over at their end; the other payloads of clauses
are not.
-/

namespace TableDdl

theorem Cursor.extends_nothing {shorter longer : Cursor} (done : shorter.ahead = [])
    (ended : longer.ahead = []) : Cursor.Extends .nothing shorter longer :=
  ⟨by simp [Cursor.view, done, ended, Sequel.tokens], by simp [done]⟩

namespace Grammar

variable {α β σ : Type} {left sequel : Sequel} {scope : Scope}

/-- What the grammar finds up to the end of a shorter sequence, if it is accepted, the grammar also
finds on a longer one, where it leaves the given part of the sequel. -/
def Continues (left : Sequel) (accepted : α → Prop) (sequel : Sequel) (scope : Scope)
    (grammar : Grammar α) : Prop :=
  ∀ shorter longer value final, Cursor.Extends sequel shorter longer →
    grammar.Finds scope shorter value final → accepted value → final.ahead = [] →
      ∃ finalLonger, grammar.Finds scope longer value finalLonger ∧
        Cursor.Extends left final finalLonger

/-! ## Steps -/

theorem Stable.continues {grammar : Grammar α} {accepted : α → Prop}
    (stable : Stable True sequel scope grammar) : Continues sequel accepted sequel scope grammar :=
  fun _ _ _ _ extension found _ _ => stable _ _ extension _ _ found (.inl trivial)

theorem continues_of_rejected {grammar : Grammar α} {accepted : α → Prop}
    (rejected : ∀ value, ¬ accepted value) : Continues left accepted sequel scope grammar :=
  fun _ _ value _ _ _ isAccepted => absurd isAccepted (rejected value)

theorem continues_refuse (fault : Fault) {accepted : α → Prop} :
    Continues left accepted sequel scope (refuse fault : Grammar α) :=
  fun _ _ _ _ _ found => (finds_refuse_iff.mp found).elim

theorem continues_bind {first : Grammar α} {second : α → Grammar β} {accepted : β → Prop}
    (here : Stable True sequel scope first)
    (there : ∀ value, Continues left accepted sequel scope (second value)) :
    Continues left accepted sequel scope (first >>= second) := by
  intro shorter longer value final extension found isAccepted done
  obtain ⟨seen, middle, before, after⟩ := finds_bind_iff.mp found
  obtain ⟨middleLonger, beforeLonger, extended⟩ :=
    here _ _ extension _ _ before (.inl trivial)
  obtain ⟨finalLonger, afterLonger, last⟩ := there seen _ _ _ _ extended after isAccepted done
  exact ⟨finalLonger, finds_bind_iff.mpr ⟨seen, middleLonger, beforeLonger, afterLonger⟩, last⟩

/-- What comes first need not be settled, if something has to follow it. -/
theorem continues_after {first : Grammar α} {second : α → Grammar β} {accepted : β → Prop}
    (here : Stable False sequel scope first) (progresses : ∀ value, Progresses (second value))
    (there : ∀ value, Continues left accepted sequel scope (second value)) :
    Continues left accepted sequel scope (first >>= second) := by
  intro shorter longer value final extension found isAccepted done
  obtain ⟨seen, middle, before, after⟩ := finds_bind_iff.mp found
  obtain ⟨middleLonger, beforeLonger, extended⟩ :=
    here _ _ extension _ _ before (.inr ((progresses seen).ahead_ne_nil after))
  obtain ⟨finalLonger, afterLonger, last⟩ := there seen _ _ _ _ extended after isAccepted done
  exact ⟨finalLonger, finds_bind_iff.mpr ⟨seen, middleLonger, beforeLonger, afterLonger⟩, last⟩

theorem continues_map {grammar : Grammar α} {change : α → β} {accepted : β → Prop}
    (here : Continues left (fun value => accepted (change value)) sequel scope grammar) :
    Continues left accepted sequel scope (do return change (← grammar)) := by
  intro shorter longer value final extension found isAccepted done
  obtain ⟨seen, middle, before, after⟩ := finds_bind_iff.mp found
  obtain ⟨rfl, rfl⟩ := finds_pure_iff.mp after
  obtain ⟨finalLonger, beforeLonger, last⟩ := here _ _ _ _ extension before isAccepted done
  exact ⟨finalLonger,
    finds_bind_iff.mpr ⟨seen, finalLonger, beforeLonger, finds_pure_iff.mpr ⟨rfl, rfl⟩⟩, last⟩

/-- What reads nothing more finds the same at the end of both sequences. -/
theorem continues_before {first : Grammar α} {second : α → Grammar β} {accepted : β → Prop}
    (here : Continues .nothing (fun _ => True) sequel scope first)
    (stays : ∀ value start found final, (second value).Finds scope start found final →
      start = final)
    (there : ∀ value, Stable True .nothing scope (second value)) :
    Continues .nothing accepted sequel scope (first >>= second) := by
  intro shorter longer value final extension found _ done
  obtain ⟨seen, middle, before, after⟩ := finds_bind_iff.mp found
  obtain rfl := stays seen middle value final after
  obtain ⟨middleLonger, beforeLonger, extended⟩ := here _ _ _ _ extension before trivial done
  obtain ⟨finalLonger, afterLonger, last⟩ := there seen _ _ extended _ _ after (.inl trivial)
  exact ⟨finalLonger, finds_bind_iff.mpr ⟨seen, middleLonger, beforeLonger, afterLonger⟩, last⟩

theorem continues_ite {condition : Prop} [Decidable condition] {ifTrue ifFalse : Grammar α}
    {accepted : α → Prop} (here : Continues left accepted sequel scope ifTrue)
    (there : Continues left accepted sequel scope ifFalse) :
    Continues left accepted sequel scope (if condition then ifTrue else ifFalse) := by
  split
  · exact here
  · exact there

/-- A look at which both sequences show the same. -/
theorem continues_look_bind {view : Scope → Cursor → α} {second : α → Grammar β}
    {accepted : β → Prop}
    (same : ∀ shorter longer, Cursor.Extends sequel shorter longer →
      view scope longer = view scope shorter)
    (there : ∀ value, Continues left accepted sequel scope (second value)) :
    Continues left accepted sequel scope (look view >>= second) := by
  intro shorter longer value final extension found
  rw [finds_look_bind_iff] at found
  simp only [finds_look_bind_iff, same shorter longer extension]
  exact there _ _ _ _ _ extension found

theorem continues_sees_ite {text : String} {ifSeen ifUnseen : Grammar α} {accepted : α → Prop}
    (other : Sequel.Foreign text) (here : Continues left accepted sequel scope ifSeen)
    (there : Continues left accepted sequel scope ifUnseen) :
    Continues left accepted sequel scope (do if ← sees text then ifSeen else ifUnseen) :=
  continues_look_bind (fun _ _ extension => extension.spells other) fun _ =>
    continues_ite here there

theorem continues_settings_bind {second : Settings → Grammar β} {accepted : β → Prop}
    (there : Continues left accepted sequel scope (second scope.settings)) :
    Continues left accepted sequel scope (settings >>= second) := by
  intro shorter longer value final extension found
  simp only [settings, finds_look_bind_iff] at found ⊢
  exact there _ _ _ _ extension found

theorem continues_withStops {words : List String} {grammar : Grammar α} {accepted : α → Prop}
    (here : Continues left accepted sequel { scope with stops := scope.stops.adding words }
      grammar) : Continues left accepted sequel scope (withStops words grammar) :=
  here

/-- A bare word that has to be there is a token to move past. -/
theorem continues_keyword?_bind {second : Option String → Grammar β} {accepted : β → Prop}
    (seen : ∀ word, ∃ next : Grammar β, second (some word) = (advance >>= fun _ => next) ∧
      Continues left accepted sequel scope next)
    (unseen : ∃ fault, second none = refuse fault) :
    Continues left accepted sequel scope (keyword? >>= second) := by
  intro shorter longer value final extension found isAccepted done
  rw [keyword?, finds_look_bind_iff] at found
  cases keyword : shorter.current.keyword? with
  | none =>
      obtain ⟨fault, refuses⟩ := unseen
      rw [keyword, refuses] at found
      exact (finds_refuse_iff.mp found).elim
  | some word =>
      have more : shorter.ahead ≠ [] := fun ended => by
        simp [Token.keyword?_of_isEnd (Cursor.isEnd_current_of_ahead_eq_nil ended)] at keyword
      obtain ⟨next, same, there⟩ := seen word
      rw [keyword, same, finds_advance_bind_iff] at found
      obtain ⟨finalLonger, foundLonger, last⟩ :=
        there _ _ _ _ (extension.advance more) found isAccepted done
      refine ⟨finalLonger, ?_, last⟩
      rwa [keyword?, finds_look_bind_iff, extension.keyword? more, keyword, same,
        finds_advance_bind_iff]

end Grammar

/-! ## What is passed over -/

/-- The words and marks at which something at the end of a statement stops, or which it reads. -/
def Sequel.busyWords : List String :=
  [",", ";", "PARTITION", "FIRST", "AFTER", "ON", "REFERENCES"] ++ Column.attributes

/-- The token is a bare word that is passed over at the end of a statement. -/
def Token.IsIdle (token : Token) : Prop :=
  token.kind = .word ∧ Text.upper token.text ∉ Sequel.busyWords

instance (token : Token) : Decidable token.IsIdle := inferInstanceAs (Decidable (_ ∧ _))

/-- All tokens of the sequel are passed over at the end of a statement. -/
def Sequel.Idle (sequel : Sequel) : Prop := ∀ token ∈ sequel.tokens, token.IsIdle

theorem Token.IsIdle.spells {token : Token} (idle : token.IsIdle) {text : String}
    (busy : Text.upper text ∈ Sequel.busyWords) : token.spells text = false := by
  have other : Text.upper token.text ≠ Text.upper text := fun same => idle.2 (same ▸ busy)
  simp [Token.spells, idle.1, Text.sameWord, other]

/-- All stop words are among those at the end of a statement. -/
def Stops.AreBusy (stops : Stops) : Prop := ∀ word ∈ stops.words, word ∈ Sequel.busyWords

theorem Stops.AreBusy.adding {stops : Stops} (busy : stops.AreBusy) {words : List String}
    (also : ∀ word ∈ words, Text.upper word ∈ Sequel.busyWords) : (stops.adding words).AreBusy := by
  intro word member
  rcases List.mem_append.mp member with added | before
  · obtain ⟨further, among, rfl⟩ := List.mem_map.mp added
    exact also further among
  · exact busy word before

namespace Grammar

variable {σ : Type} {sequel : Sequel} {scope : Scope}

theorem shown_idle {stops : Stops} {token : Token} (idle : token.IsIdle) (busy : stops.AreBusy) :
    Shown stops 0 token := by
  obtain ⟨isWord, other⟩ := idle
  refine ⟨by simp [Token.isEnd, isWord], by simp [isWord], by simp [isWord], fun _ => ?_⟩
  have noStop : Text.upper token.text ∉ stops.words := fun member => other (busy _ member)
  simp [Stops.stopAt, isWord, noStop]

/-- A scan whose visitor leaves idle tokens to it passes over all of them. -/
theorem gives_of_idle {stops : Stops} {visit : Visitor σ} {gathered : σ} {tokens : List Token}
    (busy : stops.AreBusy)
    (reads : ∀ (token : Token) (rest : List Token), token.IsIdle →
      (visit 0 gathered).Reads scope (token :: rest) (false, gathered) (token :: rest))
    (idle : ∀ token ∈ tokens, token.IsIdle) :
    Gives stops visit scope 0 gathered tokens (some gathered) := by
  induction tokens with
  | nil => exact gives_end
  | cons token rest ih =>
      obtain ⟨here, others⟩ := List.forall_mem_cons.mp idle
      exact gives_passed (shown_idle here busy) (reads token rest here) (ih others)

/-- A scan that came to the end of the shorter sequence passes over an idle sequel. -/
theorem continues_scan {words : List String} {initial : σ} {visit : Visitor σ}
    (honest : Honest visit)
    (stable : ∀ depth gathered shorter longer, Cursor.Extends sequel shorter longer →
      shorter.ahead ≠ [] → Carries True sequel scope (visit depth gathered) shorter longer)
    (busy : (scope.stops.adding words).AreBusy)
    (reads : ∀ (gathered : σ) (token : Token) (rest : List Token), token.IsIdle →
      (visit 0 gathered).Reads scope (token :: rest) (false, gathered) (token :: rest))
    (idle : sequel.Idle) :
    Continues .nothing (fun _ => True) sequel scope (scan words initial visit) := by
  intro shorter longer result final extension found _ done
  obtain ⟨rest, leads, last⟩ := (finds_scan_iff.mp found).resume honest stable extension
  have gives : Gives (scope.stops.adding words) visit scope 0 result rest.view (some result) := by
    rw [last.view_at_end done]
    exact gives_of_idle busy (reads result) idle
  obtain ⟨given, ended⟩ := gives.of_leads leads
    ⟨.unclosedParenthesis, "(", some longer.current.location.line⟩
  exact ⟨_, ⟨eq_ok_of_toOption given, rfl⟩, Cursor.extends_nothing done (ended rfl)⟩

end Grammar

open Grammar

variable {left sequel : Sequel} {scope : Scope}

/-! ## Columns -/

namespace Column

/-- The attributes of a column go on over an idle sequel. -/
theorem continues_afterName (idle : sequel.Idle) (busy : scope.stops.AreBusy) (name : String) :
    Continues .nothing (fun _ => True) sequel scope (afterName name) := by
  have attributes (column : Column) :
      Continues .nothing (fun _ => True) sequel scope column.withAttributes := by
    refine continues_map (continues_scan honest_attributes
      (fun depth draft _ _ => carries_attributes depth draft) (busy.adding (by decide)) ?_ idle)
    intro draft token rest idle
    have unread : ∀ text ∈ "ON" :: "REFERENCES" :: Column.attributes,
        Text.upper text ∈ Sequel.busyWords := by decide
    refine reads_idle (fun text member => idle.spells (unread text ?_)) (.inr (idle.spells ?_))
    · exact List.mem_cons_of_mem _ member
    · exact unread "ON" List.mem_cons_self
  refine continues_keyword?_bind (fun word => ⟨_, rfl, ?_⟩) ⟨_, rfl⟩
  refine continues_bind (stable_withParameters _) fun column => ?_
  exact continues_bind (stable_many stable_characterSet?) fun _ => attributes column

end Column

/-! ## Indexes -/

namespace Index

theorem continues_afterName (idle : sequel.Idle) (busy : scope.stops.AreBusy)
    (role : Option IndexRole) (name : Option String) :
    Continues .nothing (fun _ => True) sequel scope (afterName role name) := by
  have skipped : Continues .nothing (fun _ => True) sequel scope (skipTo [","]) := by
    refine continues_scan ?_ (fun _ _ _ _ extension _ => carries_pure extension _)
      (busy.adding (by decide)) (fun _ _ _ _ => reads_pure _) idle
    exact fun _ _ _ _ _ _ found => (finds_pure_iff.mp found).2.symm
  refine continues_bind stable_indexType? fun typeBefore => ?_
  refine continues_bind stable_keyParts fun columns => ?_
  cases typeBefore with
  | some indexType => exact continues_bind (stable_pure _) fun _ => continues_map skipped
  | none => exact continues_bind stable_indexType? fun _ => continues_map skipped

/-- The options of an index go on over an idle sequel. -/
theorem continues_body (idle : sequel.Idle) (busy : scope.stops.AreBusy)
    (role : Option IndexRole) : Continues .nothing (fun _ => True) sequel scope (body role) := by
  refine continues_sees_ite (by decide) ?_ ?_
  · exact continues_bind (stable_pure none) fun name => continues_afterName idle busy role name
  · exact continues_after (stable_name? False.elim) (progresses_afterName role) fun name =>
      continues_afterName idle busy role name

end Index

/-! ## Clauses -/

/-- The end of the payload is passed over up to a stop word. -/
def AlterPayload.IsOpen : AlterPayload → Prop
  | column definition | changeColumn _ definition => definition.position = none
  | index _ => True
  | columns _ | rename _ | name _ => False

instance : DecidablePred AlterPayload.IsOpen
  | .column definition | .changeColumn _ definition =>
      inferInstanceAs (Decidable (definition.position = none))
  | .index _ => inferInstanceAs (Decidable True)
  | .columns _ | .rename _ | .name _ => inferInstanceAs (Decidable False)

namespace AlterOption

/-- Reads where a column goes. -/
def readPosition (column : Column) : Grammar Column := do
  if ← consume "FIRST" then
    return { column with position := some .first }
  else if ← consume "AFTER" then
    return { column with position := some (.after (← Grammar.name)) }
  else
    return column

theorem stable_readPosition {settled : Prop} (column : Column) :
    Stable settled sequel scope (readPosition column) := by
  refine stable_consume_ite (by decide) (stable_pure _) ?_
  refine stable_consume_ite (by decide) ?_ (stable_pure column)
  exact stable_bind stable_name fun _ => stable_pure _

/-- A column has no place if none is read, and a place is read before the end. -/
theorem finds_readPosition {column placed : Column} {start final : Cursor}
    (found : (readPosition column).Finds scope start placed final) :
    (column = placed ∧ start = final) ∨ (placed.position ≠ none ∧ start.ahead ≠ []) := by
  rw [readPosition, finds_consume_ite_iff] at found
  split at found
  · obtain ⟨rfl, -⟩ := finds_pure_iff.mp found
    exact .inr ⟨nofun, Cursor.ahead_ne_nil_of_spells ‹_›⟩
  rw [finds_consume_ite_iff] at found
  split at found
  · obtain ⟨name, middle, -, reading⟩ := finds_bind_iff.mp found
    obtain ⟨rfl, -⟩ := finds_pure_iff.mp reading
    exact .inr ⟨nofun, Cursor.ahead_ne_nil_of_spells ‹_›⟩
  · exact .inl (finds_pure_iff.mp found)

/-- A column with a place ends where the place does. -/
theorem continues_positionedColumn_placed :
    Continues sequel (fun column => column.position ≠ none) sequel scope positionedColumn := by
  refine continues_bind stable_name fun name => ?_
  intro shorter longer column final extension found placed done
  obtain ⟨plain, middle, defined, reading⟩ := finds_bind_iff.mp found
  have more : middle.ahead ≠ [] := by
    rcases finds_readPosition reading with ⟨rfl, -⟩ | ⟨-, more⟩
    · have follows := Column.yields_afterName name _ _ _ _ (fun _ _ => trivial) defined
      exact absurd follows.unplaced placed
    · exact more
  have stable : Stable False sequel scope
      (withStops ["FIRST", "AFTER"] (Column.afterName name)) :=
    stable_withStops (Column.stable_afterName False.elim name)
  obtain ⟨middleLonger, definedLonger, extended⟩ :=
    stable _ _ extension _ _ defined (.inr more)
  obtain ⟨finalLonger, readingLonger, last⟩ :=
    stable_readPosition plain _ _ extended _ _ reading (.inl trivial)
  exact ⟨finalLonger, finds_bind_iff.mpr ⟨plain, middleLonger, definedLonger, readingLonger⟩, last⟩

/-- A column without a place goes on over an idle sequel. -/
theorem continues_positionedColumn_placeless (idle : sequel.Idle) (busy : scope.stops.AreBusy) :
    Continues .nothing (fun column => column.position = none) sequel scope positionedColumn := by
  refine continues_bind stable_name fun name => ?_
  intro shorter longer column final extension found placeless done
  obtain ⟨plain, middle, defined, reading⟩ := finds_bind_iff.mp found
  obtain ⟨rfl, rfl⟩ : plain = column ∧ middle = final :=
    (finds_readPosition reading).resolve_right fun placed => placed.1 placeless
  have continues : Continues .nothing (fun _ => True) sequel scope
      (withStops ["FIRST", "AFTER"] (Column.afterName name)) :=
    continues_withStops (Column.continues_afterName idle (busy.adding (by decide)) name)
  obtain ⟨middleLonger, definedLonger, extended⟩ :=
    continues _ _ _ _ extension defined trivial done
  obtain ⟨finalLonger, readingLonger, last⟩ :=
    stable_readPosition plain _ _ extended _ _ reading (.inl trivial)
  exact ⟨finalLonger, finds_bind_iff.mpr ⟨plain, middleLonger, definedLonger, readingLonger⟩, last⟩

theorem continues_readPayload_closed (action : AlterAction) (target : AlterTarget)
    (role : Option IndexRole) : Continues sequel (fun payload => ¬ payload.IsOpen) sequel scope
      (readPayload action target role) := by
  have dropped : Stable True sequel scope (do return AlterPayload.name (← droppedName role)) :=
    stable_bind (stable_droppedName role) fun _ => stable_pure _
  have renamed : Stable True sequel scope (do return AlterPayload.rename (← Rename.grammar)) :=
    stable_bind stable_rename fun _ => stable_pure _
  unfold readPayload
  split
  · refine continues_sees_ite (by decide) ?_ (continues_map continues_positionedColumn_placed)
    exact (stable_bind stable_columnGroup fun _ => stable_pure _).continues
  · exact continues_map (continues_of_rejected fun _ closed => closed trivial)
  · exact dropped.continues
  · exact dropped.continues
  · exact renamed.continues
  · exact renamed.continues
  · exact (stable_bind stable_name fun _ => stable_pure _).continues
  · exact continues_bind stable_name fun _ => continues_map continues_positionedColumn_placed
  · exact continues_map continues_positionedColumn_placed
  · exact continues_refuse _

theorem continues_readPayload_open (idle : sequel.Idle) (busy : scope.stops.AreBusy)
    (action : AlterAction) (target : AlterTarget) (role : Option IndexRole) :
    Continues .nothing AlterPayload.IsOpen sequel scope (readPayload action target role) := by
  have column := continues_positionedColumn_placeless idle busy
  unfold readPayload
  split
  · exact continues_sees_ite (by decide) (continues_map (continues_of_rejected fun _ => id))
      (continues_map column)
  · exact continues_map (Index.continues_body idle busy role)
  · exact continues_map (continues_of_rejected fun _ => id)
  · exact continues_map (continues_of_rejected fun _ => id)
  · exact continues_map (continues_of_rejected fun _ => id)
  · exact continues_map (continues_of_rejected fun _ => id)
  · exact continues_map (continues_of_rejected fun _ => id)
  · exact continues_bind stable_name fun _ => continues_map column
  · exact continues_map column
  · exact continues_refuse _

/-- A clause goes on as its payload does. -/
theorem continues_alterOption {accepted : AlterPayload → Prop}
    (named : Continues left (fun text => accepted (.name text)) sequel scope Grammar.name)
    (payload : ∀ action target role,
      Continues left accepted sequel scope (readPayload action target role)) :
    Continues left (fun option => accepted option.payload) sequel scope AlterOption.grammar := by
  refine continues_bind TableOption.stable_options fun tableOptions => ?_
  refine continues_bind stable_readAction fun action => ?_
  refine continues_look_bind (fun _ _ extension => extension.spells_any (by decide)) fun seen => ?_
  refine continues_ite (continues_map named) ?_
  exact continues_bind (stable_readTarget action) fun _ => continues_map (payload _ _ _)

theorem continues_alterOption_closed :
    Continues sequel (fun option => ¬ option.payload.IsOpen) sequel scope AlterOption.grammar :=
  continues_alterOption stable_name.continues continues_readPayload_closed

theorem continues_alterOption_open (idle : sequel.Idle) (busy : scope.stops.AreBusy) :
    Continues .nothing (fun option => option.payload.IsOpen) sequel scope AlterOption.grammar :=
  continues_alterOption (continues_of_rejected fun _ => id) (continues_readPayload_open idle busy)

end AlterOption

end TableDdl
