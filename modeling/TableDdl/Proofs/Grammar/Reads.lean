import TableDdl.Literal.Grammar
import TableDdl.Proofs.Grammar.Runs
import TableDdl.Proofs.Grammar.View

/-!
# Reading given tokens

A grammar reads a value from a sequence of tokens, up to the rest of the sequence, if it finds the
value from every cursor ahead of which the sequence lies. The rules of this file put such readings
together step by step, in the order in which a grammar takes them.
-/

namespace TableDdl

/-- The sequence does not start with the word or mark. -/
def Unseen (text : String) (tokens : List Token) : Prop :=
  ∀ token ∈ tokens.head?, token.spells text = false

theorem Token.spells_word_of_ne {word text : String} (other : Text.upper word ≠ Text.upper text) :
    (Token.bare .word word).spells text = false := by
  simp [Token.spells, Text.sameWord, other]

theorem unseen_nil (text : String) : Unseen text [] := by simp [Unseen]

theorem unseen_cons {text : String} {token : Token} {rest : List Token}
    (other : token.spells text = false) : Unseen text (token :: rest) := by
  simpa [Unseen] using other

namespace Cursor

variable {start : Cursor} {token : Token} {rest before : List Token}

theorem spells_of_view (view : start.view = token :: rest) (text : String) :
    start.current.spells text = token.spells text := by
  rw [← placeless_current_of_view_eq_cons view, Token.spells_placeless]

theorem kind_of_view (view : start.view = token :: rest) : start.current.kind = token.kind := by
  rw [← placeless_current_of_view_eq_cons view, Token.kind_placeless]

theorem keyword?_of_view (view : start.view = token :: rest) :
    start.current.keyword? = token.keyword? := by
  rw [← placeless_current_of_view_eq_cons view, Token.keyword?_placeless]

theorem stopAt_of_view (view : start.view = token :: rest) (stops : Stops) :
    stops.stopAt start.current = stops.stopAt token := by
  rw [← placeless_current_of_view_eq_cons view, Token.stopAt_placeless]

theorem view_advance_of_view (view : start.view = token :: rest) : start.advance.view = rest := by
  rw [view_advance, view, List.tail_cons]

theorem isEnd_of_view_nil (view : start.view = []) : start.current.isEnd = true :=
  isEnd_current_of_ahead_eq_nil (view_eq_nil_iff.mp view)

theorem not_spells_of_unseen {text : String} (view : start.view = before)
    (unseen : Unseen text before) : start.current.spells text = false := by
  cases before with
  | nil => exact Token.spells_of_isEnd (isEnd_of_view_nil view) text
  | cons token rest =>
      rw [spells_of_view view]
      exact unseen token (by simp)

end Cursor

namespace Grammar

variable {α β : Type} {scope : Scope} {token : Token} {rest before middle after : List Token}

/-- From every cursor ahead of which the first sequence lies, the grammar finds the value and stops
where the second sequence lies ahead. -/
def Reads (grammar : Grammar α) (scope : Scope) (before : List Token) (value : α)
    (after : List Token) : Prop :=
  ∀ start : Cursor, start.view = before →
    ∃ final, grammar.Finds scope start value final ∧ final.view = after

theorem reads_pure (value : α) : (pure value : Grammar α).Reads scope before value before := by
  intro start view
  exact ⟨start, finds_pure_iff.mpr ⟨rfl, rfl⟩, view⟩

theorem Reads.bind {first : Grammar α} {second : α → Grammar β} {found : α} {value : β}
    (here : first.Reads scope before found middle)
    (there : (second found).Reads scope middle value after) :
    (first >>= second).Reads scope before value after := by
  intro start view
  obtain ⟨cursor, foundHere, viewMiddle⟩ := here start view
  obtain ⟨final, foundThere, viewAfter⟩ := there cursor viewMiddle
  exact ⟨final, finds_bind_iff.mpr ⟨found, cursor, foundHere, foundThere⟩, viewAfter⟩

theorem Reads.map {grammar : Grammar α} {value : α} (reads : grammar.Reads scope before value after)
    (change : α → β) : (change <$> grammar).Reads scope before (change value) after :=
  reads.bind (reads_pure (change value))

/-- A look whose outcome is known from the tokens ahead. -/
theorem reads_look_bind {view : Scope → Cursor → α} {second : α → Grammar β} {seen : α} {value : β}
    (look : ∀ start : Cursor, start.view = before → view scope start = seen)
    (there : (second seen).Reads scope before value after) :
    (Grammar.look view >>= second).Reads scope before value after := by
  intro start ahead
  obtain ⟨final, found, viewAfter⟩ := there start ahead
  exact ⟨final, finds_look_bind_iff.mpr (by rwa [look start ahead]), viewAfter⟩

/-- A look whose outcome does not matter. -/
theorem reads_look_bind_any {view : Scope → Cursor → α} {second : α → Grammar β} {value : β}
    (there : ∀ seen, (second seen).Reads scope before value after) :
    (Grammar.look view >>= second).Reads scope before value after := by
  intro start ahead
  obtain ⟨final, found, viewAfter⟩ := there (view scope start) start ahead
  exact ⟨final, finds_look_bind_iff.mpr found, viewAfter⟩

theorem reads_advance_bind {second : Unit → Grammar β} {value : β}
    (there : (second ()).Reads scope rest value after) :
    (advance >>= second).Reads scope (token :: rest) value after := by
  intro start view
  obtain ⟨final, found, viewAfter⟩ := there start.advance (Cursor.view_advance_of_view view)
  exact ⟨final, finds_advance_bind_iff.mpr found, viewAfter⟩

/-! ## Words and marks -/

theorem reads_consume_ite {text : String} {left right : Grammar β} {value : β}
    (spelled : token.spells text = true) (there : left.Reads scope rest value after) :
    (do if ← consume text then left else right : Grammar β).Reads scope (token :: rest) value
      after := by
  intro start view
  obtain ⟨final, found, viewAfter⟩ := there start.advance (Cursor.view_advance_of_view view)
  refine ⟨final, finds_consume_ite_iff.mpr ?_, viewAfter⟩
  rwa [if_pos ((Cursor.spells_of_view view text).trans spelled)]

theorem reads_consume_ite_unseen {text : String} {left right : Grammar β} {value : β}
    (unseen : Unseen text before) (there : right.Reads scope before value after) :
    (do if ← consume text then left else right : Grammar β).Reads scope before value after := by
  intro start view
  obtain ⟨final, found, viewAfter⟩ := there start view
  refine ⟨final, finds_consume_ite_iff.mpr ?_, viewAfter⟩
  rwa [if_neg (by simp [Cursor.not_spells_of_unseen view unseen])]

theorem reads_consume_bind {text : String} {second : Bool → Grammar β} {value : β}
    (spelled : token.spells text = true) (there : (second true).Reads scope rest value after) :
    (consume text >>= second).Reads scope (token :: rest) value after := by
  intro start view
  obtain ⟨final, found, viewAfter⟩ := there start.advance (Cursor.view_advance_of_view view)
  refine ⟨final, finds_consume_bind_iff.mpr ?_, viewAfter⟩
  rwa [if_pos ((Cursor.spells_of_view view text).trans spelled)]

theorem reads_consume_bind_unseen {text : String} {second : Bool → Grammar β} {value : β}
    (unseen : Unseen text before) (there : (second false).Reads scope before value after) :
    (consume text >>= second).Reads scope before value after := by
  intro start view
  obtain ⟨final, found, viewAfter⟩ := there start view
  refine ⟨final, finds_consume_bind_iff.mpr ?_, viewAfter⟩
  rwa [if_neg (by simp [Cursor.not_spells_of_unseen view unseen])]

theorem reads_consumeAny_bind {texts : List String} {second : Bool → Grammar β} {value : β}
    (spelled : texts.any token.spells = true)
    (there : (second true).Reads scope rest value after) :
    (consumeAny texts >>= second).Reads scope (token :: rest) value after := by
  intro start view
  obtain ⟨final, found, viewAfter⟩ := there start.advance (Cursor.view_advance_of_view view)
  refine ⟨final, finds_consumeAny_bind_iff.mpr ?_, viewAfter⟩
  have same : start.current.spells = token.spells := funext (Cursor.spells_of_view view)
  rwa [same, if_pos spelled]

theorem reads_consumeAny_bind_unseen {texts : List String} {second : Bool → Grammar β} {value : β}
    (unseen : ∀ text ∈ texts, Unseen text before)
    (there : (second false).Reads scope before value after) :
    (consumeAny texts >>= second).Reads scope before value after := by
  intro start view
  obtain ⟨final, found, viewAfter⟩ := there start view
  refine ⟨final, finds_consumeAny_bind_iff.mpr ?_, viewAfter⟩
  rwa [if_neg]
  simp only [List.any_eq_true, not_exists, not_and, Bool.not_eq_true]
  exact fun text member => Cursor.not_spells_of_unseen view (unseen text member)

theorem reads_expect_bind {text : String} {fault : Fault} {second : Unit → Grammar β} {value : β}
    (spelled : token.spells text = true) (there : (second ()).Reads scope rest value after) :
    (expect text fault >>= second).Reads scope (token :: rest) value after := by
  intro start view
  obtain ⟨final, found, viewAfter⟩ := there start.advance (Cursor.view_advance_of_view view)
  exact ⟨final, finds_expect_bind_iff.mpr
    ⟨(Cursor.spells_of_view view text).trans spelled, found⟩, viewAfter⟩

theorem reads_expect {text : String} {fault : Fault} (spelled : token.spells text = true) :
    (expect text fault).Reads scope (token :: rest) () rest := by
  intro start view
  exact ⟨start.advance, finds_expect_iff.mpr
    ⟨(Cursor.spells_of_view view text).trans spelled, rfl⟩, Cursor.view_advance_of_view view⟩

theorem reads_sees_bind {text : String} {second : Bool → Grammar β} {value : β}
    (spelled : token.spells text = true)
    (there : (second true).Reads scope (token :: rest) value after) :
    (sees text >>= second).Reads scope (token :: rest) value after :=
  reads_look_bind (fun _ view => (Cursor.spells_of_view view text).trans spelled) there

theorem reads_sees_bind_unseen {text : String} {second : Bool → Grammar β} {value : β}
    (unseen : Unseen text before) (there : (second false).Reads scope before value after) :
    (sees text >>= second).Reads scope before value after :=
  reads_look_bind (fun _ view => Cursor.not_spells_of_unseen view unseen) there

theorem reads_nextSees_bind {text : String} {next : Token} {second : Bool → Grammar β} {value : β}
    (spelled : next.spells text = true)
    (there : (second true).Reads scope (token :: next :: rest) value after) :
    (nextSees text >>= second).Reads scope (token :: next :: rest) value after :=
  reads_look_bind (fun _ view =>
    (Cursor.spells_of_view (Cursor.view_advance_of_view view) text).trans spelled) there

theorem reads_nextSees_bind_unseen {text : String} {second : Bool → Grammar β} {value : β}
    (unseen : Unseen text rest)
    (there : (second false).Reads scope (token :: rest) value after) :
    (nextSees text >>= second).Reads scope (token :: rest) value after :=
  reads_look_bind (fun _ view =>
    Cursor.not_spells_of_unseen (Cursor.view_advance_of_view view) unseen) there

theorem reads_nextSees_bind_any {text : String} {second : Bool → Grammar β} {value : β}
    (there : ∀ seen, (second seen).Reads scope before value after) :
    (nextSees text >>= second).Reads scope before value after :=
  reads_look_bind_any there

theorem reads_seesAny_bind_unseen {texts : List String} {second : Bool → Grammar β} {value : β}
    (unseen : ∀ text ∈ texts, Unseen text before)
    (there : (second false).Reads scope before value after) :
    (seesAny texts >>= second).Reads scope before value after := by
  refine reads_look_bind (fun start view => ?_) there
  rw [List.any_eq_false]
  intro text member
  simp [Cursor.not_spells_of_unseen view (unseen text member)]

theorem reads_seesAny_bind {texts : List String} {second : Bool → Grammar β} {value : β}
    (spelled : texts.any token.spells = true)
    (there : (second true).Reads scope (token :: rest) value after) :
    (seesAny texts >>= second).Reads scope (token :: rest) value after := by
  refine reads_look_bind (fun start view => ?_) there
  have same : start.current.spells = token.spells := funext (Cursor.spells_of_view view)
  rwa [same]

theorem reads_seesKind_bind {kind : Token.Kind} {second : Bool → Grammar β} {value : β}
    (isKind : token.kind = kind)
    (there : (second true).Reads scope (token :: rest) value after) :
    (seesKind kind >>= second).Reads scope (token :: rest) value after :=
  reads_look_bind (fun _ view => decide_eq_true ((Cursor.kind_of_view view).trans isKind)) there

/-- The sequence does not start with a token of the kind. -/
theorem reads_seesKind_bind_other {kind : Token.Kind} {second : Bool → Grammar β} {value : β}
    (other : token.kind ≠ kind)
    (there : (second false).Reads scope (token :: rest) value after) :
    (seesKind kind >>= second).Reads scope (token :: rest) value after :=
  reads_look_bind (fun _ view => decide_eq_false (by rwa [Cursor.kind_of_view view])) there

theorem reads_keyword?_bind {second : Option String → Grammar β} {value : β}
    (there : (second token.keyword?).Reads scope (token :: rest) value after) :
    (keyword? >>= second).Reads scope (token :: rest) value after :=
  reads_look_bind (fun _ view => Cursor.keyword?_of_view view) there

/-- What depends on the current token up to its place. -/
theorem reads_current_bind {second : Token → Grammar β} {value : β}
    (placeless : ∀ token : Token, second token.placeless = second token)
    (there : (second token).Reads scope (token :: rest) value after) :
    (current >>= second).Reads scope (token :: rest) value after := by
  intro start view
  obtain ⟨final, found, viewAfter⟩ := there start view
  refine ⟨final, finds_look_bind_iff.mpr ?_, viewAfter⟩
  rwa [← placeless, Cursor.placeless_current_of_view_eq_cons view]

theorem reads_settings_bind {second : Settings → Grammar β} {value : β}
    (there : (second scope.settings).Reads scope before value after) :
    (settings >>= second).Reads scope before value after :=
  reads_look_bind (fun _ _ => rfl) there

theorem reads_withStops {words : List String} {grammar : Grammar α} {value : α}
    (reads : grammar.Reads { scope with stops := scope.stops.adding words } before value after) :
    (withStops words grammar).Reads scope before value after :=
  reads

theorem reads_orRefuse {grammar : Grammar α} {fault : Fault} {value : α}
    (reads : grammar.Reads scope before value after) :
    (orRefuse grammar fault).Reads scope before value after := by
  intro start view
  obtain ⟨final, found, viewAfter⟩ := reads start view
  exact ⟨final, finds_orRefuse_iff.mpr found, viewAfter⟩

end Grammar

end TableDdl
