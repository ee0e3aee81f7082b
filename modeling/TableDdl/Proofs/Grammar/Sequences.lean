import TableDdl.Proofs.Grammar.Reads
import TableDdl.Proofs.Lexer.Steps

/-!
# Reading lists, names and groups

Lists are read item by item, provided that every item ends where a comma or what closes the list
follows. A scan is read turn by turn, and it ends where its stop words or a closing parenthesis lie
ahead. A group ends at the parenthesis that closes it, if the parentheses inside are balanced.
-/

namespace TableDdl

namespace Token

/-- An opening parenthesis. -/
def opening : Token := .bare .leftParen "("

/-- A closing parenthesis. -/
def closing : Token := .bare .rightParen ")"

/-- A comma. -/
def comma : Token := .bare .comma ","

/-- The tokens of items with commas between them. -/
def separated {α : Type} (spell : α → List Token) : List α → List Token
  | [] => []
  | [item] => spell item
  | item :: next :: others => spell item ++ comma :: separated spell (next :: others)

/-- The tokens of items that follow a first one. -/
def further {α : Type} (spell : α → List Token) (items : List α) : List Token :=
  items.flatMap fun item => comma :: spell item

theorem further_cons {α : Type} (spell : α → List Token) (item : α) (others : List α) :
    further spell (item :: others) = comma :: (spell item ++ further spell others) := by
  rw [further, List.flatMap_cons, List.cons_append, further]

theorem separated_cons {α : Type} (spell : α → List Token) (item : α) (others : List α) :
    separated spell (item :: others) = spell item ++ further spell others := by
  induction others generalizing item with
  | nil => simp [separated, further]
  | cons next others ih => rw [separated, ih, further_cons]

/-- The tokens of items in parentheses with commas between them. -/
def enclosed {α : Type} (spell : α → List Token) (items : List α) : List Token :=
  opening :: (separated spell items ++ [closing])

/-- The depth of parentheses after the tokens, from a depth on, unless they close more than is
open. -/
def depth? : Nat → List Token → Option Nat
  | depth, [] => some depth
  | depth, token :: rest =>
      match token.kind with
      | .leftParen => depth? (depth + 1) rest
      | .rightParen =>
          match depth with
          | 0 => none
          | outer + 1 => depth? outer rest
      | _ => depth? depth rest

end Token

namespace Grammar

variable {α β σ : Type} {scope : Scope} {token : Token} {rest before middle after : List Token}

/-! ## Repetitions -/

theorem reads_many_nil {item? : Grammar (Option α)} (none : item?.Reads scope before none after) :
    Reads (many item?) scope before [] after := by
  intro start view
  obtain ⟨final, found, viewAfter⟩ := none start view
  exact ⟨final, finds_many_of_repeats (.done found), viewAfter⟩

theorem reads_many_cons {item? : Grammar (Option α)} {value : α} {others : List α}
    (first : item?.Reads scope before (some value) middle)
    (progress : middle.length < before.length)
    (there : Reads (many item?) scope middle others after) :
    Reads (many item?) scope before (value :: others) after := by
  intro start view
  obtain ⟨cursor, found, viewMiddle⟩ := first start view
  obtain ⟨final, foundThere, viewAfter⟩ := there cursor viewMiddle
  refine ⟨final, finds_many_of_repeats
    (.more found ?_ (repeats_of_finds_many foundThere)), viewAfter⟩
  rw [← Cursor.length_view, ← Cursor.length_view, view, viewMiddle]
  exact progress

/-! ## Lists -/

/-- What may follow an item of a list. -/
structure Follow (follows : List Token → Prop) (after : List Token) : Prop where
  /-- A comma may follow. -/
  comma : ∀ rest, follows (Token.comma :: rest)
  /-- What follows the list may follow. -/
  last : follows after

theorem Follow.further {follows : List Token → Prop} (follow : Follow follows after)
    (spell : α → List Token) (items : List α) : follows (Token.further spell items ++ after) := by
  cases items with
  | nil => exact follow.last
  | cons next others => exact follow.comma _

/-- The items after the first one are read, each after a comma. -/
theorem reads_further {next? : Grammar (Option α)} {spell : α → List Token}
    {follows : List Token → Prop} {items : List α}
    (reads : ∀ value ∈ items, ∀ after, follows after →
      next?.Reads scope (spell value ++ after) (some value) after)
    (follow : Follow follows after) (unseen : Unseen "," after) :
    Reads (many do if ← consume "," then next? else return none) scope
      (Token.further spell items ++ after) items after := by
  induction items with
  | nil => exact reads_many_nil (reads_consume_ite_unseen unseen (reads_pure none))
  | cons next others ih =>
      have here := reads next List.mem_cons_self _ (follow.further spell others)
      have there := ih fun value member => reads value (List.mem_cons_of_mem _ member)
      rw [Token.further_cons, List.cons_append, List.append_assoc]
      refine reads_many_cons (reads_consume_ite (by decide) here) ?_ there
      simp only [List.length_cons, List.length_append]
      omega

theorem reads_commaSeparated {item : Grammar α} {spell : α → List Token}
    {follows : List Token → Prop} {items : List α} (nonempty : items ≠ [])
    (reads : ∀ value ∈ items, ∀ after, follows after →
      item.Reads scope (spell value ++ after) value after)
    (follow : Follow follows after) (unseen : Unseen "," after) :
    (commaSeparated item).Reads scope (Token.separated spell items ++ after) items after := by
  obtain ⟨first, others, rfl⟩ := List.exists_cons_of_ne_nil nonempty
  rw [Token.separated_cons, List.append_assoc]
  refine (reads first List.mem_cons_self _ (follow.further spell others)).bind ?_
  refine (reads_further (fun value member after followed => ?_) follow unseen).bind (reads_pure _)
  exact (reads value (List.mem_cons_of_mem _ member) after followed).bind (reads_pure _)

theorem reads_parenthesized (follows : List Token → Prop) {opening closing : Fault}
    {item : Grammar α} {spell : α → List Token} {items : List α} (nonempty : items ≠ [])
    (reads : ∀ value ∈ items, ∀ after, follows after →
      item.Reads scope (spell value ++ after) value after)
    (follow : Follow follows (Token.closing :: after)) :
    (parenthesized opening closing item).Reads scope (Token.enclosed spell items ++ after) items
      after := by
  have list : Token.enclosed spell items ++ after =
      Token.opening :: (Token.separated spell items ++ Token.closing :: after) := by
    simp [Token.enclosed]
  rw [list]
  refine reads_expect_bind (by decide) ?_
  refine (reads_commaSeparated nonempty reads follow (unseen_cons (by decide))).bind ?_
  exact reads_expect_bind (by decide) (reads_pure items)

/-! ## Scans -/

/-- What ends a scan with the stop words: nothing, a closing parenthesis or a stop word. -/
def Ends (stops : Stops) (after : List Token) : Prop :=
  ∀ token ∈ after.head?, token.kind = .rightParen ∨
    token.isEnd = false ∧ token.kind ≠ .leftParen ∧ stops.stopAt token = true

theorem ends_nil (stops : Stops) : Ends stops [] := by simp [Ends]

theorem ends_closing (stops : Stops) (rest : List Token) : Ends stops (Token.closing :: rest) := by
  simp [Ends, Token.closing]

theorem ends_comma (stops : Stops) (rest : List Token) :
    Ends (stops.adding [","]) (Token.comma :: rest) := by
  simp [Ends, Token.comma, Token.isEnd, Stops.stopAt, Stops.adding, Token.isPunctuation,
    Token.Kind.isPunctuation, show Text.upper "," = "," by decide]

theorem Ends.adding {stops : Stops} (ends : Ends stops after) (words : List String) :
    Ends (stops.adding words) after := by
  intro token member
  refine (ends token member).imp id fun stop => ⟨stop.1, stop.2.1, ?_⟩
  have found := stop.2.2
  simp only [Stops.stopAt, Stops.adding, List.contains_eq_mem, List.mem_append] at found ⊢
  split at found
  · rw [if_pos ‹_›]
    simp_all
  · rw [if_neg ‹_›]
    simp_all

/-- A run of a scan over given tokens. -/
def ReadsScan (stops : Stops) (visit : Visitor σ) (scope : Scope) (depth : Nat) (gathered : σ)
    (before : List Token) (result : σ) (after : List Token) : Prop :=
  ∀ start : Cursor, start.view = before →
    ∃ final, Scans stops visit scope depth gathered start result final ∧ final.view = after

variable {stops : Stops} {visit : Visitor σ} {depth : Nat} {gathered gatheredNow result : σ}

/-- A scan ends where what lies ahead ends it. -/
theorem halts_of_ends {start : Cursor} (ends : Ends stops after) (view : start.view = after) :
    Halts stops start := by
  cases after with
  | nil => exact .inl (Cursor.isEnd_of_view_nil view)
  | cons token rest =>
      have same := Cursor.placeless_current_of_view_eq_cons view
      rw [Halts, Cursor.atEnd, ← Token.isEnd_placeless, ← Token.kind_placeless,
        ← Token.stopAt_placeless, same]
      exact .inr (ends token (by simp))

theorem readsScan_done (ends : Ends stops after) :
    ReadsScan stops visit scope 0 gathered after gathered after :=
  fun start view => ⟨start, scans_of_leads (.refl _) (halts_of_ends ends view), view⟩

/-- A token that is shown under some stop words is shown under fewer of them, wherever it comes
from. -/
theorem Shown.of_placeless {stopsFew : Stops} {other : Token} (shown : Shown stops depth token)
    (fewer : ∀ token, stops.stopAt token = false → stopsFew.stopAt token = false)
    (same : other.placeless = token.placeless) : Shown stopsFew depth other := by
  refine ⟨?_, ?_, ?_, fun outside => ?_⟩
  · rw [← Token.isEnd_placeless, same]
    exact shown.notEnd
  · rw [← Token.kind_placeless, same]
    exact shown.notOpen
  · rw [← Token.kind_placeless, same]
    exact shown.notClosed
  · rw [← Token.stopAt_placeless, same, Token.stopAt_placeless]
    exact fewer _ (shown.noStop outside)

theorem Shown.of_view {start : Cursor} (shown : Shown stops depth token)
    (view : start.view = token :: rest) : Shown stops depth start.current :=
  shown.of_placeless (fun _ noStop => noStop) (by
    rw [← Cursor.placeless_current_of_view_eq_cons view, Token.placeless_placeless])

theorem readsScan_taken (shown : Shown stops depth token)
    (reads : (visit depth gathered).Reads scope (token :: rest) (true, gatheredNow) middle)
    (progress : middle.length < (token :: rest).length)
    (there : ReadsScan stops visit scope depth gatheredNow middle result after) :
    ReadsScan stops visit scope depth gathered (token :: rest) result after := by
  intro start view
  obtain ⟨cursor, found, viewMiddle⟩ := reads start view
  obtain ⟨final, run, viewAfter⟩ := there cursor viewMiddle
  obtain ⟨inside, notOpen, notClosed, noStop⟩ := shown.of_view view
  refine ⟨final, .taken inside notOpen notClosed noStop found ?_ run, viewAfter⟩
  rw [← Cursor.length_view, ← Cursor.length_view, view, viewMiddle]
  exact progress

theorem readsScan_passed (shown : Shown stops depth token)
    (reads : (visit depth gathered).Reads scope (token :: rest) (false, gatheredNow) (token :: rest))
    (there : ReadsScan stops visit scope depth gatheredNow rest result after) :
    ReadsScan stops visit scope depth gathered (token :: rest) result after := by
  intro start view
  obtain ⟨cursor, found, viewMiddle⟩ := reads start view
  obtain ⟨final, run, viewAfter⟩ := there cursor.advance (Cursor.view_advance_of_view viewMiddle)
  obtain ⟨inside, notOpen, notClosed, noStop⟩ := shown.of_view view
  exact ⟨final, .passed inside notOpen notClosed noStop found (by simp) run, viewAfter⟩

theorem readsScan_opened (opens : token.kind = .leftParen)
    (there : ReadsScan stops visit scope (depth + 1) gathered rest result after) :
    ReadsScan stops visit scope depth gathered (token :: rest) result after := by
  intro start view
  obtain ⟨final, run, viewAfter⟩ := there start.advance (Cursor.view_advance_of_view view)
  exact ⟨final, .opened ((Cursor.kind_of_view view).trans opens) run, viewAfter⟩

theorem readsScan_closed (closes : token.kind = .rightParen)
    (there : ReadsScan stops visit scope depth gathered rest result after) :
    ReadsScan stops visit scope (depth + 1) gathered (token :: rest) result after := by
  intro start view
  obtain ⟨final, run, viewAfter⟩ := there start.advance (Cursor.view_advance_of_view view)
  exact ⟨final, .closed ((Cursor.kind_of_view view).trans closes) run, viewAfter⟩

theorem reads_scan {words : List String} {initial : σ}
    (reads : ReadsScan (scope.stops.adding words) visit scope 0 initial before result after) :
    (scan words initial visit).Reads scope before result after := by
  intro start view
  obtain ⟨final, run, viewAfter⟩ := reads start view
  exact ⟨final, finds_scan_iff.mpr run, viewAfter⟩

/-- Nothing is passed over where a scan ends at once. -/
theorem reads_skipTo {words : List String} (ends : Ends (scope.stops.adding words) after) :
    (skipTo words).Reads scope after () after :=
  reads_scan (readsScan_done ends)

/-! ## Groups -/

theorem closingIndex?_of_depth? {inner : List Token} {depth : Nat}
    (notEnd : ∀ token ∈ inner, token.isEnd = false) (balanced : Token.depth? depth inner = some 0)
    (rest : List Token) :
    closingIndex? depth (inner ++ Token.closing :: rest) = some inner.length := by
  induction inner generalizing depth with
  | nil =>
      obtain rfl : depth = 0 := by simpa [Token.depth?] using balanced
      simp [closingIndex?, Token.closing]
  | cons token inner ih =>
      have others := fun token member => notEnd token (List.mem_cons_of_mem _ member)
      have here : token.kind ≠ .endOfInput := by simpa [Token.isEnd] using notEnd token (by simp)
      simp only [List.cons_append, closingIndex?, Token.depth?] at balanced ⊢
      cases kind : token.kind with
      | rightParen =>
          cases depth with
          | zero => simp [kind] at balanced
          | succ outer => simp_all
      | endOfInput => exact absurd kind here
      | _ => simp_all

/-- A group is read up to the parenthesis that closes it. -/
theorem reads_group {inner : List Token} (notEnd : ∀ token ∈ inner, token.isEnd = false)
    (balanced : Token.depth? 0 inner = some 0) :
    group.Reads scope (Token.opening :: (inner ++ Token.closing :: after))
      (Token.renderRaw inner) after := by
  intro start view
  have tail : start.ahead.tail.map Token.placeless = inner ++ Token.closing :: after := by
    rw [← Cursor.view_advance_of_view view]
    rfl
  have closing := closingIndex?_of_depth? notEnd balanced after
  refine ⟨start.skip (inner.length + 2), finds_group_iff.mpr
    ⟨(Cursor.spells_of_view view _).trans (by decide), inner.length, ?_, ?_, rfl⟩, ?_⟩
  · rw [← closingIndex?_map_placeless, tail, closing]
  · rw [← Token.renderRaw_map_placeless, List.map_take, tail, List.take_left]
  · rw [Cursor.view_skip, view]
    simp [List.drop_append]

/-! ## Names -/

/-- The tokens of a quoted name. -/
def nameTokens (name : String) : List Token := Lexer.nameTokens name.toList

theorem nameTokens_eq {name : String} (nonempty : name ≠ "") :
    nameTokens name =
      [Lexer.backtickToken, .bare .identifier name, Lexer.backtickToken] := by
  have some : name.toList ≠ [] := by simpa using nonempty
  simp [nameTokens, Lexer.nameTokens, some]

theorem reads_name? {name : String} (nonempty : name ≠ "") :
    name?.Reads scope (nameTokens name ++ after) (some name) after := by
  rw [nameTokens_eq nonempty]
  refine reads_consume_ite (by decide) (reads_seesKind_bind rfl ?_)
  refine reads_current_bind (fun _ => rfl) (reads_advance_bind ?_)
  exact reads_expect_bind (by decide) (reads_pure _)

theorem reads_name {name : String} (nonempty : name ≠ "") :
    Grammar.name.Reads scope (nameTokens name ++ after) name after :=
  (reads_name? nonempty).bind (reads_pure name)

/-- There is no name where a mark stands. -/
theorem reads_name?_none (noBacktick : token.spells "\x60" = false) (noWord : token.kind ≠ .word) :
    name?.Reads scope (token :: rest) none (token :: rest) := by
  refine reads_consume_ite_unseen (unseen_cons noBacktick) ?_
  refine reads_seesKind_bind_other noWord ?_
  exact reads_look_bind (fun _ view => Cursor.stopAt_of_view view _) (reads_pure none)

theorem reads_names {names : List String} (nonempty : names ≠ [])
    (nonemptyNames : ∀ name ∈ names, name ≠ "") :
    Grammar.names.Reads scope (Token.enclosed nameTokens names ++ after) names after :=
  reads_parenthesized (fun _ => True) nonempty
    (fun name member _ _ => reads_name (nonemptyNames name member))
    ⟨fun _ => trivial, trivial⟩

end Grammar

end TableDdl
