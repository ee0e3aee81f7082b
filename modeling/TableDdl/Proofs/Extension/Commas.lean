import TableDdl.Proofs.Extension.Statements
import TableDdl.Proofs.Grammar.Sequences

/-!
# Commas at the end

Commas outside parentheses set clauses apart, and no clause reads past one. So where a sequence of
tokens ends with a comma, a clause that is found in it stops before the end.
-/

namespace TableDdl

/-- The last token ahead of the cursor is a comma. -/
def Cursor.EndsInComma (cursor : Cursor) : Prop := cursor.view.getLast? = some Token.comma

namespace Cursor.EndsInComma

variable {earlier later cursor : Cursor}

theorem ahead_ne_nil (ends : cursor.EndsInComma) : cursor.ahead ≠ [] := by
  intro done
  simp [EndsInComma, view, done] at ends

/-- All cursors of a sequence but the one at its end have the same last token. -/
theorem iff_of_reaches (reaches : earlier.Reaches later) (more : later.ahead ≠ []) :
    earlier.EndsInComma ↔ later.EndsInComma := by
  obtain ⟨before, split⟩ := reaches.ahead
  have viewMore : later.view ≠ [] := fun done => more (view_eq_nil_iff.mp done)
  have joined : earlier.view = before.map Token.placeless ++ later.view := by
    rw [view, ← split, List.map_append]
    rfl
  rw [EndsInComma, EndsInComma, joined, List.getLast?_append,
    List.getLast?_eq_some_getLast viewMore, Option.some_or]

theorem of_reaches (ends : earlier.EndsInComma) (reaches : earlier.Reaches later)
    (more : later.ahead ≠ []) : later.EndsInComma :=
  (iff_of_reaches reaches more).mp ends

/-- Moving past a token that is no comma leaves the last one ahead. -/
theorem advance (ends : cursor.EndsInComma) (other : cursor.current.placeless ≠ Token.comma) :
    cursor.advance.EndsInComma := by
  refine ends.of_reaches (.advance cursor) fun done => other ?_
  obtain ⟨token, rest, ahead⟩ := List.exists_cons_of_ne_nil ends.ahead_ne_nil
  obtain rfl : rest = [] := by simpa [Cursor.advance, ahead] using done
  rw [current_of_ahead_eq_cons ahead]
  simpa [EndsInComma, view, ahead] using ends

theorem advance_of_kind (ends : cursor.EndsInComma) (other : cursor.current.kind ≠ .comma) :
    cursor.advance.EndsInComma := by
  refine ends.advance fun same => other ?_
  rw [← Token.kind_placeless, same]
  rfl

theorem advance_of_spells (ends : cursor.EndsInComma) {text : String}
    (spelled : cursor.current.spells text = true) (other : Token.comma.spells text = false) :
    cursor.advance.EndsInComma := by
  refine ends.advance fun same => ?_
  rw [← Token.spells_placeless, same, other] at spelled
  exact Bool.noConfusion spelled

end Cursor.EndsInComma

namespace Grammar

variable {α β σ : Type}

/-- The grammar does not read past a comma with which a sequence ends. -/
def Spares (grammar : Grammar α) : Prop :=
  ∀ scope start value final, grammar.Finds scope start value final → start.EndsInComma →
    final.EndsInComma

/-- The grammar does not read past a comma with which a sequence ends, where it does not stand on a
comma. -/
def SparesElsewhere (grammar : Grammar α) : Prop :=
  ∀ scope start value final, grammar.Finds scope start value final →
    start.current.placeless ≠ Token.comma → start.EndsInComma → final.EndsInComma

/-! ## Steps -/

theorem Spares.elsewhere {grammar : Grammar α} (spares : Spares grammar) :
    SparesElsewhere grammar :=
  fun scope start value final found _ => spares scope start value final found

theorem spares_pure (value : α) : Spares (pure value : Grammar α) := by
  intro scope start found final reading ends
  obtain ⟨-, rfl⟩ := finds_pure_iff.mp reading
  exact ends

theorem spares_refuse (fault : Fault) : Spares (refuse fault : Grammar α) :=
  fun _ _ _ _ found => (finds_refuse_iff.mp found).elim

theorem spares_bind {first : Grammar α} {second : α → Grammar β} (here : Spares first)
    (there : ∀ value, Spares (second value)) : Spares (first >>= second) := by
  intro scope start value final found ends
  obtain ⟨seen, middle, before, after⟩ := finds_bind_iff.mp found
  exact there seen _ _ _ _ after (here _ _ _ _ before ends)

/-- What comes first may read past commas, if something has to follow it. -/
theorem spares_after {first : Grammar α} {second : α → Grammar β}
    (progresses : ∀ value, Progresses (second value)) (there : ∀ value, Spares (second value)) :
    Spares (first >>= second) := by
  intro scope start value final found ends
  obtain ⟨seen, middle, before, after⟩ := finds_bind_iff.mp found
  exact there seen _ _ _ _ after
    (ends.of_reaches before.reaches ((progresses seen).ahead_ne_nil after))

theorem spares_ite {condition : Prop} [Decidable condition] {left right : Grammar α}
    (ifTrue : Spares left) (ifFalse : Spares right) :
    Spares (if condition then left else right) := by
  split
  · exact ifTrue
  · exact ifFalse

theorem spares_refuse_bind {fault : Fault} {second : α → Grammar β} :
    Spares ((refuse fault : Grammar α) >>= second) :=
  fun _ _ _ _ found => (finds_refuse_bind_iff.mp found).elim

theorem spares_look_bind {view : Scope → Cursor → α} {second : α → Grammar β}
    (there : ∀ value, Spares (second value)) : Spares (look view >>= second) := by
  intro scope start value final found
  exact there _ _ _ _ _ (finds_look_bind_iff.mp found)

theorem sparesElsewhere_look_bind {view : Scope → Cursor → α} {second : α → Grammar β}
    (there : ∀ value, SparesElsewhere (second value)) :
    SparesElsewhere (look view >>= second) := by
  intro scope start value final found
  exact there _ _ _ _ _ (finds_look_bind_iff.mp found)

theorem sparesElsewhere_ite {condition : Prop} [Decidable condition] {left right : Grammar α}
    (ifTrue : SparesElsewhere left) (ifFalse : SparesElsewhere right) :
    SparesElsewhere (if condition then left else right) := by
  split
  · exact ifTrue
  · exact ifFalse

theorem sparesElsewhere_advance_bind {second : Unit → Grammar β} (there : Spares (second ())) :
    SparesElsewhere (advance >>= second) := by
  intro scope start value final found other ends
  exact there _ _ _ _ (finds_advance_bind_iff.mp found) (ends.advance other)

theorem spares_current_bind {second : Token → Grammar β}
    (comma : ∀ token, token.placeless = Token.comma → Spares (second token))
    (other : ∀ token, token.placeless ≠ Token.comma → SparesElsewhere (second token)) :
    Spares (current >>= second) := by
  intro scope start value final found
  rw [current, finds_look_bind_iff] at found
  by_cases isComma : start.current.placeless = Token.comma
  · exact comma _ isComma _ _ _ _ found
  · exact other _ isComma _ _ _ _ found isComma

theorem spares_keyword?_bind {second : Option String → Grammar β}
    (seen : ∀ word, SparesElsewhere (second (some word))) (unseen : Spares (second none)) :
    Spares (keyword? >>= second) := by
  intro scope start value final found
  rw [keyword?, finds_look_bind_iff] at found
  cases keyword : start.current.keyword? with
  | none => exact unseen _ _ _ _ (keyword ▸ found)
  | some word =>
      refine seen word _ _ _ _ (keyword ▸ found) fun same => ?_
      rw [← Token.keyword?_placeless, same] at keyword
      cases keyword

theorem spares_seesKind_bind {kind : Token.Kind} {second : Bool → Grammar β}
    (noComma : kind ≠ .comma) (seen : SparesElsewhere (second true))
    (unseen : Spares (second false)) : Spares (seesKind kind >>= second) := by
  intro scope start value final found
  rw [seesKind, finds_look_bind_iff] at found
  by_cases isKind : start.current.kind = kind
  · rw [decide_eq_true isKind] at found
    refine seen _ _ _ _ found fun same => noComma ?_
    rw [← isKind, ← Token.kind_placeless, same]
    rfl
  · rw [decide_eq_false isKind] at found
    exact unseen _ _ _ _ found

theorem spares_consume {text : String} (other : Token.comma.spells text = false) :
    Spares (consume text) := by
  intro scope start value final found ends
  by_cases spelled : start.current.spells text = true
  · obtain ⟨rfl, rfl⟩ : true = value ∧ start.advance = final := by
      simpa [consume, sees, spelled] using found
    exact ends.advance_of_spells spelled other
  · obtain ⟨rfl, rfl⟩ : false = value ∧ start = final := by
      simpa [consume, sees, spelled] using found
    exact ends

theorem spares_consume_ite {text : String} {left right : Grammar β}
    (other : Token.comma.spells text = false) (after : Spares left) (without : Spares right) :
    Spares (do if ← consume text then left else right) :=
  spares_bind (spares_consume other) fun _ => spares_ite after without

theorem spares_consumeAny {texts : List String}
    (other : ∀ text ∈ texts, Token.comma.spells text = false) : Spares (consumeAny texts) := by
  intro scope start value final found ends
  rw [consumeAny, seesAny, finds_look_bind_iff] at found
  split at found
  · rename_i spelled
    obtain ⟨text, member, spells⟩ := List.any_eq_true.mp spelled
    rw [finds_advance_bind_iff, finds_pure_iff] at found
    obtain ⟨-, rfl⟩ := found
    exact ends.advance_of_spells spells (other text member)
  · obtain ⟨-, rfl⟩ := finds_pure_iff.mp found
    exact ends

theorem spares_expect {text : String} {fault : Fault} (other : Token.comma.spells text = false) :
    Spares (expect text fault) := by
  intro scope start value final found ends
  obtain ⟨spelled, rfl⟩ := finds_expect_iff.mp found
  exact ends.advance_of_spells spelled other

theorem spares_withStops {words : List String} {grammar : Grammar α} (spares : Spares grammar) :
    Spares (withStops words grammar) :=
  fun _ _ _ _ found => spares _ _ _ _ (finds_withStops_iff.mp found)

/-! ## Repetitions, scans and groups -/

theorem spares_many {item? : Grammar (Option α)} (spares : Spares item?) :
    Spares (many item?) := by
  intro scope start values final found ends
  have run := repeats_of_finds_many found
  clear found
  induction run with
  | done none => exact spares _ _ _ _ none ends
  | more found progress after ih => exact ih (spares _ _ _ _ found ends)
  | stuck found standstill => exact spares _ _ _ _ found ends

/-- A list in parentheses ends with a parenthesis. -/
theorem spares_parenthesized (opening closing : Fault) (item : Grammar α) :
    Spares (parenthesized opening closing item) := by
  intro scope start values final found ends
  obtain ⟨opened, middle, items, closed, rfl⟩ := finds_parenthesized_iff.mp found
  have here : middle.EndsInComma := ends.of_reaches
    ((Cursor.Reaches.advance start).trans items.reaches) (Cursor.ahead_ne_nil_of_spells closed)
  exact here.advance_of_spells closed (by decide)

theorem kind_of_closingIndex? {depth length : Nat} {tokens : List Token}
    (closing : closingIndex? depth tokens = some length) :
    ∃ token, tokens[length]? = some token ∧ token.kind = .rightParen := by
  fun_induction closingIndex? depth tokens generalizing length <;> simp_all
  all_goals
    obtain ⟨inner, found, rfl⟩ := closing
    simp_all

/-- A group ends with the parenthesis that closes it. -/
theorem spares_group : Spares group := by
  intro scope start text final found ends
  obtain ⟨opened, length, closing, -, rfl⟩ := finds_group_iff.mp found
  obtain ⟨token, there, closes⟩ := kind_of_closingIndex? closing
  have last : start.skip (length + 2) = (start.skip (length + 1)).advance := by
    simp [Cursor.skip, Cursor.advance]
  have ahead : (start.skip (length + 1)).ahead = token :: start.ahead.drop (length + 2) := by
    rw [List.getElem?_tail] at there
    obtain ⟨bound, same⟩ := List.getElem?_eq_some_iff.mp there
    rw [← same]
    exact List.drop_eq_getElem_cons bound
  have here : (start.skip (length + 1)).EndsInComma :=
    ends.of_reaches (.skip start _) (by simp [ahead])
  rw [last]
  exact here.advance_of_kind (by simp [Cursor.current_of_ahead_eq_cons ahead, closes])

/-- A scan does not begin inside parentheses at the end of a sequence. -/
theorem Scans.depth_eq_zero {stops : Stops} {visit : Visitor σ} {scope : Scope} {depth : Nat}
    {gathered result : σ} {start final : Cursor}
    (run : Scans stops visit scope depth gathered start result final) (done : start.ahead = []) :
    depth = 0 := by
  have kind := Token.kind_of_isEnd (Cursor.isEnd_current_of_ahead_eq_nil done)
  have ended : start.atEnd = true := Cursor.isEnd_current_of_ahead_eq_nil done
  cases run with
  | ended | surrounded | stopped => rfl
  | opened opens => simp [kind] at opens
  | closed closes => simp [kind] at closes
  | taken inside | passed inside => simp [ended] at inside

/-- Inside parentheses a scan passes over commas, but only outside of them it can end. -/
theorem Scans.endsInComma {stops : Stops} {visit : Visitor σ} {scope : Scope} {depth : Nat}
    {gathered result : σ} {start final : Cursor} (comma : stops.stopAt Token.comma = true)
    (honest : Honest visit) (spares : ∀ depth gathered, Spares (visit depth gathered))
    (run : Scans stops visit scope depth gathered start result final)
    (ends : start.EndsInComma) : final.EndsInComma := by
  induction run with
  | ended | surrounded | stopped => exact ends
  | opened opens after ih => exact ih (ends.advance_of_kind (by simp [opens]))
  | closed closes after ih => exact ih (ends.advance_of_kind (by simp [closes]))
  | taken inside notOpen notClosed noStop found progress after ih =>
      exact ih (spares _ _ _ _ _ _ found ends)
  | @passed depth gathered gatheredNow result taken start middle final inside notOpen notClosed
      noStop found untaken after ih =>
      obtain rfl : middle = start := honest.eq_of_untaken found untaken
      refine ih (ends.of_reaches (.advance middle) fun done => ?_)
      have outside := after.depth_eq_zero done
      refine (ends.advance ?_).ahead_ne_nil done
      intro isComma
      have noStop := noStop outside
      rw [← Token.stopAt_placeless, isComma, comma] at noStop
      exact Bool.noConfusion noStop

theorem spares_scan {words : List String} {initial : σ} {visit : Visitor σ} (comma : "," ∈ words)
    (honest : Honest visit) (spares : ∀ depth gathered, Spares (visit depth gathered)) :
    Spares (scan words initial visit) := by
  intro scope start result final found ends
  refine (finds_scan_iff.mp found).endsInComma ?_ honest spares ends
  have member : "," ∈ words.map Text.upper := List.mem_map.mpr ⟨",", comma, by decide⟩
  simp [Stops.stopAt, Stops.adding, Token.comma, Token.isPunctuation, Token.Kind.isPunctuation,
    member]

theorem spares_skipTo {words : List String} (comma : "," ∈ words) : Spares (skipTo words) := by
  refine spares_scan comma ?_ fun _ _ => spares_pure _
  intro depth gathered scope start gatheredNow final found
  exact (finds_pure_iff.mp found).2.symm

/-! ## Names and literals -/

theorem spares_name? : Spares name? := by
  refine spares_consume_ite (by decide) ?_ ?_
  · refine spares_seesKind_bind (by decide) ?_ spares_refuse_bind
    refine sparesElsewhere_look_bind fun token => sparesElsewhere_advance_bind ?_
    exact spares_bind (spares_expect (by decide)) fun _ => spares_pure _
  · refine spares_seesKind_bind (by decide) ?_ (spares_look_bind fun _ => spares_pure _)
    refine sparesElsewhere_look_bind fun atStop => sparesElsewhere_ite ?_ (spares_pure _).elsewhere
    exact sparesElsewhere_look_bind fun token => sparesElsewhere_advance_bind (spares_pure _)

theorem spares_name : Spares name := by
  refine spares_bind spares_name? fun found => ?_
  cases found with
  | some name => exact spares_pure name
  | none => exact spares_refuse _

theorem spares_nameOrString : Spares nameOrString := by
  refine spares_seesKind_bind (by decide) ?_ spares_name
  exact sparesElsewhere_look_bind fun token => sparesElsewhere_advance_bind (spares_pure _)

theorem spares_unsigned (what : String) : Spares (unsigned what) := by
  refine spares_seesKind_bind (by decide) ?_ spares_refuse_bind
  refine sparesElsewhere_look_bind fun token => ?_
  cases Number.uint32? token.text with
  | some value => exact sparesElsewhere_advance_bind (spares_pure value)
  | none => exact (spares_refuse _).elsewhere

theorem spares_literal : Spares Literal.grammar := by
  refine spares_current_bind (fun token isComma => ?_) fun token _ => ?_
  · have kind : token.kind = .comma := by
      rw [← Token.kind_placeless, isComma]
      rfl
    simp only [kind]
    exact spares_refuse _
  · cases token.kind with
    | integer | float | quotedString | binaryLiteral =>
        exact sparesElsewhere_advance_bind (spares_pure _)
    | word =>
        refine sparesElsewhere_advance_bind (spares_look_bind fun called => spares_ite ?_ ?_)
        · exact spares_bind spares_group fun _ => spares_pure _
        · exact spares_pure _
    | leftParen => exact (spares_bind spares_group fun _ => spares_pure _).elsewhere
    | identifier | backtick | rightParen | comma | equals | semicolon | dot | symbol
      | endOfInput => exact (spares_refuse _).elsewhere

end Grammar

open Grammar

/-! ## Columns and indexes -/

namespace Column

theorem spares_width? : Spares width? := by
  refine spares_consume_ite (by decide) ?_ (spares_pure none)
  exact spares_bind (spares_unsigned _) fun _ =>
    spares_bind (spares_expect (by decide)) fun _ => spares_pure _

theorem spares_withPrecision (column : Column) : Spares column.withPrecision := by
  refine spares_consume_ite (by decide) ?_ (spares_pure column)
  refine spares_bind (spares_unsigned _) fun width => ?_
  have closing {first : Grammar (Option UInt32)} {change : Option UInt32 → Column} :
      Spares (do
        let decimals ← first
        expect ")" (.expected "closing bracket \")\" after type precision")
        return change decimals) :=
    spares_after (fun _ => (progresses_expect _ _).bind _) fun _ =>
      spares_bind (spares_expect (by decide)) fun _ => spares_pure _
  refine spares_after (fun seen => progresses_ite ?_ ?_) fun seen => spares_ite closing closing
  · exact progresses_after fun _ => (progresses_expect _ _).bind _
  · exact progresses_after fun _ => (progresses_expect _ _).bind _

theorem spares_withParameters (column : Column) : Spares column.withParameters := by
  have flags (column : Column) : Spares column.withFlags := by
    refine spares_bind (spares_many ?_) fun _ => spares_pure _
    refine spares_consume_ite (by decide) (spares_pure _) ?_
    refine spares_consume_ite (by decide) (spares_pure _) ?_
    exact spares_consume_ite (by decide) (spares_pure _) (spares_pure _)
  unfold withParameters
  cases TypeFamily.ofName column.typeName with
  | integer => exact spares_bind spares_width? fun _ => flags _
  | fixedPoint => exact spares_bind (spares_withPrecision column) fun _ => flags _
  | temporal | sizedString => exact spares_bind spares_width? fun _ => spares_pure _
  | enumerated => exact spares_bind (spares_parenthesized _ _ _) fun _ => spares_pure _
  | plain | other => exact spares_pure column

theorem spares_characterSet? : Spares characterSet? := by
  refine spares_consume_ite (by decide) ?_ ?_
  · exact spares_bind (spares_expect (by decide)) fun _ =>
      spares_bind spares_nameOrString fun _ => spares_pure _
  · refine spares_bind (spares_consumeAny (by decide)) fun _ => spares_ite ?_ (spares_pure _)
    exact spares_bind spares_nameOrString fun _ => spares_pure _

theorem spares_readAttribute (draft : Draft) : Spares (readAttribute draft) := by
  rintro scope start ⟨taken, changed⟩ final found ends
  cases readsAttribute_of_finds found with
  | reference | autoIncrement | other => exact ends
  | notNull spelled null =>
      exact (ends.advance_of_spells spelled (by decide)).advance_of_spells null (by decide)
  | null spelled => exact ends.advance_of_spells spelled (by decide)
  | default spelled found =>
      exact spares_literal _ _ _ _ found (ends.advance_of_spells spelled (by decide))
  | onUpdate spelled update found =>
      exact spares_literal _ _ _ _ found
        ((ends.advance_of_spells spelled (by decide)).advance_of_spells update (by decide))
  | comment spelled quoted =>
      refine (ends.advance_of_spells spelled (by decide)).advance_of_kind ?_
      exact fun isComma => Token.Kind.noConfusion (quoted.symm.trans isComma)

theorem spares_afterName (name : String) : Spares (afterName name) := by
  refine spares_keyword?_bind (fun word => ?_) (spares_refuse _)
  refine sparesElsewhere_advance_bind (spares_bind (spares_withParameters _) fun column => ?_)
  refine spares_bind (spares_many spares_characterSet?) fun _ => ?_
  refine spares_bind (spares_scan (by decide) honest_attributes fun depth draft => ?_) fun _ =>
    spares_pure _
  exact spares_ite (spares_readAttribute draft) (spares_pure _)

end Column

namespace Index

theorem spares_indexType? : Spares indexType? := by
  refine spares_consume_ite (by decide) ?_ (spares_pure none)
  refine spares_keyword?_bind (fun word => ?_) (spares_refuse _)
  exact sparesElsewhere_advance_bind (spares_pure _)

theorem spares_afterName (role : Option IndexRole) (name : Option String) :
    Spares (afterName role name) := by
  refine spares_bind spares_indexType? fun typeBefore => ?_
  refine spares_bind (spares_parenthesized _ _ _) fun columns => ?_
  have skipped (indexType : Option String) : Spares (do
      skipTo [","]
      return { name, indexType, role, columns : Index }) :=
    spares_bind (spares_skipTo (by decide)) fun _ => spares_pure _
  cases typeBefore with
  | some indexType => exact spares_bind (spares_pure _) skipped
  | none => exact spares_bind spares_indexType? skipped

theorem spares_body (role : Option IndexRole) : Spares (body role) := by
  refine spares_look_bind fun seen => spares_ite ?_ ?_
  · exact spares_bind (spares_pure none) fun name => spares_afterName role name
  · exact spares_bind spares_name? fun name => spares_afterName role name

end Index

/-! ## Clauses -/

namespace AlterOption

theorem spares_readTarget (action : AlterAction) : Spares (readTarget action) := by
  refine spares_current_bind (fun token isComma => ?_) fun token other => ?_
  · have noWord : token.keyword? = none := by
      rw [← Token.keyword?_placeless, isComma]
      rfl
    simp only [noWord, Option.bind_none]
    refine spares_ite (spares_pure _) (spares_look_bind fun _ => ?_)
    exact spares_ite (spares_pure _) (spares_refuse _)
  · have role (role : IndexRole) : Spares (afterRole role) := by
      cases role with
      | primary | foreign => exact spares_expect (by decide)
      | fulltext | spatial =>
          exact spares_bind (spares_consumeAny (by decide)) fun _ =>
            spares_ite (spares_pure ()) (spares_refuse _)
      | unique => exact spares_bind (spares_consumeAny (by decide)) fun _ => spares_pure ()
    dsimp only
    refine sparesElsewhere_ite (spares_pure _).elsewhere (sparesElsewhere_look_bind fun _ => ?_)
    refine sparesElsewhere_ite (spares_pure _).elsewhere ?_
    split
    · exact (spares_refuse _).elsewhere
    refine sparesElsewhere_advance_bind ?_
    split
    · exact spares_pure _
    · exact spares_pure _
    · exact spares_pure _
    · exact spares_bind (role _) fun _ => spares_pure _
    · exact spares_refuse _
    · exact spares_refuse _

theorem spares_positionedColumn : Spares positionedColumn := by
  refine spares_bind spares_name fun name => ?_
  refine spares_bind (spares_withStops (Column.spares_afterName name)) fun column => ?_
  refine spares_consume_ite (by decide) (spares_pure _) ?_
  refine spares_consume_ite (by decide) ?_ (spares_pure column)
  exact spares_bind spares_name fun _ => spares_pure _

theorem spares_readPayload (action : AlterAction) (target : AlterTarget)
    (role : Option IndexRole) : Spares (readPayload action target role) := by
  have dropped : Spares (do return AlterPayload.name (← droppedName role)) := by
    refine spares_bind ?_ fun _ => spares_pure _
    unfold droppedName
    split
    · exact spares_pure _
    · exact spares_bind spares_name fun _ => spares_pure _
    · exact spares_name
  have renamed : Spares (do return AlterPayload.rename (← Rename.grammar)) := by
    refine spares_bind (spares_bind spares_name fun _ => ?_) fun _ => spares_pure _
    exact spares_bind (spares_expect (by decide)) fun _ =>
      spares_bind spares_name fun _ => spares_pure _
  have column : Spares (do return AlterPayload.column (← positionedColumn)) :=
    spares_bind spares_positionedColumn fun _ => spares_pure _
  unfold readPayload
  split
  · refine spares_look_bind fun _ => spares_ite ?_ column
    exact spares_bind (spares_parenthesized _ _ _) fun _ => spares_pure _
  · exact spares_bind (Index.spares_body role) fun _ => spares_pure _
  · exact dropped
  · exact dropped
  · exact renamed
  · exact renamed
  · exact spares_bind spares_name fun _ => spares_pure _
  · exact spares_bind spares_name fun _ =>
      spares_bind spares_positionedColumn fun _ => spares_pure _
  · exact column
  · exact spares_refuse _

/-- A clause does not read past a comma with which its sequence ends. -/
theorem spares_alterOption : Spares AlterOption.grammar := by
  refine spares_after (fun _ => progresses_readAction.bind _) fun tableOptions => ?_
  have action : Spares readAction := by
    refine spares_keyword?_bind (fun word => ?_) ?_
    · split
      · exact sparesElsewhere_advance_bind (spares_pure _)
      · exact (spares_refuse _).elsewhere
    · exact spares_refuse _
  refine spares_bind action fun action => spares_look_bind fun seen => spares_ite ?_ ?_
  · exact spares_bind spares_name fun _ => spares_pure _
  · exact spares_bind (spares_readTarget action) fun _ =>
      spares_bind (spares_readPayload _ _ _) fun _ => spares_pure _

end AlterOption

end TableDdl
