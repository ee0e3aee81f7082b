import TableDdl.Column.Grammar
import TableDdl.Proofs.RoundTrip.Literals

/-!
# Canonical columns are read back

A column is canonical if its data type is a word in upper case with the parameters that its family
has, and its literals are canonical. The text of such a column is read as its tokens, and from these
the column is read again, whatever stop word, comma or parenthesis follows.
-/

namespace TableDdl

namespace Column

open Grammar Lexer

/-- The parameters are those that the family of the data type has. -/
structure FitsFamily (column : Column) (family : TypeFamily) : Prop where
  variants : column.variants.isSome = true ↔ family = .enumerated
  nonempty : ∀ variants ∈ column.variants, variants ≠ []
  members : ∀ variants ∈ column.variants, ∀ literal ∈ variants, literal.Canonical
  decimals : column.decimals.isSome = true → column.width.isSome = true ∧ family = .fixedPoint
  width : column.width.isSome = true →
    family ∈ [TypeFamily.integer, .fixedPoint, .temporal, .sizedString]
  isZerofill : column.isZerofill = true → column.isUnsigned = true
  isUnsigned : column.isUnsigned = true → family = .integer ∨ family = .fixedPoint

namespace FitsFamily

variable {column : Column} {family : TypeFamily}

theorem variants_eq_none (fits : FitsFamily column family) (other : family ≠ .enumerated) :
    column.variants = none :=
  Option.not_isSome_iff_eq_none.mp fun some => other (fits.variants.mp some)

theorem decimals_eq_none (fits : FitsFamily column family) (other : family ≠ .fixedPoint) :
    column.decimals = none :=
  Option.not_isSome_iff_eq_none.mp fun some => other (fits.decimals some).2

theorem width_eq_none (fits : FitsFamily column family)
    (other : family ∉ [TypeFamily.integer, .fixedPoint, .temporal, .sizedString]) :
    column.width = none :=
  Option.not_isSome_iff_eq_none.mp fun some => other (fits.width some)

theorem isUnsigned_eq_false (fits : FitsFamily column family)
    (other : ¬ (family = .integer ∨ family = .fixedPoint)) : column.isUnsigned = false :=
  Bool.eq_false_iff.mpr fun isUnsigned => other (fits.isUnsigned isUnsigned)

theorem isZerofill_eq_false (fits : FitsFamily column family)
    (other : ¬ (family = .integer ∨ family = .fixedPoint)) : column.isZerofill = false :=
  Bool.eq_false_iff.mpr fun isZerofill => other (fits.isUnsigned (fits.isZerofill isZerofill))

end FitsFamily

/-- A column that is read back from its text, apart from where it goes. -/
structure Canonical (column : Column) : Prop where
  name : column.name ≠ ""
  word : Token.Single .word column.typeName
  upper : Text.upper column.typeName = column.typeName
  unsigned : column.typeName.toList.head? ≠ some '-'
  family : FitsFamily column (TypeFamily.ofName column.typeName)
  default : ∀ literal ∈ column.defaultValue, literal.Canonical
  onUpdate : ∀ literal ∈ column.onUpdate, literal.Canonical ∧ literal.render.toList.head? ≠ some '-'

/-! ## Tokens -/

/-- The token of a number. -/
def numberToken (value : UInt32) : Token := .bare .integer (Number.writeNat value.toNat)

/-- The tokens of the parameters of the data type. -/
def parameterTokens (column : Column) : List Token :=
  match column.variants, column.width, column.decimals with
  | some variants, _, _ => Token.enclosed Literal.tokens variants
  | none, some width, some decimals =>
      [Token.opening, numberToken width, Token.comma, numberToken decimals, Token.closing]
  | none, some width, none => [Token.opening, numberToken width, Token.closing]
  | none, none, _ => []

/-- The tokens of a flag. -/
def flagTokens (keyword : String) (isSet : Bool) : List Token :=
  if isSet then [.bare .word keyword] else []

/-- The tokens of an optional part. -/
def partTokens {α : Type} (before : List Token) (spell : α → List Token) : Option α → List Token
  | some part => before ++ spell part
  | none => []

/-- The tokens that say whether a value may be missing. -/
def nullTokens (isNullable : Bool) : List Token :=
  if isNullable then [.bare .word "NULL"] else [.bare .word "NOT", .bare .word "NULL"]

/-- The tokens of the attributes that follow. -/
def attributeTokens (column : Column) : List Token :=
  partTokens [.bare .word "DEFAULT"] Literal.tokens column.defaultValue ++
    (partTokens [.bare .word "ON", .bare .word "UPDATE"] Literal.tokens column.onUpdate ++
    (flagTokens "AUTO_INCREMENT" column.isAutoIncrement ++
    partTokens [.bare .word "COMMENT"] (fun text => [.bare .quotedString text]) column.comment))

/-- The tokens of where a column goes. -/
def positionTokens : ColumnPosition → List Token
  | .first => [.bare .word "FIRST"]
  | .after column => .bare .word "AFTER" :: nameTokens column

/-- The tokens after the name of a column, up to where it goes. -/
def bodyTokens (column : Column) : List Token :=
  .bare .word column.typeName :: (column.parameterTokens ++
    (flagTokens "UNSIGNED" column.isUnsigned ++ (flagTokens "ZEROFILL" column.isZerofill ++
    (nullTokens column.isNullable ++ column.attributeTokens))))

/-- The tokens of a column. -/
def tokens (column : Column) : List Token :=
  nameTokens column.name ++ (column.bodyTokens ++ partTokens [] positionTokens column.position)

/-! ## The text of a column -/

variable {operand : Bool} {column : Column}

theorem attached_part {α : Type} {before : String} {render : α → String} {tokens : List Token}
    {spell : α → List Token} (plain : plain? (" " ++ before) = some (tokens, false)) {part : Option α}
    (spelled : ∀ value ∈ part, ∀ operand,
      Spelled (operandAfter operand tokens) (render value) (spell value)) :
    Attached (renderPart before render part) (partTokens tokens spell part) := by
  cases part with
  | none => exact attached_empty
  | some value =>
      refine ⟨fun operand => (closed_plain plain).append (spelled value rfl operand), ?_⟩
      rw [renderPart, String.append_assoc]
      exact gapped_append (by decide)

theorem attached_flag {keyword : String}
    (plain : plain? (" " ++ keyword) = some ([.bare .word keyword], true)) (isSet : Bool) :
    Attached (renderFlag keyword isSet) (flagTokens keyword isSet) := by
  cases isSet with
  | false => exact attached_empty
  | true => exact ⟨fun _ => spelled_plain plain, gapped_append (by decide)⟩

theorem attached_parameters (canonical : FitsFamily column (TypeFamily.ofName column.typeName)) :
    Attached column.renderParameters column.parameterTokens := by
  have closing (operand : Bool) : Closed operand ")" [Token.closing] := closed_plain (by decide)
  unfold renderParameters parameterTokens
  cases isVariants : column.variants with
  | some variants =>
      simp only [String.append_assoc]
      exact Literal.attached_literals (by decide) (by decide) (canonical.members variants isVariants)
  | none =>
      cases column.width with
      | none => exact attached_empty
      | some width =>
          have number (operand : Bool) (value : UInt32) :
              Spelled operand (Number.writeNat value.toNat ++ ")")
                ([numberToken value] ++ [Token.closing]) :=
            ((spelled_writeNat value.toNat).append_closed (closing _) (by decide)).spelled
          simp only [String.append_assoc]
          cases column.decimals with
          | none =>
              have parts : Attached (" (" ++ (Number.writeNat width.toNat ++ ")"))
                  ([Token.opening] ++ ([numberToken width] ++ [Token.closing])) :=
                attached_closed (by decide) (by decide) fun operand => number _ width
              exact parts
          | some decimals =>
              have second : Attached ("," ++ (Number.writeNat decimals.toNat ++ ")"))
                  ([Token.comma] ++ ([numberToken decimals] ++ [Token.closing])) :=
                attached_closed (by decide) (by decide) fun operand => number _ decimals
              have parts : Attached (" (" ++ (Number.writeNat width.toNat ++
                    ("," ++ (Number.writeNat decimals.toNat ++ ")"))))
                  ([Token.opening] ++ ([numberToken width] ++
                    ([Token.comma] ++ ([numberToken decimals] ++ [Token.closing])))) :=
                attached_closed (by decide) (by decide) fun operand =>
                  (spelled_writeNat width.toNat).attach second
              exact parts

theorem spelled_position (position : ColumnPosition) :
    Spelled operand position.render (positionTokens position) := by
  cases position with
  | first => exact spelled_plain (by decide)
  | after name =>
      have after : Closed operand "AFTER " [.bare .word "AFTER"] := closed_plain (by decide)
      exact after.append (spelled_quoteName name)

theorem attached_null (isNullable : Bool) :
    Attached (if isNullable then " NULL" else " NOT NULL") (nullTokens isNullable) := by
  cases isNullable with
  | false => exact attached_open (by decide) (by decide)
  | true => exact attached_open (by decide) (by decide)

/-- The attributes of a canonical column are read as their tokens. -/
theorem Canonical.attached_attributes (canonical : column.Canonical) :
    Attached (renderPart "DEFAULT " Literal.render column.defaultValue ++
        (renderPart "ON UPDATE " Literal.render column.onUpdate ++
        (renderFlag "AUTO_INCREMENT" column.isAutoIncrement ++
        renderPart "COMMENT " Text.quoteString column.comment))) column.attributeTokens := by
  have default : plain? (" " ++ "DEFAULT ") = some ([.bare .word "DEFAULT"], false) := by decide
  have onUpdate : plain? (" " ++ "ON UPDATE ") =
      some ([.bare .word "ON", .bare .word "UPDATE"], false) := by decide
  have comment : plain? (" " ++ "COMMENT ") = some ([.bare .word "COMMENT"], false) := by decide
  refine (attached_part default ?_).append ((attached_part onUpdate ?_).append
    ((attached_flag (by decide) _).append (attached_part comment ?_)))
  · intro literal member operand rest gap
    have noOperand : operandAfter operand [.bare .word "DEFAULT"] = false := by
      cases operand <;> decide
    rw [noOperand]
    exact (canonical.default literal member).lexes (by simp) gap
  · intro literal member operand rest gap
    obtain ⟨isCanonical, unsigned⟩ := canonical.onUpdate literal member
    exact isCanonical.lexes (fun _ => unsigned) gap
  · intro text _ operand
    exact spelled_quoteString text

/-- A canonical column is read as its tokens. -/
theorem Canonical.spelled (canonical : column.Canonical) :
    Spelled operand column.render column.tokens := by
  have word : Attached (" " ++ column.typeName) ([] ++ [.bare .word column.typeName]) := by
    refine attached_closed (by decide) (by decide) fun operand rest gap => ?_
    exact .single (step_single (by decide) canonical.word (by simp [Token.isClean])
      (fun _ => canonical.unsigned) gap)
  have position : Attached (renderPart "" ColumnPosition.render column.position)
      (partTokens [] positionTokens column.position) :=
    attached_part (by decide) fun position _ _ => spelled_position position
  have unsigned : Attached (renderFlag "UNSIGNED" column.isUnsigned) _ :=
    attached_flag (by decide) column.isUnsigned
  have zerofill : Attached (renderFlag "ZEROFILL" column.isZerofill) _ :=
    attached_flag (by decide) column.isZerofill
  have name : Spelled operand (Text.quoteName column.name) _ := spelled_quoteName column.name
  have whole := name.attach (word.append ((attached_parameters canonical.family).append
    (unsigned.append (zerofill.append ((attached_null column.isNullable).append
    (canonical.attached_attributes.append position))))))
  simpa [Column.render, tokens, bodyTokens, String.append_assoc] using whole

/-! ## Reading the parameters of a type -/

variable {scope : Scope} {after : List Token}

theorem reads_unsigned (what : String) (value : UInt32) :
    (unsigned what).Reads scope (numberToken value :: after) value after := by
  unfold unsigned
  refine reads_seesKind_bind rfl (reads_current_bind (fun _ => rfl) ?_)
  have read : Number.uint32? (numberToken value).text = some value := Number.uint32?_writeNat value
  rw [read]
  exact reads_advance_bind (reads_pure value)

theorem reads_width? (width : Option UInt32) (unseen : Unseen "(" after) :
    width?.Reads scope (partTokens [Token.opening] (fun width => [numberToken width, Token.closing])
      width ++ after) width after := by
  cases width with
  | none => exact reads_consume_ite_unseen unseen (reads_pure none)
  | some width =>
      refine reads_consume_ite (by decide) ((reads_unsigned _ width).bind ?_)
      exact reads_expect_bind (by decide) (reads_pure _)

theorem reads_withPrecision (start : Column) {width decimals : Option UInt32}
    (widthFirst : decimals.isSome = true → width.isSome = true) (fresh : start.width = none)
    (noDecimals : start.decimals = none) (unseen : Unseen "(" after) :
    (withPrecision start).Reads scope
      (partTokens [Token.opening] (fun width => numberToken width ::
        (partTokens [Token.comma] (fun decimals => [numberToken decimals]) decimals ++
          [Token.closing])) width ++ after)
      { start with width, decimals } after := by
  cases width with
  | none =>
      have noneDecimals : decimals = none := by
        cases decimals with
        | none => rfl
        | some value => exact absurd (widthFirst rfl) (by simp)
      subst noneDecimals
      have same : { start with width := none, decimals := none } = start := by
        cases start
        simp_all
      rw [same]
      exact reads_consume_ite_unseen unseen (reads_pure start)
  | some width =>
      refine reads_consume_ite (by decide) ((reads_unsigned _ width).bind ?_)
      cases decimals with
      | none =>
          refine reads_consume_ite_unseen (unseen_cons (by decide)) ?_
          exact (reads_pure none).bind (reads_expect_bind (by decide) (reads_pure _))
      | some decimals =>
          refine reads_consume_ite (by decide) ?_
          exact ((reads_unsigned _ decimals).map some).bind
            (reads_expect_bind (by decide) (reads_pure _))

theorem reads_flag {keyword : String} {isSet : Bool}
    (spelled : Token.spells (.bare .word keyword) keyword = true) (unseen : Unseen keyword after) :
    (consume keyword).Reads scope (flagTokens keyword isSet ++ after) isSet after := by
  cases isSet with
  | false =>
      refine reads_sees_bind_unseen unseen (reads_pure false)
  | true => exact reads_sees_bind spelled (reads_advance_bind (reads_pure true))

theorem reads_noFlag (unseen : ∀ text ∈ ["UNSIGNED", "ZEROFILL", "SIGNED"], Unseen text after) :
    Reads (many numericFlag?) scope after [] after := by
  refine reads_many_nil (reads_consume_ite_unseen (unseen _ (by simp)) ?_)
  refine reads_consume_ite_unseen (unseen _ (by simp)) ?_
  exact reads_consume_ite_unseen (unseen _ (by simp)) (reads_pure none)

theorem reads_withFlags (start : Column) {isUnsigned isZerofill : Bool}
    (unsignedFirst : isZerofill = true → isUnsigned = true) (fresh : start.isUnsigned = false)
    (noZerofill : start.isZerofill = false)
    (unseen : ∀ text ∈ ["UNSIGNED", "ZEROFILL", "SIGNED"], Unseen text after) :
    (withFlags start).Reads scope
      (flagTokens "UNSIGNED" isUnsigned ++ (flagTokens "ZEROFILL" isZerofill ++ after))
      { start with isUnsigned, isZerofill } after := by
  have zerofill : numericFlag?.Reads scope (.bare .word "ZEROFILL" :: after)
      (some .zerofill) after := by
    refine reads_consume_ite_unseen (unseen_cons (by decide)) ?_
    exact reads_consume_ite (by decide) (reads_pure _)
  have unsigned (rest : List Token) : numericFlag?.Reads scope (.bare .word "UNSIGNED" :: rest)
      (some .unsigned) rest := reads_consume_ite (by decide) (reads_pure _)
  have noFlag : Reads (many numericFlag?) scope after [] after := reads_noFlag unseen
  cases isUnsigned with
  | false =>
      have noZero : isZerofill = false := by
        cases isZerofill with
        | false => rfl
        | true => exact absurd (unsignedFirst rfl) (by decide)
      subst noZero
      have same : { start with isUnsigned := false, isZerofill := false } = start := by
        cases start
        simp_all
      rw [same]
      exact noFlag.bind (reads_pure _)
  | true =>
      cases isZerofill with
      | false =>
          have same : [NumericFlag.unsigned].foldl withFlag start =
              { start with isUnsigned := true, isZerofill := false } := by
            cases start
            simp_all [withFlag]
          rw [← same]
          exact (reads_many_cons (unsigned after) (by simp) noFlag).bind (reads_pure _)
      | true =>
          have both := reads_many_cons (unsigned _) (by simp)
            (reads_many_cons zerofill (by simp) noFlag)
          exact both.bind (reads_pure _)

/-- A literal of a list may stand before a comma and before the parenthesis that closes the list. -/
theorem reads_literals {opening closing : Fault} {literals : List Literal} (nonempty : literals ≠ [])
    (canonical : ∀ literal ∈ literals, literal.Canonical) :
    (parenthesized opening closing Literal.grammar).Reads scope
      (Token.enclosed Literal.tokens literals ++ after) literals after := by
  refine reads_parenthesized (Unseen "(") nonempty ?_ ?_
  · exact fun literal member after noCall => (canonical literal member).reads noCall
  · exact ⟨fun _ => unseen_cons (by decide), unseen_cons (by decide)⟩

/-- The column without its attributes. -/
def withoutAttributes (column : Column) : Column :=
  { name := column.name, typeName := column.typeName, width := column.width
    decimals := column.decimals, isUnsigned := column.isUnsigned, isZerofill := column.isZerofill
    variants := column.variants }

theorem parameterTokens_of_variants_none (noVariants : column.variants = none) :
    column.parameterTokens = partTokens [Token.opening] (fun width => numberToken width ::
      (partTokens [Token.comma] (fun decimals => [numberToken decimals]) column.decimals ++
        [Token.closing])) column.width := by
  unfold parameterTokens
  rw [noVariants]
  cases column.width with
  | none => rfl
  | some width => cases column.decimals <;> rfl

theorem unseen_flags {text : String} (isUnsigned isZerofill : Bool)
    (noUnsigned : Token.spells (.bare .word "UNSIGNED") text = false)
    (noZerofill : Token.spells (.bare .word "ZEROFILL") text = false) (unseen : Unseen text after) :
    Unseen text
      (flagTokens "UNSIGNED" isUnsigned ++ (flagTokens "ZEROFILL" isZerofill ++ after)) := by
  cases isUnsigned with
  | true => exact unseen_cons noUnsigned
  | false =>
      cases isZerofill with
      | true => exact unseen_cons noZerofill
      | false => exact unseen

theorem reads_withParameters (fits : FitsFamily column (TypeFamily.ofName column.typeName))
    (unseen : ∀ text ∈ ["(", "UNSIGNED", "ZEROFILL", "SIGNED"], Unseen text after) :
    (withParameters { name := column.name, typeName := column.typeName }).Reads scope
      (column.parameterTokens ++ (flagTokens "UNSIGNED" column.isUnsigned ++
        (flagTokens "ZEROFILL" column.isZerofill ++ after))) column.withoutAttributes after := by
  have noParameter : Unseen "(" (flagTokens "UNSIGNED" column.isUnsigned ++
      (flagTokens "ZEROFILL" column.isZerofill ++ after)) :=
    unseen_flags _ _ (by decide) (by decide) (unseen _ (by simp))
  have noFlag : ∀ text ∈ ["UNSIGNED", "ZEROFILL", "SIGNED"], Unseen text after :=
    fun text member => unseen text (List.mem_cons_of_mem _ member)
  unfold withParameters
  dsimp only
  generalize TypeFamily.ofName column.typeName = family at fits ⊢
  cases family with
  | integer =>
      have fields : column.withoutAttributes =
          { name := column.name, typeName := column.typeName, width := column.width
            isUnsigned := column.isUnsigned, isZerofill := column.isZerofill } := by
        simp [withoutAttributes, fits.variants_eq_none, fits.decimals_eq_none]
      rw [parameterTokens_of_variants_none (fits.variants_eq_none (by decide)),
        fits.decimals_eq_none (by decide), fields]
      exact (reads_width? column.width noParameter).bind
        (reads_withFlags _ fits.isZerofill rfl rfl noFlag)
  | fixedPoint =>
      have fields : column.withoutAttributes =
          { name := column.name, typeName := column.typeName, width := column.width
            decimals := column.decimals, isUnsigned := column.isUnsigned
            isZerofill := column.isZerofill } := by
        simp [withoutAttributes, fits.variants_eq_none]
      rw [parameterTokens_of_variants_none (fits.variants_eq_none (by decide)), fields]
      exact (reads_withPrecision _ (fun some => (fits.decimals some).1) rfl rfl noParameter).bind
        (reads_withFlags _ fits.isZerofill rfl rfl noFlag)
  | temporal | sizedString =>
      have fields : column.withoutAttributes =
          { name := column.name, typeName := column.typeName, width := column.width } := by
        simp [withoutAttributes, fits.variants_eq_none, fits.decimals_eq_none,
          fits.isUnsigned_eq_false, fits.isZerofill_eq_false]
      rw [parameterTokens_of_variants_none (fits.variants_eq_none (by decide)),
        fits.decimals_eq_none (by decide), fields, fits.isUnsigned_eq_false (by decide),
        fits.isZerofill_eq_false (by decide)]
      rw [fits.isUnsigned_eq_false (by decide), fits.isZerofill_eq_false (by decide)] at noParameter
      exact (reads_width? column.width noParameter).bind (reads_pure _)
  | enumerated =>
      obtain ⟨variants, found⟩ := Option.isSome_iff_exists.mp (fits.variants.mpr rfl)
      have fields : column.withoutAttributes =
          { name := column.name, typeName := column.typeName, variants := some variants } := by
        simp [withoutAttributes, found, fits.width_eq_none, fits.decimals_eq_none,
          fits.isUnsigned_eq_false, fits.isZerofill_eq_false]
      have tokens : column.parameterTokens = Token.enclosed Literal.tokens variants := by
        simp [parameterTokens, found]
      rw [tokens, fields, fits.isUnsigned_eq_false (by decide),
        fits.isZerofill_eq_false (by decide)]
      exact (reads_literals (fits.nonempty variants found) (fits.members variants found)).bind
        (reads_pure _)
  | plain | other =>
      have fields : column.withoutAttributes =
          { name := column.name, typeName := column.typeName } := by
        simp [withoutAttributes, fits.variants_eq_none, fits.width_eq_none, fits.decimals_eq_none,
          fits.isUnsigned_eq_false, fits.isZerofill_eq_false]
      rw [parameterTokens_of_variants_none (fits.variants_eq_none (by decide)),
        fits.width_eq_none (by decide), fields, fits.isUnsigned_eq_false (by decide),
        fits.isZerofill_eq_false (by decide)]
      exact reads_pure _

/-! ## Reading the attributes -/

variable {draft : Draft} {token next : Token} {rest : List Token}

theorem reads_null (same : token.spells = (Token.bare .word "NULL").spells) :
    (readAttribute draft).Reads scope (token :: rest)
      (true, { draft with column := { draft.column with isNullable := true } }) rest := by
  refine reads_sees_bind_unseen (unseen_cons (by rw [same]; decide)) ?_
  refine reads_consume_ite_unseen (unseen_cons (by rw [same]; decide)) ?_
  exact reads_consume_ite (by rw [same]; decide) (reads_pure _)

theorem reads_notNull (same : token.spells = (Token.bare .word "NOT").spells)
    (null : next.spells "NULL" = true) :
    (readAttribute draft).Reads scope (token :: next :: rest)
      (true, { draft with column := { draft.column with isNullable := false } }) rest := by
  refine reads_sees_bind_unseen (unseen_cons (by rw [same]; decide)) ?_
  refine reads_consume_ite (by rw [same]; decide) ?_
  exact reads_expect_bind null (reads_pure _)

theorem reads_default (same : token.spells = (Token.bare .word "DEFAULT").spells)
    {literal : Literal} (reads : Literal.grammar.Reads scope rest literal after) :
    (readAttribute draft).Reads scope (token :: rest)
      (true, { draft with column := { draft.column with defaultValue := some literal } }) after := by
  refine reads_sees_bind_unseen (unseen_cons (by rw [same]; decide)) ?_
  refine reads_consume_ite_unseen (unseen_cons (by rw [same]; decide)) ?_
  refine reads_consume_ite_unseen (unseen_cons (by rw [same]; decide)) ?_
  exact reads_consume_ite (by rw [same]; decide) (reads.bind (reads_pure _))

theorem reads_onUpdate (same : token.spells = (Token.bare .word "ON").spells)
    (update : next.spells "UPDATE" = true) (noReference : draft.inReference = false)
    {literal : Literal} (reads : Literal.grammar.Reads scope rest literal after) :
    (readAttribute draft).Reads scope (token :: next :: rest)
      (true, { draft with column := { draft.column with onUpdate := some literal } }) after := by
  refine reads_sees_bind_unseen (unseen_cons (by rw [same]; decide)) ?_
  refine reads_consume_ite_unseen (unseen_cons (by rw [same]; decide)) ?_
  refine reads_consume_ite_unseen (unseen_cons (by rw [same]; decide)) ?_
  refine reads_consume_ite_unseen (unseen_cons (by rw [same]; decide)) ?_
  refine reads_sees_bind (by rw [same]; decide) (reads_nextSees_bind update ?_)
  rw [noReference]
  exact reads_advance_bind (reads_advance_bind (reads.bind (reads_pure _)))

theorem reads_comment (same : token.spells = (Token.bare .word "COMMENT").spells)
    (quoted : next.kind = .quotedString) :
    (readAttribute draft).Reads scope (token :: next :: rest)
      (true, { draft with column := { draft.column with comment := some next.text } }) rest := by
  refine reads_sees_bind_unseen (unseen_cons (by rw [same]; decide)) ?_
  refine reads_consume_ite_unseen (unseen_cons (by rw [same]; decide)) ?_
  refine reads_consume_ite_unseen (unseen_cons (by rw [same]; decide)) ?_
  refine reads_consume_ite_unseen (unseen_cons (by rw [same]; decide)) ?_
  refine reads_sees_bind_unseen (unseen_cons (by rw [same]; decide))
    (reads_nextSees_bind_any fun seen => ?_)
  rw [Bool.and_false, Bool.false_and]
  refine reads_consume_ite (by rw [same]; decide) (reads_seesKind_bind quoted ?_)
  exact reads_current_bind (fun _ => rfl) (reads_advance_bind (reads_pure _))

theorem reads_autoIncrement (same : token.spells = (Token.bare .word "AUTO_INCREMENT").spells) :
    (readAttribute draft).Reads scope (token :: rest)
      (false, { draft with column := { draft.column with isAutoIncrement := true } })
      (token :: rest) := by
  refine reads_sees_bind_unseen (unseen_cons (by rw [same]; decide)) ?_
  refine reads_consume_ite_unseen (unseen_cons (by rw [same]; decide)) ?_
  refine reads_consume_ite_unseen (unseen_cons (by rw [same]; decide)) ?_
  refine reads_consume_ite_unseen (unseen_cons (by rw [same]; decide)) ?_
  refine reads_sees_bind_unseen (unseen_cons (by rw [same]; decide))
    (reads_nextSees_bind_any fun seen => ?_)
  rw [Bool.and_false, Bool.false_and]
  refine reads_consume_ite_unseen (unseen_cons (by rw [same]; decide)) ?_
  exact reads_sees_bind (by rw [same]; decide) (reads_pure _)

/-- The words that start an attribute which is kept. -/
def attributeWords : List String := ["NOT", "NULL", "DEFAULT", "ON", "COMMENT", "AUTO_INCREMENT"]

/-- What the scan for attributes does at a token. -/
def attributeVisitor : Visitor Draft := fun depth draft =>
  if depth = 0 then readAttribute draft else return (false, draft)

variable {stops : Stops} {start next result : Draft}

theorem shown_word {keyword : String} (noStop : stops.stopAt (.bare .word keyword) = false) :
    Shown stops 0 (.bare .word keyword) :=
  ⟨rfl, nofun, nofun, fun _ => noStop⟩

theorem readsScan_attribute {keyword : String} {others : List Token}
    (noStop : stops.stopAt (.bare .word keyword) = false)
    (reads : (readAttribute start).Reads scope (.bare .word keyword :: (others ++ rest))
      (true, next) rest)
    (there : ReadsScan stops attributeVisitor scope 0 next rest result after) :
    ReadsScan stops attributeVisitor scope 0 start (.bare .word keyword :: (others ++ rest)) result
      after := by
  refine readsScan_taken (shown_word noStop) reads ?_ there
  simp only [List.length_cons, List.length_append]
  omega

/-- An optional attribute; without it the column stays as it is. -/
theorem readsScan_part {α : Type} {keyword : String} {others : List Token} {spell : α → List Token}
    {part : Option α} (next : Draft) (noStop : stops.stopAt (.bare .word keyword) = false)
    (absent : part = none → start = next)
    (reads : ∀ value ∈ part, (readAttribute start).Reads scope
      (.bare .word keyword :: (others ++ spell value ++ rest)) (true, next) rest)
    (there : ReadsScan stops attributeVisitor scope 0 next rest result after) :
    ReadsScan stops attributeVisitor scope 0 start
      (partTokens (.bare .word keyword :: others) spell part ++ rest) result after := by
  cases part with
  | none =>
      rw [absent rfl]
      exact there
  | some value => exact readsScan_attribute noStop (reads value rfl) there

/-- The flag that is noted on the way. -/
theorem readsScan_flag {column : Column} {isSet : Bool}
    (noStop : stops.stopAt (.bare .word "AUTO_INCREMENT") = false)
    (fresh : column.isAutoIncrement = false)
    (there : ReadsScan stops attributeVisitor scope 0
      ⟨{ column with isAutoIncrement := isSet }, false⟩ rest result after) :
    ReadsScan stops attributeVisitor scope 0 ⟨column, false⟩
      (flagTokens "AUTO_INCREMENT" isSet ++ rest) result after := by
  cases isSet with
  | false =>
      have same : { column with isAutoIncrement := false } = column := by
        cases column
        simp_all
      rw [same] at there
      exact there
  | true => exact readsScan_passed (shown_word noStop) (reads_autoIncrement rfl) there

theorem readsScan_null {column : Column} {isNullable : Bool}
    (noStop : ∀ word ∈ attributeWords, stops.stopAt (.bare .word word) = false)
    (there : ReadsScan stops attributeVisitor scope 0 ⟨{ column with isNullable }, false⟩ rest result
      after) :
    ReadsScan stops attributeVisitor scope 0 ⟨column, false⟩ (nullTokens isNullable ++ rest) result
      after := by
  cases isNullable with
  | true => exact readsScan_attribute (noStop _ (by decide)) (reads_null rfl) there
  | false => exact readsScan_attribute (noStop _ (by decide)) (reads_notNull rfl (by decide)) there

theorem unseen_part {α : Type} {text keyword : String} {others : List Token}
    {spell : α → List Token} {part : Option α}
    (other : Token.spells (.bare .word keyword) text = false) (unseen : Unseen text rest) :
    Unseen text (partTokens (.bare .word keyword :: others) spell part ++ rest) := by
  cases part with
  | none => exact unseen
  | some value => exact unseen_cons other

theorem unseen_flag {text keyword : String} {isSet : Bool}
    (other : Token.spells (.bare .word keyword) text = false) (unseen : Unseen text rest) :
    Unseen text (flagTokens keyword isSet ++ rest) := by
  cases isSet with
  | false => exact unseen
  | true => exact unseen_cons other

/-- No word that starts an attribute is a stop word. -/
def Open (stops : Stops) : Prop := ∀ word ∈ attributeWords, word ∉ stops.words

theorem stopAt_of_open (isOpen : Open stops) :
    ∀ word ∈ attributeWords, (stops.adding [","]).stopAt (.bare .word word) = false := by
  intro word member
  have upper : ∀ word ∈ attributeWords, Text.upper word = word ∧ word ≠ "," := by decide
  obtain ⟨same, notComma⟩ := upper word member
  have comma : Text.upper "," = "," := by decide
  simp [Stops.stopAt, Stops.adding, same, comma, notComma, isOpen word member]

/-- The attributes of a canonical column are read from their tokens. -/
theorem Canonical.reads_attributes (canonical : column.Canonical) (isOpen : Open scope.stops)
    (ends : Ends (scope.stops.adding [","]) after) (noCall : Unseen "(" after) :
    (withAttributes column.withoutAttributes).Reads scope
      (nullTokens column.isNullable ++ (column.attributeTokens ++ after))
      { column with position := none } after := by
  have noStop := stopAt_of_open isOpen
  have noCallComment : Unseen "(" (flagTokens "AUTO_INCREMENT" column.isAutoIncrement ++
      (partTokens [.bare .word "COMMENT"] (fun text => [.bare .quotedString text]) column.comment ++
        after)) :=
    unseen_flag (by decide) (unseen_part (by decide) noCall)
  -- The column after each attribute, in the order of the text.
  let nullable : Column := { column.withoutAttributes with isNullable := column.isNullable }
  let defaulted : Column := { nullable with defaultValue := column.defaultValue }
  let updated : Column := { defaulted with onUpdate := column.onUpdate }
  let numbered : Column := { updated with isAutoIncrement := column.isAutoIncrement }
  let commented : Column := { numbered with comment := column.comment }
  have run : ReadsScan (scope.stops.adding [","]) attributeVisitor scope 0
      ⟨column.withoutAttributes, false⟩
      (nullTokens column.isNullable ++ (column.attributeTokens ++ after)) ⟨commented, false⟩
      after := by
    simp only [attributeTokens, List.append_assoc]
    refine readsScan_null noStop ?_
    refine readsScan_part ⟨defaulted, false⟩ (noStop _ (by decide)) (fun none => ?_)
      (fun literal found => ?_) ?_
    · simp [defaulted, none, nullable, withoutAttributes]
    · have same : defaulted = { nullable with defaultValue := some literal } := by
        rw [← (found : column.defaultValue = some literal)]
      rw [same]
      exact reads_default rfl
        ((canonical.default literal found).reads (unseen_part (by decide) noCallComment))
    refine readsScan_part ⟨updated, false⟩ (noStop _ (by decide)) (fun none => ?_)
      (fun literal found => ?_) ?_
    · simp [updated, none, defaulted, nullable, withoutAttributes]
    · have same : updated = { defaulted with onUpdate := some literal } := by
        rw [← (found : column.onUpdate = some literal)]
      rw [same]
      exact reads_onUpdate rfl (by decide) rfl
        ((canonical.onUpdate literal found).1.reads noCallComment)
    refine readsScan_flag (noStop _ (by decide)) rfl ?_
    refine readsScan_part ⟨commented, false⟩ (noStop _ (by decide)) (fun none => ?_)
      (fun text found => ?_) (readsScan_done ends)
    · simp [commented, none, numbered, updated, defaulted, nullable, withoutAttributes]
    · have same : commented = { numbered with comment := some text } := by
        rw [← (found : column.comment = some text)]
      rw [same]
      exact reads_comment rfl rfl
  exact (reads_scan run).bind (reads_pure _)

theorem reads_noCharacterSet
    (unseen : ∀ text ∈ ["CHARACTER", "CHARSET", "COLLATE"], Unseen text after) :
    Reads (many characterSet?) scope after [] after := by
  refine reads_many_nil (reads_consume_ite_unseen (unseen _ (by simp)) ?_)
  refine reads_consumeAny_bind_unseen (fun text member => unseen text ?_) (reads_pure none)
  exact List.mem_cons_of_mem _ member

theorem unseen_null {text : String} (isNullable : Bool)
    (noNull : Token.spells (.bare .word "NULL") text = false)
    (noNot : Token.spells (.bare .word "NOT") text = false) :
    Unseen text (nullTokens isNullable ++ rest) := by
  cases isNullable with
  | true => exact unseen_cons noNull
  | false => exact unseen_cons noNot

/-- What may follow a column: what ends the scan for its attributes, but no parenthesis of a call. -/
structure Followed (stops : Stops) (after : List Token) : Prop where
  ends : Ends (stops.adding [","]) after
  noCall : Unseen "(" after

/-- A canonical column is read from the tokens after its name. -/
theorem Canonical.reads_afterName (canonical : column.Canonical) (isOpen : Open scope.stops)
    (followed : Followed scope.stops after) :
    (afterName column.name).Reads scope (column.bodyTokens ++ after)
      { column with position := none } after := by
  have typeWord : Token.keyword? (.bare .word column.typeName) = some column.typeName := by
    simp [Token.keyword?, canonical.upper]
  have parameters : ∀ text ∈ ["(", "UNSIGNED", "ZEROFILL", "SIGNED"],
      Unseen text (nullTokens column.isNullable ++ (column.attributeTokens ++ after)) := by
    have others : ∀ text ∈ ["(", "UNSIGNED", "ZEROFILL", "SIGNED"],
        Token.spells (.bare .word "NULL") text = false ∧
          Token.spells (.bare .word "NOT") text = false := by decide
    exact fun text member => unseen_null _ (others text member).1 (others text member).2
  have characterSets : ∀ text ∈ ["CHARACTER", "CHARSET", "COLLATE"],
      Unseen text (nullTokens column.isNullable ++ (column.attributeTokens ++ after)) := by
    have others : ∀ text ∈ ["CHARACTER", "CHARSET", "COLLATE"],
        Token.spells (.bare .word "NULL") text = false ∧
          Token.spells (.bare .word "NOT") text = false := by decide
    exact fun text member => unseen_null _ (others text member).1 (others text member).2
  simp only [bodyTokens, List.cons_append, List.append_assoc]
  refine reads_keyword?_bind ?_
  rw [typeWord]
  refine reads_advance_bind ((reads_withParameters canonical.family parameters).bind ?_)
  refine (reads_noCharacterSet characterSets).bind ?_
  exact canonical.reads_attributes isOpen followed.ends followed.noCall

/-- A canonical column that says nothing on where it goes is read from its tokens. -/
theorem Canonical.reads (canonical : column.Canonical) (noPosition : column.position = none)
    (isOpen : Open scope.stops) (followed : Followed scope.stops after) :
    Column.grammar.Reads scope (column.tokens ++ after) column after := by
  have same : { column with position := none } = column := by
    cases column
    simp_all
  have body := canonical.reads_afterName isOpen followed
  rw [same] at body
  simp only [tokens, noPosition, partTokens, List.append_nil, List.append_assoc]
  exact (reads_name canonical.name).bind body

end Column

end TableDdl
