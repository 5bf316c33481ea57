/-
# Projecting expressions batch by batch

`applyExpressionProjectionImpl` computes the SELECT expressions of each batch on its own and gives a
computed column the type of the first value it has in that batch; without a value the column has the
null type.  The rows of one input may arrive in batches of any sizes, so the projection should give
the same rows and the same schema for every split.
-/
import MldpDriver.Lib.Loop
import MldpDriver.Query.Conditions

namespace MldpDriver.Query.Evaluator

open Lib.Loop List

variable (lib : ScalarLib) {ρ : Type}

/-! ## 1. The projection -/

/-- An array of the output and its field. -/
structure OutputColumn where
  name : String
  type : ArrowType
  values : List Scalar

structure OutputBatch where
  columns : List OutputColumn
  numRows : Nat

def OutputBatch.schema (batch : OutputBatch) : List (String × ArrowType) :=
  batch.columns.map fun column => (column.name, column.type)

def OutputBatch.rows (batch : OutputBatch) : List (List Scalar) :=
  (List.range batch.numRows).map fun i =>
    batch.columns.map fun column => column.values.getD i (.null column.type)

mutual
def referencesColumn : Expression → Bool
  | .column _ => true
  | .function _ arguments _ _ => anyReferencesColumn arguments
  | .unary _ operand => referencesColumn operand
  | .binary _ left right => referencesColumn left || referencesColumn right
  | .literal _ => false

def anyReferencesColumn : List Expression → Bool
  | [] => false
  | argument :: rest => referencesColumn argument || anyReferencesColumn rest
end

/-- The loop that looks for a value. -/
def firstType (evaluate : ρ → Except String Scalar) : List ρ → Except String (Option ArrowType)
  | [] => .ok none
  | row :: rest => do
    let scalar ← evaluate row
    if scalar.isValid then .ok (some scalar.type) else firstType evaluate rest

/-- The type of a computed column.  Row 0 of an empty batch is never read: the expression has no
column. -/
def inferType [Inhabited ρ] (batch : Batch ρ) (e : Expression) : Except String ArrowType := do
  let type ← firstType (fun row => evaluateExpression lib batch row e) batch.rows
  match type with
  | some type => .ok type
  | none =>
    if batch.rows.isEmpty && !referencesColumn e then do
      let scalar ← evaluateExpression lib batch default e
      .ok (if scalar.isValid then scalar.type else .na)
    else .ok .na

/-- `AppendScalar` or `AppendNull` -/
def appendValue (batch : Batch ρ) (e : Expression) (type : ArrowType) (row : ρ) :
    Except String Scalar := do
  let scalar ← evaluateExpression lib batch row e
  if !scalar.isValid then .ok (.null type)
  else if scalar.type = type then .ok scalar
  else .error "Cannot append scalar to a builder of another type"

def projectColumn [Inhabited ρ] (batch : Batch ρ) (item : Expression × String) :
    Except String OutputColumn :=
  match item.1 with
  | .column name =>
    match batch.field name with
    | none => .error ("Expression references unknown column: " ++ name)
    | some column => .ok ⟨item.2, column.type, batch.rows.map column.read⟩
  | e => do
    let type ← inferType lib batch e
    let values ← batch.rows.mapM (appendValue lib batch e type)
    .ok ⟨item.2, type, values⟩

def projectBatch [Inhabited ρ] (items : List (Expression × String)) (batch : Batch ρ) :
    Except String OutputBatch := do
  let columns ← items.mapM (projectColumn lib batch)
  .ok ⟨columns, batch.rows.length⟩

def applyExpressionProjection [Inhabited ρ] (items : List (Expression × String))
    (input : List (Batch ρ)) : Except String (List OutputBatch) :=
  input.mapM (projectBatch lib items)

/-! ## 2. Expressions without columns -/

mutual
theorem evaluateExpression_free {batch batch' : Batch ρ} (row row' : ρ) (e : Expression)
    (h : referencesColumn e = false) :
    evaluateExpression lib batch row e = evaluateExpression lib batch' row' e := by
  cases e with
  | column name => simp [referencesColumn] at h
  | literal value => rw [evaluateExpression, evaluateExpression]
  | unary operator operand =>
    rw [referencesColumn] at h
    rw [evaluateExpression, evaluateExpression, evaluateExpression_free row row' operand h]
  | binary operator left right =>
    rw [referencesColumn, Bool.or_eq_false_iff] at h
    rw [evaluateExpression, evaluateExpression, evaluateExpression_free row row' left h.1,
      evaluateExpression_free row row' right h.2]
  | function name arguments star distinct =>
    rw [referencesColumn] at h
    rw [evaluateExpression, evaluateExpression, evaluateArguments_free row row' arguments h]

theorem evaluateArguments_free {batch batch' : Batch ρ} (row row' : ρ) (arguments : List Expression)
    (h : anyReferencesColumn arguments = false) :
    evaluateArguments lib batch row arguments = evaluateArguments lib batch' row' arguments := by
  cases arguments with
  | nil => rw [evaluateArguments, evaluateArguments]
  | cons argument rest =>
    rw [anyReferencesColumn, Bool.or_eq_false_iff] at h
    rw [evaluateArguments, evaluateArguments, evaluateExpression_free row row' argument h.1,
      evaluateArguments_free row row' rest h.2]
end

theorem type_ne_na {scalar : Scalar} (h : scalar.isValid = true) : scalar.type ≠ .na := by
  cases scalar <;> simp_all [Scalar.isValid, Scalar.type]

/-! ## 3. One column of one batch

`applyExpressionProjection_outcome`: what the projection of a split is, and when it throws. -/

section Column

variable (columns : List (Column ρ))

/-- The value of an expression on a row of the input. -/
def valueAt (e : Expression) (row : ρ) : Except String Scalar :=
  evaluateExpression lib ⟨columns, []⟩ row e

/-- The types of the values an expression has on some rows, NULL left out. -/
def typesIn (e : Expression) (part : List ρ) : List ArrowType :=
  part.filterMap fun row =>
    match valueAt lib columns e row with
    | .ok scalar => if scalar.isValid then some scalar.type else none
    | .error _ => none

/-- A column, and an expression without columns, are looked at even when there is no row. -/
def Eager : Expression → Prop
  | .column _ => True
  | e => referencesColumn e = false

/-- The projection of some rows comes to an evaluation that fails. -/
def Fails [Inhabited ρ] (e : Expression) (part : List ρ) : Prop :=
  (∃ row ∈ part, ∃ message, valueAt lib columns e row = .error message) ∨
    Eager e ∧ ∃ message, valueAt lib columns e default = .error message

/-- An expression has values of two types. -/
def Mixed (e : Expression) (part : List ρ) : Prop :=
  ∃ t ∈ typesIn lib columns e part, ∃ u ∈ typesIn lib columns e part, t ≠ u

/-- The type the projection of some rows gives an expression. -/
def typeOf [Inhabited ρ] (e : Expression) (part : List ρ) : ArrowType :=
  match e with
  | .column name => (Batch.field ⟨columns, ([] : List ρ)⟩ name).elim .na Column.type
  | e => ((typesIn lib columns e part).head?).getD
      (if part.isEmpty && !referencesColumn e then
        ((typesIn lib columns e [default]).head?).getD .na
      else .na)

/-- A null result is written as a null of the column. -/
def nullAs (type : ArrowType) (scalar : Scalar) : Scalar :=
  if scalar.isValid then scalar else .null type

/-- The value the projection writes. -/
def cellOf (e : Expression) (type : ArrowType) (row : ρ) : Scalar :=
  match e with
  | .column _ => okOr (.null type) (valueAt lib columns e row)
  | _ => nullAs type (okOr (.null type) (valueAt lib columns e row))

variable {e : Expression}
variable {part : List ρ}

theorem mem_typesIn {t : ArrowType} :
    t ∈ typesIn lib columns e part ↔ ∃ row ∈ part, ∃ scalar,
      valueAt lib columns e row = .ok scalar ∧ scalar.isValid = true ∧ scalar.type = t := by
  rw [typesIn, mem_filterMap]
  refine exists_congr fun row => and_congr_right fun _ => ?_
  cases valueAt lib columns e row with
  | error message => simp
  | ok scalar => simp

theorem typesIn_flatten (e : Expression) (parts : List (List ρ)) :
    typesIn lib columns e parts.flatten = parts.flatMap (typesIn lib columns e) := by
  rw [typesIn, filterMap_flatten, flatMap_def]
  rfl

theorem na_notMem_typesIn (e : Expression) (part : List ρ) : .na ∉ typesIn lib columns e part := by
  intro h
  obtain ⟨row, -, scalar, -, hvalid, htype⟩ := (mem_typesIn lib columns).mp h
  exact type_ne_na hvalid htype

variable {parts : List (List ρ)}

theorem mixed_flatten {part : List ρ} (hpart : part ∈ parts) (h : Mixed lib columns e part) :
    Mixed lib columns e parts.flatten := by
  obtain ⟨t, ht, u, hu, hne⟩ := h
  have hmem : ∀ {t : ArrowType}, t ∈ typesIn lib columns e part →
      t ∈ typesIn lib columns e parts.flatten := fun ht => by
    rw [typesIn_flatten]
    exact mem_flatMap.mpr ⟨part, hpart, ht⟩
  exact ⟨t, hmem ht, u, hmem hu, hne⟩

theorem evaluate_part (part : List ρ) (e : Expression) (row : ρ) :
    evaluateExpression lib ⟨columns, part⟩ row e = valueAt lib columns e row := by
  have h : (Batch.mk columns part).columns = (Batch.mk columns []).columns := rfl
  exact evaluateExpression_columns lib h row e

theorem valueAt_free (h : referencesColumn e = false) (row row' : ρ) :
    valueAt lib columns e row = valueAt lib columns e row' :=
  evaluateExpression_free lib row row' e h

theorem valueAt_column {name : String} {column : Column ρ}
    (h : Batch.field ⟨columns, ([] : List ρ)⟩ name = some column) (row : ρ) :
    valueAt lib columns (.column name) row = .ok (column.read row) := by
  rw [valueAt, evaluateExpression, readColumn, h]

theorem firstType_outcome (e : Expression) (part : List ρ) :
    Outcome (firstType (valueAt lib columns e) part)
      (fun type => type = (typesIn lib columns e part).head?)
      (∃ row ∈ part, ∃ message, valueAt lib columns e row = .error message) := by
  induction part with
  | nil => exact .ok rfl
  | cons row rest ih =>
    rw [firstType]
    cases hvalue : valueAt lib columns e row with
    | error message => exact .error ⟨row, mem_cons_self, message, hvalue⟩
    | ok scalar =>
      change Outcome (if scalar.isValid = true then _ else _) _ _
      have htypes : typesIn lib columns e (row :: rest) =
          (if scalar.isValid then [scalar.type] else []) ++ typesIn lib columns e rest := by
        rw [typesIn, filterMap_cons, hvalue]
        dsimp only
        cases scalar.isValid <;> rfl
      rw [htypes]
      cases hvalid : scalar.isValid with
      | true => exact .ok rfl
      | false =>
        exact ih.mono (fun type h => h) fun ⟨r, hr, h⟩ => ⟨r, mem_cons_of_mem _ hr, h⟩

/-- A row on which the value does not go into a builder of the type. -/
def Refuses (e : Expression) (type : ArrowType) (row : ρ) : Prop :=
  match valueAt lib columns e row with
  | .ok scalar => scalar.isValid = true ∧ scalar.type ≠ type
  | .error _ => True

theorem appendValue_outcome (he : ∀ name, e ≠ .column name) (part : List ρ) (type : ArrowType)
    (row : ρ) : Outcome (appendValue lib ⟨columns, part⟩ e type row)
      (fun scalar => scalar = cellOf lib columns e type row ∧ ¬ Refuses lib columns e type row)
      (Refuses lib columns e type row) := by
  have hcell : cellOf lib columns e type row =
      nullAs type (okOr (.null type) (valueAt lib columns e row)) := by
    cases e with
    | column name => exact absurd rfl (he name)
    | _ => rfl
  rw [appendValue, evaluate_part, hcell, Refuses, nullAs]
  cases valueAt lib columns e row with
  | error message => exact .error trivial
  | ok scalar =>
    change Outcome (if _ then _ else _) _ _
    cases hvalid : scalar.isValid with
    | false => exact .ok ⟨by simp [hvalid], by simp [hvalid]⟩
    | true =>
      rw [if_neg (by simp)]
      split
      · next htype => exact .ok ⟨by simp [hvalid], fun h => h.2 htype⟩
      · next htype => exact .error ⟨hvalid, htype⟩

variable [Inhabited ρ]

theorem eager_computed (he : ∀ name, e ≠ .column name) :
    Eager e ↔ referencesColumn e = false := by
  cases e with
  | column name => exact absurd rfl (he name)
  | _ => rfl

theorem typeOf_computed (he : ∀ name, e ≠ .column name) (part : List ρ) :
    typeOf lib columns e part = ((typesIn lib columns e part).head?).getD
      (if part.isEmpty && !referencesColumn e then
        ((typesIn lib columns e [default]).head?).getD .na
      else .na) := by
  cases e with
  | column name => exact absurd rfl (he name)
  | _ => rfl

theorem inferType_outcome (he : ∀ name, e ≠ .column name) (part : List ρ) :
    Outcome (inferType lib ⟨columns, part⟩ e)
      (fun type => type = typeOf lib columns e part ∧ (part = [] → ¬ Fails lib columns e part))
      (Fails lib columns e part) := by
  rw [inferType, typeOf_computed lib columns he]
  simp only [evaluate_part]
  refine Outcome.bind ((firstType_outcome lib columns e part).mono (fun type h => h) .inl)
    fun type htype => ?_
  subst htype
  cases hhead : (typesIn lib columns e part).head? with
  | some type =>
    refine .ok ⟨rfl, fun hpart => ?_⟩
    subst hpart
    cases hhead
  | none =>
    cases part with
    | cons row rest => exact .ok ⟨rfl, nofun⟩
    | nil =>
      cases href : referencesColumn e with
      | true =>
        refine .ok ⟨rfl, fun _ hfails => ?_⟩
        rcases hfails with ⟨row, hrow, -⟩ | ⟨heager, -⟩
        · exact absurd hrow not_mem_nil
        · rw [eager_computed he, href] at heager
          cases heager
      | false =>
        have heager : Eager e := (eager_computed he).mpr href
        simp only [isEmpty_nil, Bool.not_false, Bool.and_self, if_true]
        cases hvalue : valueAt lib columns e default with
        | error message => exact .error (.inr ⟨heager, message, hvalue⟩)
        | ok scalar =>
          refine .ok ⟨?_, fun _ hfails => ?_⟩
          · rw [typesIn, filterMap_cons, hvalue]
            dsimp only
            cases scalar.isValid <;> rfl
          · rcases hfails with ⟨row, hrow, -⟩ | ⟨-, message, herror⟩
            · exact absurd hrow not_mem_nil
            · rw [hvalue] at herror
              cases herror

/-- What the projection of some rows writes for an expression. -/
def outputColumn (item : Expression × String) (part : List ρ) : OutputColumn :=
  ⟨item.2, typeOf lib columns item.1 part,
    part.map (cellOf lib columns item.1 (typeOf lib columns item.1 part))⟩

/-- The projection of some rows throws on the expression. -/
def Bad (e : Expression) (part : List ρ) : Prop :=
  Fails lib columns e part ∨ Mixed lib columns e part

theorem refuses_iff_bad (he : ∀ name, e ≠ .column name)
    (hempty : part = [] → ¬ Fails lib columns e part) :
    (∃ row ∈ part, Refuses lib columns e (typeOf lib columns e part) row) ↔
      Bad lib columns e part := by
  constructor
  · rintro ⟨row, hrow, hrefuses⟩
    rw [Refuses] at hrefuses
    cases hvalue : valueAt lib columns e row with
    | error message => exact .inl (.inl ⟨row, hrow, message, hvalue⟩)
    | ok scalar =>
      rw [hvalue] at hrefuses
      obtain ⟨hvalid, hne⟩ := hrefuses
      have hmem := (mem_typesIn lib columns).mpr ⟨row, hrow, scalar, hvalue, hvalid, rfl⟩
      rw [typeOf_computed lib columns he] at hne
      cases hhead : (typesIn lib columns e part).head? with
      | none =>
        rw [List.head?_eq_none_iff.mp hhead] at hmem
        exact absurd hmem not_mem_nil
      | some type =>
        rw [hhead] at hne
        exact .inr ⟨_, hmem, type, mem_of_mem_head? hhead, hne⟩
  · rintro ((⟨row, hrow, message, hvalue⟩ | ⟨heager, message, hvalue⟩) | ⟨t, ht, u, hu, hne⟩)
    · exact ⟨row, hrow, by rw [Refuses, hvalue]; trivial⟩
    · cases part with
      | nil => exact absurd (.inr ⟨heager, message, hvalue⟩) (hempty rfl)
      | cons row rest =>
        refine ⟨row, mem_cons_self, ?_⟩
        rw [Refuses, valueAt_free lib columns ((eager_computed he).mp heager) row default, hvalue]
        trivial
    · obtain ⟨row, hrow, scalar, hvalue, hvalid, rfl⟩ := (mem_typesIn lib columns).mp ht
      obtain ⟨row', hrow', scalar', hvalue', hvalid', rfl⟩ := (mem_typesIn lib columns).mp hu
      by_cases htype : scalar.type = typeOf lib columns e part
      · exact ⟨row', hrow', by rw [Refuses, hvalue']; exact ⟨hvalid', fun h => hne (htype.trans h.symm)⟩⟩
      · exact ⟨row, hrow, by rw [Refuses, hvalue]; exact ⟨hvalid, htype⟩⟩

theorem projectColumn_outcome (item : Expression × String) (part : List ρ) :
    Outcome (projectColumn lib ⟨columns, part⟩ item)
      (fun column => column = outputColumn lib columns item part ∧ ¬ Bad lib columns item.1 part)
      (Bad lib columns item.1 part) := by
  obtain ⟨e, name⟩ := item
  by_cases he : ∃ field, e = .column field
  · obtain ⟨field, rfl⟩ := he
    rw [projectColumn]
    have hfield : Batch.field ⟨columns, part⟩ field = Batch.field ⟨columns, ([] : List ρ)⟩ field := rfl
    simp only [hfield]
    cases hcolumn : Batch.field ⟨columns, ([] : List ρ)⟩ field with
    | none =>
      refine .error (.inl (.inr ⟨trivial, "Expression references unknown column: " ++ field, ?_⟩))
      rw [valueAt, evaluateExpression, readColumn, hcolumn]
    | some column =>
      have hvalue := valueAt_column lib columns hcolumn
      refine .ok ⟨?_, ?_⟩
      · rw [outputColumn, typeOf, hcolumn]
        congr 1
        exact map_congr_left fun row _ => by rw [cellOf, hvalue, okOr_ok]
      · rintro ((⟨row, -, message, herror⟩ | ⟨-, message, herror⟩) | ⟨t, ht, u, hu, hne⟩)
        · rw [hvalue] at herror
          cases herror
        · rw [hvalue] at herror
          cases herror
        · have htype : ∀ {t : ArrowType}, t ∈ typesIn lib columns (.column field) part →
              t = column.type := by
            intro t ht
            obtain ⟨row, -, scalar, hscalar, -, rfl⟩ := (mem_typesIn lib columns).mp ht
            rw [hvalue] at hscalar
            obtain rfl := Except.ok.inj hscalar
            exact column.typed row
          exact hne ((htype ht).trans (htype hu).symm)
  · have he : ∀ field, e ≠ .column field := fun field h => he ⟨field, h⟩
    have hproject : projectColumn lib ⟨columns, part⟩ (e, name) = (do
        let type ← inferType lib ⟨columns, part⟩ e
        let values ← part.mapM (appendValue lib ⟨columns, part⟩ e type)
        .ok ⟨name, type, values⟩) := by
      cases e with
      | column field => exact absurd rfl (he field)
      | _ => rfl
    rw [hproject]
    refine Outcome.bind ((inferType_outcome lib columns he part).mono (fun type h => h) .inl) ?_
    rintro type ⟨rfl, hempty⟩
    refine Outcome.bind ((mapM_outcome fun row _ => appendValue_outcome lib columns he part _ row).mono
      (fun values h => h) (refuses_iff_bad lib columns he hempty).mp) ?_
    rintro values ⟨rfl, hnone⟩
    refine .ok ⟨rfl, fun hbad => ?_⟩
    obtain ⟨row, hrow, hrefuses⟩ := (refuses_iff_bad lib columns he hempty).mpr hbad
    exact hnone row hrow hrefuses

/-- What the projection makes of a batch with some rows. -/
def outputBatch (items : List (Expression × String)) (part : List ρ) : OutputBatch :=
  ⟨items.map fun item => outputColumn lib columns item part, part.length⟩

/-- **The projection of a split.** -/
theorem applyExpressionProjection_outcome (items : List (Expression × String))
    (parts : List (List ρ)) :
    Outcome (applyExpressionProjection lib items (parts.map fun part => ⟨columns, part⟩))
      (fun output => output = parts.map (outputBatch lib columns items) ∧
        ∀ part ∈ parts, ∀ item ∈ items, ¬ Bad lib columns item.1 part)
      (∃ part ∈ parts, ∃ item ∈ items, Bad lib columns item.1 part) := by
  have hbatch : ∀ part : List ρ, Outcome (projectBatch lib items ⟨columns, part⟩)
      (fun output => output = outputBatch lib columns items part ∧
        ¬ ∃ item ∈ items, Bad lib columns item.1 part)
      (∃ item ∈ items, Bad lib columns item.1 part) := by
    intro part
    refine Outcome.bind (mapM_outcome fun item _ => projectColumn_outcome lib columns item part) ?_
    rintro output ⟨rfl, hgood⟩
    exact .ok ⟨rfl, fun ⟨item, hitem, hbad⟩ => hgood item hitem hbad⟩
  rw [applyExpressionProjection, mapM_map]
  refine (mapM_outcome fun part _ => hbatch part).mono ?_ id
  rintro output ⟨rfl, hgood⟩
  exact ⟨rfl, fun part hpart item hitem hbad => hgood part hpart ⟨item, hitem, hbad⟩⟩

/-! ## 4. Splits -/

/-- The split gives the schema and the rows of the undivided input, or both throw. -/
def Agrees (items : List (Expression × String)) (parts : List (List ρ)) : Prop :=
  (∃ reference outputs,
    applyExpressionProjection lib items [⟨columns, parts.flatten⟩] = .ok [reference] ∧
    applyExpressionProjection lib items (parts.map fun part => ⟨columns, part⟩) = .ok outputs ∧
    (∀ output ∈ outputs, output.schema = reference.schema) ∧
    outputs.flatMap OutputBatch.rows = reference.rows) ∨
  (∃ message, applyExpressionProjection lib items [⟨columns, parts.flatten⟩] = .error message) ∧
    ∃ message, applyExpressionProjection lib items (parts.map fun part => ⟨columns, part⟩) =
      .error message

theorem outputBatch_schema (items : List (Expression × String)) (part : List ρ) :
    (outputBatch lib columns items part).schema =
      items.map fun item => (item.2, typeOf lib columns item.1 part) := by
  rw [outputBatch, OutputBatch.schema, map_map]
  rfl

theorem outputBatch_rows (items : List (Expression × String)) (part : List ρ) :
    (outputBatch lib columns items part).rows = part.map fun row =>
      items.map fun item => cellOf lib columns item.1 (typeOf lib columns item.1 part) row := by
  refine ext_getElem (by simp [outputBatch, OutputBatch.rows]) fun i hi hi' => ?_
  rw [length_map] at hi'
  simp only [OutputBatch.rows, outputBatch, getElem_map, getElem_range, map_map]
  refine map_congr_left fun item _ => ?_
  simp [outputColumn, List.getD, hi']

theorem agrees_iff_types (items : List (Expression × String)) (parts : List (List ρ)) :
    Agrees lib columns items parts ↔
      (∃ item ∈ items, Bad lib columns item.1 parts.flatten) ∧
          (∃ part ∈ parts, ∃ item ∈ items, Bad lib columns item.1 part) ∨
        (∀ item ∈ items, ¬ Bad lib columns item.1 parts.flatten) ∧
          (∀ part ∈ parts, ∀ item ∈ items, ¬ Bad lib columns item.1 part) ∧
          ∀ part ∈ parts, ∀ item ∈ items,
            typeOf lib columns item.1 part = typeOf lib columns item.1 parts.flatten := by
  have hwhole := applyExpressionProjection_outcome lib columns items [parts.flatten]
  have hsplit := applyExpressionProjection_outcome lib columns items parts
  simp only [map_cons, map_nil, mem_singleton, forall_eq, exists_eq_left] at hwhole
  rw [Agrees]
  rcases hwhole with ⟨reference, hreference, rfl, hgood⟩ | ⟨⟨message, hreference⟩, hbad⟩
  · rcases hsplit with ⟨outputs, houtputs, rfl, hgoods⟩ | ⟨⟨message, houtputs⟩, hbads⟩
    · rw [hreference, houtputs]
      constructor
      · rintro (⟨reference, outputs, h, h', hschema, -⟩ | ⟨⟨message, h⟩, -⟩)
        · obtain ⟨rfl, -⟩ := List.cons.inj (Except.ok.inj h)
          obtain rfl := Except.ok.inj h'
          refine .inr ⟨hgood, hgoods, fun part hpart item hitem => ?_⟩
          have heq := hschema _ (mem_map_of_mem hpart)
          rw [outputBatch_schema, outputBatch_schema] at heq
          exact (Prod.mk.inj (map_inj_left.mp heq item hitem)).2
        · cases h
      · rintro (⟨⟨item, hitem, hbad⟩, -⟩ | ⟨-, -, htypes⟩)
        · exact absurd hbad (hgood item hitem)
        · refine .inl ⟨_, _, rfl, rfl, ?_, ?_⟩
          · rintro output houtput
            obtain ⟨part, hpart, rfl⟩ := mem_map.mp houtput
            rw [outputBatch_schema, outputBatch_schema]
            exact map_congr_left fun item hitem => by rw [htypes part hpart item hitem]
          · rw [outputBatch_rows, flatMap_map, map_flatten, flatMap_def]
            congr 1
            refine map_congr_left fun part hpart => ?_
            rw [outputBatch_rows]
            refine map_congr_left fun row _ => map_congr_left fun item hitem => ?_
            rw [htypes part hpart item hitem]
    · rw [hreference, houtputs]
      obtain ⟨part, hpart, item, hitem, hbad⟩ := hbads
      refine iff_of_false ?_ ?_
      · rintro (⟨_, _, -, h, -⟩ | ⟨⟨_, h⟩, -⟩) <;> cases h
      · rintro (⟨⟨item, hitem, hbad⟩, -⟩ | ⟨-, h, -⟩)
        · exact hgood item hitem hbad
        · exact h part hpart item hitem hbad
  · rw [hreference]
    obtain ⟨item, hitem, hbaditem⟩ := hbad
    rcases hsplit with ⟨outputs, houtputs, rfl, hgoods⟩ | ⟨⟨message', houtputs⟩, hbads⟩
    · rw [houtputs]
      refine iff_of_false ?_ ?_
      · rintro (⟨_, _, h, -⟩ | ⟨-, _, h⟩) <;> cases h
      · rintro (⟨-, part, hpart, item, hitem, hbad⟩ | ⟨h, -, -⟩)
        · exact hgoods part hpart item hitem hbad
        · exact h item hitem hbaditem
    · rw [houtputs]
      exact iff_of_true (.inr ⟨⟨_, rfl⟩, _, rfl⟩) (.inl ⟨⟨item, hitem, hbaditem⟩, hbads⟩)

/-! ## 5. When a split agrees -/

/-- The values of an expression give every batch the same type: they have one type, and the
expression has no columns, or is NULL on every row, or has a value in every batch. -/
structure Steady (e : Expression) (parts : List (List ρ)) : Prop where
  oneType : ¬ Mixed lib columns e parts.flatten
  everywhere : (∃ name, e = .column name) ∨ referencesColumn e = false ∨
    typesIn lib columns e parts.flatten = [] ∨ ∀ part ∈ parts, typesIn lib columns e part ≠ []

theorem fails_flatten (hparts : parts ≠ []) :
    Fails lib columns e parts.flatten ↔ ∃ part ∈ parts, Fails lib columns e part := by
  constructor
  · rintro (⟨row, hrow, hfail⟩ | heager)
    · obtain ⟨part, hpart, hmem⟩ := mem_flatten.mp hrow
      exact ⟨part, hpart, .inl ⟨row, hmem, hfail⟩⟩
    · obtain ⟨part, hpart⟩ := exists_mem_of_ne_nil parts hparts
      exact ⟨part, hpart, .inr heager⟩
  · rintro ⟨part, hpart, ⟨row, hrow, hfail⟩ | heager⟩
    · exact .inl ⟨row, mem_flatten.mpr ⟨part, hpart, hrow⟩, hfail⟩
    · exact .inr heager

theorem typeOf_free (he : ∀ name, e ≠ .column name) (hfree : referencesColumn e = false)
    (part : List ρ) :
    typeOf lib columns e part = ((typesIn lib columns e [default]).head?).getD .na := by
  rw [typeOf_computed lib columns he, hfree]
  cases part with
  | nil => rfl
  | cons row rest =>
    have hvalue := fun r => valueAt_free lib columns hfree r default
    simp only [typesIn, hvalue, filterMap_cons, filterMap_nil]
    cases valueAt lib columns e default with
    | error message => simp
    | ok scalar => by_cases hvalid : scalar.isValid = true <;> simp [hvalid]

theorem typeOf_eq_na (he : ∀ name, e ≠ .column name) (href : referencesColumn e = true)
    (h : typesIn lib columns e part = []) :
    typeOf lib columns e part = .na := by
  rw [typeOf_computed lib columns he, h, href]
  simp

theorem typeOf_mem (he : ∀ name, e ≠ .column name) (h : typesIn lib columns e part ≠ []) :
    typeOf lib columns e part ∈ typesIn lib columns e part := by
  rw [typeOf_computed lib columns he]
  cases htypes : typesIn lib columns e part with
  | nil => exact absurd htypes h
  | cons t rest => exact mem_cons_self

theorem steady_types (h : Steady lib columns e parts) (hpart : part ∈ parts) :
    typeOf lib columns e part = typeOf lib columns e parts.flatten := by
  by_cases hcolumn : ∃ name, e = .column name
  · obtain ⟨name, rfl⟩ := hcolumn
    rfl
  have he : ∀ name, e ≠ .column name := fun name h => hcolumn ⟨name, h⟩
  cases href : referencesColumn e with
  | false => rw [typeOf_free lib columns he href, typeOf_free lib columns he href]
  | true =>
    rcases h.everywhere with hname | hfree | hnull | hvalues
    · exact absurd hname hcolumn
    · rw [href] at hfree
      cases hfree
    · have hpartnull : typesIn lib columns e part = [] := by
        rw [typesIn_flatten, flatMap_eq_nil_iff] at hnull
        exact hnull part hpart
      rw [typeOf_eq_na lib columns he href hpartnull, typeOf_eq_na lib columns he href hnull]
    · have hmem : typeOf lib columns e part ∈ typesIn lib columns e parts.flatten := by
        rw [typesIn_flatten]
        exact mem_flatMap.mpr ⟨part, hpart, typeOf_mem lib columns he (hvalues part hpart)⟩
      have hwhole := typeOf_mem lib columns he (ne_nil_of_mem hmem)
      by_contra hne
      exact h.oneType ⟨_, hmem, _, hwhole, hne⟩

theorem everywhere_of_types
    (h : ∀ part ∈ parts, typeOf lib columns e part = typeOf lib columns e parts.flatten) :
    (∃ name, e = .column name) ∨ referencesColumn e = false ∨
      typesIn lib columns e parts.flatten = [] ∨ ∀ part ∈ parts, typesIn lib columns e part ≠ [] := by
  by_cases hcolumn : ∃ name, e = .column name
  · exact .inl hcolumn
  have he : ∀ name, e ≠ .column name := fun name h => hcolumn ⟨name, h⟩
  cases href : referencesColumn e with
  | false => exact .inr (.inl rfl)
  | true =>
    by_cases hnull : typesIn lib columns e parts.flatten = []
    · exact .inr (.inr (.inl hnull))
    · refine .inr (.inr (.inr fun part hpart hempty => ?_))
      have hmem := typeOf_mem lib columns he hnull
      rw [← h part hpart, typeOf_eq_na lib columns he href hempty] at hmem
      exact na_notMem_typesIn lib columns e _ hmem

/-- **A split agrees with the undivided input** exactly when both throw for an expression that
fails or has two types in one batch, or nothing fails and every expression is steady.  An
expression that has no value in one batch, and one in another, gets two types and so two
schemas. -/
theorem split_agrees_iff (items : List (Expression × String)) (parts : List (List ρ)) :
    Agrees lib columns items parts ↔
      (parts ≠ [] ∧ ∃ item ∈ items, Fails lib columns item.1 parts.flatten) ∨
        (∃ part ∈ parts, ∃ item ∈ items, Mixed lib columns item.1 part) ∨
        ∀ item ∈ items, ¬ Fails lib columns item.1 parts.flatten ∧ Steady lib columns item.1 parts := by
  rw [agrees_iff_types]
  constructor
  · rintro (⟨-, part, hpart, item, hitem, hfails | hmixed⟩ | ⟨hwhole, -, htypes⟩)
    · exact .inl ⟨ne_nil_of_mem hpart, item, hitem,
        (fails_flatten lib columns (ne_nil_of_mem hpart)).mpr ⟨part, hpart, hfails⟩⟩
    · exact .inr (.inl ⟨part, hpart, item, hitem, hmixed⟩)
    · refine .inr (.inr fun item hitem => ⟨fun h => hwhole item hitem (.inl h),
        fun h => hwhole item hitem (.inr h), ?_⟩)
      exact everywhere_of_types lib columns fun part hpart => htypes part hpart item hitem
  · rintro (⟨hparts, item, hitem, hfails⟩ | ⟨part, hpart, item, hitem, hmixed⟩ | hgood)
    · obtain ⟨part, hpart, hpartfails⟩ := (fails_flatten lib columns hparts).mp hfails
      exact .inl ⟨⟨item, hitem, .inl hfails⟩, part, hpart, item, hitem, .inl hpartfails⟩
    · exact .inl ⟨⟨item, hitem, .inr (mixed_flatten lib columns hpart hmixed)⟩, part, hpart, item,
        hitem, .inr hmixed⟩
    · refine .inr ⟨fun item hitem h => h.elim (hgood item hitem).1 (hgood item hitem).2.oneType,
        fun part hpart item hitem h => ?_, fun part hpart item hitem =>
          steady_types lib columns (hgood item hitem).2 hpart⟩
      rcases h with hfails | hmixed
      · exact (hgood item hitem).1
          ((fails_flatten lib columns (ne_nil_of_mem hpart)).mpr ⟨part, hpart, hfails⟩)
      · exact (hgood item hitem).2.oneType (mixed_flatten lib columns hpart hmixed)

end Column

/-! ## 6. A split that disagrees -/

/-- A column that is NULL on one row and 1 on the other. -/
def sometimesNull : Column Bool where
  name := "x"
  type := .int64
  read row := if row then .int64 1 else .null .int64
  typed row := by cases row <;> rfl

/-- `SELECT x + 1 AS y` -/
def successor : List (Expression × String) :=
  [(.binary .add (.column "x") (.literal (.int64 1)), "y")]

/-- **A batch of NULLs gets another schema.** -/
theorem successor_disagrees : ¬ ∀ (lib : ScalarLib) (columns : List (Column Bool))
    (items : List (Expression × String)) (parts : List (List Bool)), Agrees lib columns items parts := by
  intro h
  have hwhole : applyExpressionProjection plainLib successor [⟨[sometimesNull], [false, true]⟩] =
      .ok [⟨[⟨"y", .int64, [.null .int64, .int64 2]⟩], 2⟩] := by rfl
  have hsplit : applyExpressionProjection plainLib successor
      ([[false], [true]].map fun part => ⟨[sometimesNull], part⟩) =
      .ok [⟨[⟨"y", .na, [.null .na]⟩], 1⟩, ⟨[⟨"y", .int64, [.int64 2]⟩], 1⟩] := by rfl
  rcases h plainLib [sometimesNull] successor [[false], [true]] with
    ⟨reference, outputs, hreference, houtputs, hschema, -⟩ | ⟨⟨message, herror⟩, -⟩
  · obtain ⟨rfl, -⟩ := List.cons.inj (Except.ok.inj (hwhole.symm.trans hreference))
    obtain rfl := Except.ok.inj (hsplit.symm.trans houtputs)
    exact absurd (hschema _ mem_cons_self) (by decide)
  · cases hwhole.symm.trans herror

end MldpDriver.Query.Evaluator
