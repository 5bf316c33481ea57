/-
# DISTINCT ON

The keys of DISTINCT ON are projected to columns first (`keyColumn`): a column is taken as it is, an
expression is evaluated row by row and its column gets the type of the first valid value.  Then
`RowDeduplicator` reads these columns in place of the batch's own.

`keyColumns_ok`: the columns hold the key tuples.  With the lemmas of `RowDeduplicator` the operator
keeps the first row of each key tuple (`distinct_firstRows`).
-/
import MldpDriver.Lib.Loop
import MldpDriver.Query.RowDeduplicator

namespace MldpDriver.Query.Distinct

open MldpDriver.Arrow List
open Lib.KeySplit
open Lib.Loop

variable {T V E : Type}

/-! ## 1. Key columns -/

/-- A key of DISTINCT ON: a column, or an expression that is evaluated row by row. -/
inductive KeyExpression (E : Type) where
  | column (name : String)
  | computed (expression : E)

/-- What the operator needs of the expression evaluator and of Arrow's builders. -/
structure Evaluator (T V E : Type) where
  typeOf : V → T
  /-- `arrow::null()` -/
  nullType : T
  evaluate : E → Arrow.RecordBatch T V → Nat → Except String (Option V)
  referencesColumn : E → Bool

section On

variable [DecidableEq T] (evaluator : Evaluator T V E)

/-- The loop that looks for the type of a key column: that of its first valid value. -/
def firstType (e : E) (batch : Arrow.RecordBatch T V) : List Nat → Except String (Option T)
  | [] => .ok none
  | row :: rows =>
    match evaluator.evaluate e batch row with
    | .error message => .error message
    | .ok (some value) => .ok (some (evaluator.typeOf value))
    | .ok none => firstType e batch rows

/-- The type of a key column. -/
def keyType (e : E) (batch : Arrow.RecordBatch T V) : Except String T := do
  let type ← firstType evaluator e batch (List.range batch.numRows)
  match type with
  | some type => .ok type
  | none =>
    if batch.numRows = 0 ∧ evaluator.referencesColumn e = false then
      let cell ← evaluator.evaluate e batch 0
      .ok ((cell.map evaluator.typeOf).getD evaluator.nullType)
    else .ok evaluator.nullType

/-- `AppendScalar` or `AppendNull`. -/
def appendCell (type : T) : Option V → Except String (Option V)
  | none => .ok none
  | some value =>
    if evaluator.typeOf value = type then .ok (some value)
    else .error "Cannot append scalar to builder of another type"

/-- One column of `applyProjection(RecordBatches{batch}, keys, names)`. -/
def keyColumn (batch : Arrow.RecordBatch T V) : KeyExpression E → Except String (List (Option V))
  | .column name =>
    match fieldIndex batch.schema name with
    | none => .error ("Expression references unknown column: " ++ name)
    | some index => .ok (batch.columns[index]?.getD [])
  | .computed e => do
    let type ← keyType evaluator e batch
    (List.range batch.numRows).mapM fun row => do
      let cell ← evaluator.evaluate e batch row
      appendCell evaluator type cell

/-- `filterOn` -/
def RowDeduplicator.filterOn (text : V → List Char) (isUnion : T → Bool) (d : RowDeduplicator)
    (batch : Arrow.RecordBatch T V) (keys : List (KeyExpression E)) :
    Except String (Arrow.RecordBatch T V × RowDeduplicator) := do
  let columns ← keys.mapM (keyColumn evaluator batch)
  .ok (d.take text isUnion columns batch)

/-- The loop of `applyDistinctOn`. -/
def distinctOnLoop (text : V → List Char) (isUnion : T → Bool) (keys : List (KeyExpression E)) :
    List (Option (Arrow.RecordBatch T V)) → RowDeduplicator → List (Arrow.RecordBatch T V) →
      Except String (List (Arrow.RecordBatch T V))
  | [], _, output => .ok output
  | none :: input, d, output => distinctOnLoop text isUnion keys input d output
  | some batch :: input, d, output =>
    match d.filterOn evaluator text isUnion batch keys with
    | .error message => .error message
    | .ok unique => distinctOnLoop text isUnion keys input unique.2 (pushRows output unique.1)

def applyDistinctOn (text : V → List Char) (isUnion : T → Bool)
    (input : List (Option (Arrow.RecordBatch T V))) (keys : List (KeyExpression E)) :
    Except String (List (Arrow.RecordBatch T V)) :=
  distinctOnLoop evaluator text isUnion keys input {} []

end On

/-! ## 2. Key tuples -/

variable {keys : List (KeyExpression E)}

section Keys

variable (evaluator : Evaluator T V E)

/-- The value of a key on a row. -/
def keyValue (batch : Arrow.RecordBatch T V) (row : Nat) :
    KeyExpression E → Except String (Option V)
  | .column name =>
    match fieldIndex batch.schema name with
    | none => .error ("Expression references unknown column: " ++ name)
    | some index => .ok (batch.cell index row)
  | .computed e => evaluator.evaluate e batch row

/-- The key tuple of a row. -/
def keyTuple (keys : List (KeyExpression E)) (batch : Arrow.RecordBatch T V) (row : Nat) :
    Except String (List (Option V)) :=
  keys.mapM (keyValue evaluator batch row)

/-- A key has one type, whatever the row. -/
def KeyTyped (batch : Arrow.RecordBatch T V) (type : T) : KeyExpression E → Prop
  | .column name => ∀ index field, fieldIndex batch.schema name = some index →
      batch.schema[index]? = some field → field.type = type
  | .computed e => ∀ row value, evaluator.evaluate e batch row = .ok (some value) →
      evaluator.typeOf value = type

/-- A key can be evaluated on every row, and a key without columns also where there is no row. -/
def KeyEvaluates (batch : Arrow.RecordBatch T V) : KeyExpression E → Prop
  | .column name => fieldIndex batch.schema name ≠ none
  | .computed e => (∀ row < batch.numRows, ∃ cell, evaluator.evaluate e batch row = .ok cell) ∧
      (evaluator.referencesColumn e = false → ∃ cell, evaluator.evaluate e batch 0 = .ok cell)

variable {evaluator} {batch : Arrow.RecordBatch T V}

theorem cell_typed (hbatch : batch.WellTyped evaluator.typeOf) {index row : Nat}
    {field : Arrow.Field T} (hfield : batch.schema[index]? = some field) {value : V}
    (h : batch.cell index row = some value) : evaluator.typeOf value = field.type := by
  rcases Nat.lt_or_ge row batch.numRows with hrow | hrow
  · exact hbatch _ (Arrow.RecordBatch.mem_rows.mpr ⟨row, hrow, rfl⟩) index field value hfield
      (by rw [← Arrow.RecordBatch.cell_eq, h])
  · rw [Arrow.RecordBatch.cell_of_ge hrow] at h
    cases h

variable {key : KeyExpression E}
variable {row : Nat}

theorem keyValue_typed (hbatch : batch.WellTyped evaluator.typeOf) {type : T}
    (hkey : KeyTyped evaluator batch type key) {value : V}
    (h : keyValue evaluator batch row key = .ok (some value)) : evaluator.typeOf value = type := by
  cases key with
  | column name =>
    rw [keyValue] at h
    cases hindex : fieldIndex batch.schema name with
    | none =>
      rw [hindex] at h
      cases h
    | some index =>
      rw [hindex] at h
      have hcell := Except.ok.inj h
      cases hfield : batch.schema[index]? with
      | none =>
        have hcolumn : batch.columns[index]? = none := by
          rw [List.getElem?_eq_none_iff, batch.columns_length]
          exact List.getElem?_eq_none_iff.mp hfield
        rw [Arrow.RecordBatch.cell, hcolumn] at hcell
        cases hcell
      | some field =>
        rw [cell_typed hbatch hfield hcell]
        exact hkey index field hindex hfield
  | computed e => exact hkey row value h

theorem keyTuple_typed (hbatch : batch.WellTyped evaluator.typeOf) {types : List T}
    (hkeys : List.Forall₂ (KeyTyped evaluator batch) types keys) {tuple : List (Option V)}
    (h : keyTuple evaluator keys batch row = .ok tuple) :
    RowTyped evaluator.typeOf types tuple := by
  obtain ⟨hall, rfl⟩ := (mapM_eq_ok_iff none).mp h
  unfold RowTyped
  clear h
  induction hkeys with
  | nil => exact .nil
  | @cons type key types keys hkey _ ih =>
    refine .cons ?_ (ih fun k hk => hall k (mem_cons_of_mem _ hk))
    intro value hvalue
    obtain ⟨cell, hcell⟩ := hall key mem_cons_self
    simp only [hcell, okOr_ok] at hvalue
    rw [hvalue] at hcell
    exact keyValue_typed hbatch hkey hcell

variable [DecidableEq T]

theorem appendCell_ok {type : T} {cell cell' : Option V}
    (h : appendCell evaluator type cell = .ok cell') : cell' = cell := by
  cases cell with
  | none => exact (Except.ok.inj h).symm
  | some value =>
    rw [appendCell] at h
    split at h
    · exact (Except.ok.inj h).symm
    · cases h

theorem slot_of_mapM {f : Nat → Except String (Option V)} {n : Nat} {column : List (Option V)}
    (h : (List.range n).mapM f = .ok column) (hrow : row < n) :
    f row = .ok (slot column row) := by
  obtain ⟨hall, rfl⟩ := (mapM_eq_ok_iff none).mp h
  obtain ⟨cell, hcell⟩ := hall row (mem_range.mpr hrow)
  rw [slot, List.getElem?_map, List.getElem?_range hrow, hcell, Option.map_some, hcell]
  rfl

theorem keyColumn_ok {column : List (Option V)} (h : keyColumn evaluator batch key = .ok column)
    (hrow : row < batch.numRows) :
    keyValue evaluator batch row key = .ok (slot column row) := by
  cases key with
  | column name =>
    rw [keyColumn] at h
    rw [keyValue]
    cases hindex : fieldIndex batch.schema name with
    | none =>
      rw [hindex] at h
      cases h
    | some index =>
      rw [hindex] at h
      cases h
      rfl
  | computed e =>
    rw [keyColumn] at h
    cases htype : keyType evaluator e batch with
    | error message =>
      rw [htype] at h
      cases h
    | ok type =>
      rw [htype] at h
      have hcell := slot_of_mapM h hrow
      rw [keyValue]
      cases hvalue : evaluator.evaluate e batch row with
      | error message =>
        rw [hvalue] at hcell
        cases hcell
      | ok cell =>
        rw [hvalue] at hcell
        exact congrArg _ (appendCell_ok hcell).symm

/-- **The key columns hold the key tuples.** -/
theorem keyColumns_ok {columns : List (List (Option V))}
    (h : keys.mapM (keyColumn evaluator batch) = .ok columns) (hrow : row < batch.numRows) :
    keyTuple evaluator keys batch row = .ok (cellsAt columns row) := by
  obtain ⟨hall, rfl⟩ := (mapM_eq_ok_iff []).mp h
  refine (mapM_eq_ok_iff none).mpr ⟨fun key hkey => ?_, ?_⟩
  · obtain ⟨column, hcolumn⟩ := hall key hkey
    exact ⟨_, keyColumn_ok hcolumn hrow⟩
  · rw [cellsAt, map_map]
    refine map_congr_left fun key hkey => ?_
    obtain ⟨column, hcolumn⟩ := hall key hkey
    rw [keyColumn_ok hcolumn hrow, Function.comp_apply, hcolumn]
    rfl

/-! ### When the key columns can be built -/

omit [DecidableEq T] in
theorem firstType_ok {e : E} {type : T} {rows : List Nat}
    (hrows : ∀ row ∈ rows, ∃ cell, evaluator.evaluate e batch row = .ok cell)
    (htype : ∀ row value, evaluator.evaluate e batch row = .ok (some value) →
      evaluator.typeOf value = type) :
    firstType evaluator e batch rows = .ok (some type) ∨
      firstType evaluator e batch rows = .ok none ∧
        ∀ row ∈ rows, evaluator.evaluate e batch row = .ok none := by
  induction rows with
  | nil => exact .inr ⟨rfl, fun row hrow => absurd hrow not_mem_nil⟩
  | cons row rows ih =>
    obtain ⟨cell, hcell⟩ := hrows row mem_cons_self
    rw [firstType, hcell]
    cases cell with
    | some value => exact .inl (congrArg (fun t => Except.ok (some t)) (htype row value hcell))
    | none =>
      refine (ih fun r hr => hrows r (mem_cons_of_mem _ hr)).imp id fun h => ⟨h.1, ?_⟩
      intro r hr
      rcases mem_cons.mp hr with rfl | hr
      · exact hcell
      · exact h.2 r hr

/-- **A typed key that can be evaluated gives a column.** -/
theorem keyColumn_exists {type : T} (htype : KeyTyped evaluator batch type key)
    (h : KeyEvaluates evaluator batch key) :
    ∃ column, keyColumn evaluator batch key = .ok column := by
  cases key with
  | column name =>
    rw [keyColumn]
    cases hindex : fieldIndex batch.schema name with
    | none => exact absurd hindex h
    | some index => exact ⟨_, rfl⟩
  | computed e =>
    obtain ⟨hrows, hempty⟩ := h
    have hmem : ∀ row ∈ List.range batch.numRows, ∃ cell,
        evaluator.evaluate e batch row = .ok cell := fun row hrow =>
      hrows row (mem_range.mp hrow)
    rw [keyColumn, keyType]
    rcases firstType_ok hmem htype with hfirst | ⟨hfirst, hnull⟩
    · rw [hfirst]
      refine ⟨_, (mapM_eq_ok_iff none).mpr ⟨fun row hrow => ?_, rfl⟩⟩
      obtain ⟨cell, hcell⟩ := hmem row hrow
      rw [hcell]
      cases cell with
      | none => exact ⟨none, rfl⟩
      | some value =>
        exact ⟨some value, if_pos (htype row value hcell)⟩
    · -- all rows are null: any type does
      have happend : ∀ type' : T, ∃ column, ((List.range batch.numRows).mapM fun row => do
          let cell ← evaluator.evaluate e batch row
          appendCell evaluator type' cell) = .ok column := by
        intro type'
        refine ⟨_, (mapM_eq_ok_iff none).mpr ⟨fun row hrow => ?_, rfl⟩⟩
        rw [hnull row hrow]
        exact ⟨none, rfl⟩
      rw [hfirst]
      by_cases hcond : batch.numRows = 0 ∧ evaluator.referencesColumn e = false
      · obtain ⟨cell, hcell⟩ := hempty hcond.2
        simp only [bind, Except.bind, if_pos hcond, hcell]
        exact happend _
      · simp only [bind, Except.bind, if_neg hcond]
        exact happend _

theorem keyColumns_exist {types : List T}
    (htypes : List.Forall₂ (KeyTyped evaluator batch) types keys)
    (h : ∀ key ∈ keys, KeyEvaluates evaluator batch key) :
    ∃ columns, keys.mapM (keyColumn evaluator batch) = .ok columns := by
  refine ⟨_, (mapM_eq_ok_iff []).mpr ⟨?_, rfl⟩⟩
  induction htypes with
  | nil => exact fun key hkey => absurd hkey not_mem_nil
  | cons hkey _ ih =>
    intro key hmem
    rcases mem_cons.mp hmem with rfl | hmem
    · exact keyColumn_exists hkey (h _ mem_cons_self)
    · exact ih (fun k hk => h k (mem_cons_of_mem _ hk)) key hmem

end Keys

/-! ## 3. A run over the batches -/

/-- The rows of the input, as batch and row number. -/
def inputPositions (input : List (Option (Arrow.RecordBatch T V))) :
    List (Arrow.RecordBatch T V × Nat) :=
  (input.filterMap id).flatMap fun batch => (List.range batch.numRows).map (batch, ·)

theorem positions_batches (done : List (Arrow.RecordBatch T V × List (List (Option V)))) :
    (positions done).map (fun p => (p.1.1, p.2)) =
      (done.map Prod.fst).flatMap fun batch => (List.range batch.numRows).map (batch, ·) := by
  rw [positions, map_flatMap, flatMap_map]
  refine flatMap_congr fun entry _ => ?_
  rw [map_map]
  rfl

section Runs

variable [DecidableEq T] {evaluator : Evaluator T V E}
variable {input : List (Option (Arrow.RecordBatch T V))}

theorem distinctOnLoop_spec {text : V → List Char} (isUnion : T → Bool)
    {out : List (Arrow.RecordBatch T V)} :
    ∀ {done : List (Arrow.RecordBatch T V × List (List (Option V)))} {d : RowDeduplicator}
      {output : List (Arrow.RecordBatch T V)}, Deduplicated text done d output →
      distinctOnLoop evaluator text isUnion keys input d output = .ok out →
      ∃ entries d', entries.map Prod.fst = input.filterMap id ∧
        (∀ entry ∈ entries, keys.mapM (keyColumn evaluator entry.1) = .ok entry.2) ∧
        Deduplicated text (done ++ entries) d' out := by
  induction input with
  | nil =>
    intro done d output h hout
    cases hout
    refine ⟨[], d, rfl, fun entry hentry => absurd hentry not_mem_nil, ?_⟩
    rw [append_nil]
    exact h
  | cons batch input ih =>
    intro done d output h hout
    cases batch with
    | none => exact ih h hout
    | some batch =>
      rw [distinctOnLoop, RowDeduplicator.filterOn] at hout
      cases hcolumns : keys.mapM (keyColumn evaluator batch) with
      | error message =>
        rw [hcolumns] at hout
        cases hout
      | ok columns =>
        rw [hcolumns] at hout
        obtain ⟨entries, d', hfst, hkeys, hd'⟩ := ih (h.step isUnion columns batch) hout
        refine ⟨(batch, columns) :: entries, d', congrArg _ hfst, ?_, ?_⟩
        · intro entry hentry
          rcases mem_cons.mp hentry with rfl | hentry
          · exact hcolumns
          · exact hkeys entry hentry
        · rw [append_assoc] at hd'
          exact hd'

theorem distinctOnLoop_returns (text : V → List Char) (isUnion : T → Bool)
    (h : ∀ batch, some batch ∈ input →
      ∃ columns, keys.mapM (keyColumn evaluator batch) = .ok columns) (d : RowDeduplicator)
    (output : List (Arrow.RecordBatch T V)) :
    ∃ out, distinctOnLoop evaluator text isUnion keys input d output = .ok out := by
  induction input generalizing d output with
  | nil => exact ⟨output, rfl⟩
  | cons batch input ih =>
    have htail := ih fun batch hbatch => h batch (mem_cons_of_mem _ hbatch)
    cases batch with
    | none => exact htail d output
    | some batch =>
      obtain ⟨columns, hcolumns⟩ := h batch mem_cons_self
      rw [distinctOnLoop, RowDeduplicator.filterOn, hcolumns]
      exact htail _ _

end Runs

/-! ## 4. The first row of each class -/

section Firsts

variable [DecidableEq T] [DecidableEq V] {evaluator : Evaluator T V E}
  {text : V → List Char} {types : List T} {input : List (Option (Arrow.RecordBatch T V))}

theorem applyDistinctOn_eq {isUnion : T → Bool}
    (hinj : ∀ a b, evaluator.typeOf a = evaluator.typeOf b → text a = text b → a = b)
    (hinput : ∀ batch, some batch ∈ input → batch.WellTyped evaluator.typeOf)
    (hkeys : ∀ batch, some batch ∈ input → List.Forall₂ (KeyTyped evaluator batch) types keys)
    {out : List (Arrow.RecordBatch T V)}
    (hout : applyDistinctOn evaluator text isUnion input keys = .ok out) :
    (∀ p ∈ inputPositions input, ∃ tuple, keyTuple evaluator keys p.1 p.2 = .ok tuple) ∧
      out.flatMap (·.rows) =
        (firstRows (fun p => (keyTuple evaluator keys p.1 p.2).toOption)
          (inputPositions input)).map fun p => p.1.row p.2 := by
  obtain ⟨entries, d, hfst, hcolumns, h⟩ :=
    distinctOnLoop_spec isUnion (Deduplicated.nil text) hout
  rw [nil_append] at h
  have hpositions : (positions entries).map (fun p => (p.1.1, p.2)) = inputPositions input := by
    rw [positions_batches, hfst]
    rfl
  have htyped : ∀ p ∈ positions entries, keyTuple evaluator keys p.1.1 p.2 = .ok (keyCells p) ∧
      RowTyped evaluator.typeOf types (keyCells p) := by
    intro p hp
    obtain ⟨hentry, hrow⟩ := mem_positions.mp hp
    have hbatch : some p.1.1 ∈ input := by
      rw [← mem_filterMap_id, ← hfst]
      exact mem_map_of_mem hentry
    have htuple := keyColumns_ok (hcolumns p.1 hentry) hrow
    exact ⟨htuple, keyTuple_typed (hinput _ hbatch) (hkeys _ hbatch) htuple⟩
  have hsame := @firstRows_congr _ _ _ (fun p => rowKey text (keyCells p)) (positions entries) _ _
    (fun p => (keyTuple evaluator keys p.1.1 p.2).toOption)
    fun p hp p' hp' => by
      rw [(htyped p hp).1, (htyped p' hp').1,
        rowKey_eq_iff hinj (htyped p hp).2 (htyped p' hp').2]
      exact Option.some_inj.symm
  have hfirst := firstRows_map (fun p => (keyTuple evaluator keys p.1 p.2).toOption)
    (fun p : (Arrow.RecordBatch T V × List (List (Option V))) × Nat => (p.1.1, p.2))
    (positions entries)
  refine ⟨?_, ?_⟩
  · intro p hp
    rw [← hpositions] at hp
    obtain ⟨q, hq, rfl⟩ := mem_map.mp hp
    exact ⟨_, (htyped q hq).1⟩
  · rw [hpositions] at hfirst
    rw [h.output, hsame, hfirst, map_map]
    rfl

/-- **DISTINCT and DISTINCT ON keep the first row of each class, in input order**, however the rows
are split into batches; DISTINCT ON returns whenever its keys can be evaluated.  A class is all
rows whose values, or keys, have the same texts. -/
theorem distinct_firstRows (evaluator : Evaluator T V E) (text : V → List Char)
    (isUnion : T → Bool)
    (hinj : ∀ a b, evaluator.typeOf a = evaluator.typeOf b → text a = text b → a = b)
    (types : List T) (input : List (Option (Arrow.RecordBatch T V)))
    (hinput : ∀ batch, some batch ∈ input →
      batch.schema.map (·.type) = types ∧ batch.WellTyped evaluator.typeOf) :
    (applyDistinct text isUnion input).flatMap (·.rows) = firstRows id (inputRows input) ∧
      ∀ (keys : List (KeyExpression E)) (keyTypes : List T),
        (∀ batch, some batch ∈ input → List.Forall₂ (KeyTyped evaluator batch) keyTypes keys) →
        (∀ out, applyDistinctOn evaluator text isUnion input keys = .ok out →
          (∀ p ∈ inputPositions input, ∃ tuple, keyTuple evaluator keys p.1 p.2 = .ok tuple) ∧
            out.flatMap (·.rows) =
              (firstRows (fun p => (keyTuple evaluator keys p.1 p.2).toOption)
                (inputPositions input)).map fun p => p.1.row p.2) ∧
        ((∀ batch, some batch ∈ input → ∀ key ∈ keys, KeyEvaluates evaluator batch key) →
          ∃ out, applyDistinctOn evaluator text isUnion input keys = .ok out) := by
  refine ⟨applyDistinct_eq isUnion hinj hinput, fun keys keyTypes hkeys => ⟨fun out hout => ?_, ?_⟩⟩
  · exact applyDistinctOn_eq hinj (fun batch hbatch => (hinput batch hbatch).2) hkeys hout
  · intro hevaluates
    refine distinctOnLoop_returns text isUnion (fun batch hbatch => ?_) {} []
    exact keyColumns_exist (hkeys batch hbatch) (hevaluates batch hbatch)

end Firsts

/-! ### Two batches of flags and texts -/

/-- Booleans and texts. -/
inductive SampleValue where
  | bool (value : Bool)
  | utf8 (value : List Char)
  deriving DecidableEq

def SampleValue.isText : SampleValue → Bool
  | .bool _ => false
  | .utf8 _ => true

def SampleValue.text : SampleValue → List Char
  | .bool true => "true".toList
  | .bool false => "false".toList
  | .utf8 value => value

/-- An expression `flag`, evaluated row by row. -/
def sampleEvaluator : Evaluator Bool SampleValue Unit where
  typeOf := SampleValue.isText
  nullType := false
  evaluate _ batch row := .ok (batch.cell 0 row)
  referencesColumn _ := true

/-- A flag and a text that looks like part of a key. -/
def sampleBatch (flag : Option Bool) : Arrow.RecordBatch Bool SampleValue where
  schema := [⟨"flag", false, true⟩, ⟨"note", true, true⟩]
  numRows := 2
  columns := [[flag.map .bool, flag.map .bool],
    [some (.utf8 "N".toList), some (.utf8 "V1:N".toList)]]
  columns_length := rfl
  column_length := by simp

theorem sampleBatch_wellTyped (flag : Option Bool) :
    (sampleBatch flag).WellTyped SampleValue.isText := by
  intro r hr i f v hf hv
  obtain ⟨row, hrow, rfl⟩ := Arrow.RecordBatch.mem_rows.mp hr
  have hrow : row < 2 := hrow
  rcases i with _ | _ | i
  · cases hf
    cases flag with
    | none => rcases row with _ | _ | row <;> cases hv
    | some flag => rcases row with _ | _ | row <;> first | (cases hv; rfl) | omega
  · cases hf
    rcases row with _ | _ | row <;> first | (cases hv; rfl) | omega
  · cases hf

theorem SampleValue.text_inj (a b : SampleValue) (htype : a.isText = b.isText)
    (h : a.text = b.text) : a = b := by
  cases a with
  | bool a =>
    cases b with
    | bool b =>
      revert h
      revert a b
      decide
    | utf8 b => cases htype
  | utf8 a =>
    cases b with
    | bool b => cases htype
    | utf8 b => exact congrArg _ h

/-- Nulls, a null batch, and rows that come back in a later batch. -/
def sampleInput : List (Option (Arrow.RecordBatch Bool SampleValue)) :=
  [some (sampleBatch none), none, some (sampleBatch (some true)), some (sampleBatch none)]

def sampleKeys : List (KeyExpression Unit) := [.column "flag", .computed ()]

theorem sampleKeys_typed (flag : Option Bool) :
    List.Forall₂ (KeyTyped sampleEvaluator (sampleBatch flag)) [false, false] sampleKeys := by
  have hindex : fieldIndex (sampleBatch flag).schema "flag" = some 0 := rfl
  refine .cons (fun index field h hfield => ?_) (.cons (fun row value h => ?_) .nil)
  · rw [hindex] at h
    cases h
    cases hfield
    rfl
  · exact (@cell_typed _ _ _ sampleEvaluator _ (sampleBatch_wellTyped flag) 0 row _ rfl value
      (Except.ok.inj h))

theorem distinct_flags :
    (applyDistinct SampleValue.text (fun _ => false) sampleInput).flatMap (·.rows) =
        [[none, some (.utf8 "N".toList)], [none, some (.utf8 "V1:N".toList)],
          [some (.bool true), some (.utf8 "N".toList)],
          [some (.bool true), some (.utf8 "V1:N".toList)]] ∧
      ∃ out, applyDistinctOn sampleEvaluator SampleValue.text (fun _ => false) sampleInput
          sampleKeys = .ok out ∧
        out.flatMap (·.rows) =
          [[none, some (.utf8 "N".toList)], [some (.bool true), some (.utf8 "N".toList)]] := by
  have hmem : ∀ batch, some batch ∈ sampleInput → ∃ flag, batch = sampleBatch flag := by
    intro batch hbatch
    simp only [sampleInput, mem_cons, Option.some.injEq, reduceCtorEq, not_mem_nil,
      or_false, false_or] at hbatch
    rcases hbatch with rfl | rfl | rfl <;> exact ⟨_, rfl⟩
  obtain ⟨hdistinct, hon⟩ := distinct_firstRows sampleEvaluator SampleValue.text (fun _ => false)
    SampleValue.text_inj [false, true] sampleInput fun batch hbatch => by
      obtain ⟨flag, rfl⟩ := hmem batch hbatch
      exact ⟨rfl, sampleBatch_wellTyped flag⟩
  obtain ⟨hrows, hreturns⟩ := hon sampleKeys [false, false] fun batch hbatch => by
    obtain ⟨flag, rfl⟩ := hmem batch hbatch
    exact sampleKeys_typed flag
  obtain ⟨out, hout⟩ := hreturns fun batch hbatch key hkey => by
    obtain ⟨flag, rfl⟩ := hmem batch hbatch
    rcases mem_cons.mp hkey with rfl | hkey
    · exact fun h => nomatch h
    · rw [mem_singleton.mp hkey]
      exact ⟨fun row _ => ⟨_, rfl⟩, fun h => nomatch h⟩
  exact ⟨hdistinct.trans (by decide), out, hout, (hrows out hout).2.trans (by decide)⟩

end MldpDriver.Query.Distinct
