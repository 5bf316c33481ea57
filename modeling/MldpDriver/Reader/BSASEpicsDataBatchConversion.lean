/-
# From a PVXS table update to columns

`convertPVToDataBatch` appends one column for each scalar or array in a PVXS value, with the names
of the members in between.  `convertColumn` makes a column of an array, and the columns of its
cells, one after another, of an array of structures.  `tryBuildNtTableRowTsBatch` finds the two
arrays of timestamps and converts the other columns, here or in tasks of a pool.  -/
import MldpDriver.Reader.TableBatching
import MldpDriver.Reader.TableCells

namespace MldpDriver.Reader.Pvxs

open Bus Lib.Directory List

/-! ## 1. PVXS values -/

/-- `pvxs::Value`: nothing, a scalar, an array, a structure, union or any with its children, or an
array of these. -/
inductive PvxsValue
  | null
  | scalar (value : Scalar)
  | array (values : ScalarArray)
  | compound (children : List (String × PvxsValue))
  | compounds (cells : List PvxsValue)

mutual

/-- `EpicsMLDPConversion::convertPVToDataBatch`. -/
def convertPVToDataBatch (columnName : String) (batch : DataBatch Datum) :
    PvxsValue → DataBatch Datum
  | .null => appendColumn batch columnName (.scalar .string [.string "null"])
  | .scalar s => appendColumn batch columnName (.scalar s.toArray.scalarKind s.toArray.stored)
  | .array a => appendArrayColumn batch columnName a
  | .compound children => structSetter columnName batch children
  | .compounds cells => cellsSetter columnName batch cells
termination_by structural v => v

/-- The members, under dotted names. -/
def structSetter (name : String) (batch : DataBatch Datum) :
    List (String × PvxsValue) → DataBatch Datum
  | [] => batch
  | (member, v) :: rest =>
    structSetter name (convertPVToDataBatch (name ++ "." ++ member) batch v) rest
termination_by structural v => v

/-- The members of each cell, under the same names. -/
def cellsSetter (name : String) (batch : DataBatch Datum) : List PvxsValue → DataBatch Datum
  | [] => batch
  | .compound children :: rest => cellsSetter name (structSetter name batch children) rest
  | _ :: rest => cellsSetter name batch rest
termination_by structural v => v

end

/-! ## 2. What a value holds

`leaves` says what a value holds; `convert_columns` that the conversion appends just that. -/

mutual

/-- The scalars and arrays of a value with their dotted names. -/
def leaves (name : String) : PvxsValue → List (String × Leaf)
  | .null => [(name, .null)]
  | .scalar s => [(name, .scalar s)]
  | .array a => [(name, .array a)]
  | .compound children => memberLeaves name children
  | .compounds cells => cellLeaves name cells
termination_by structural v => v

def memberLeaves (name : String) : List (String × PvxsValue) → List (String × Leaf)
  | [] => []
  | (member, v) :: rest => leaves (name ++ "." ++ member) v ++ memberLeaves name rest
termination_by structural v => v

def cellLeaves (name : String) : List PvxsValue → List (String × Leaf)
  | [] => []
  | .compound children :: rest => memberLeaves name children ++ cellLeaves name rest
  | _ :: rest => cellLeaves name rest
termination_by structural v => v

end

mutual

/-- **The conversion appends a column for each leaf.** -/
theorem convert_columns (name : String) (batch : DataBatch Datum) : ∀ v : PvxsValue,
    (convertPVToDataBatch name batch v).columns = batch.columns ++ (leaves name v).map leafColumn
  | .null => rfl
  | .scalar _ => rfl
  | .array _ => rfl
  | .compound children => structSetter_columns name batch children
  | .compounds cells => cellsSetter_columns name batch cells

theorem structSetter_columns (name : String) (batch : DataBatch Datum) :
    ∀ children : List (String × PvxsValue), (structSetter name batch children).columns =
      batch.columns ++ (memberLeaves name children).map leafColumn
  | [] => (append_nil _).symm
  | (member, v) :: rest => by
    rw [structSetter, memberLeaves, structSetter_columns, convert_columns, map_append,
      append_assoc]

theorem cellsSetter_columns (name : String) (batch : DataBatch Datum) :
    ∀ cells : List PvxsValue, (cellsSetter name batch cells).columns =
      batch.columns ++ (cellLeaves name cells).map leafColumn
  | [] => (append_nil _).symm
  | .compound children :: rest => by
    rw [cellsSetter, cellLeaves, cellsSetter_columns, structSetter_columns, map_append,
      append_assoc]
  | .null :: rest => cellsSetter_columns name batch rest
  | .scalar _ :: rest => cellsSetter_columns name batch rest
  | .array _ :: rest => cellsSetter_columns name batch rest
  | .compounds _ :: rest => cellsSetter_columns name batch rest

end

/-! ## 3. A table -/

/-- `asUIntArrayView`: the four types of timestamps. -/
def asUIntArrayView : PvxsValue → Option (List Int)
  | .array (.int .uint64 values) => some (values.map (·.value))
  | .array (.int .int64 values) => some (values.map (·.value))
  | .array (.int .uint32 values) => some (values.map (·.value))
  | .array (.int .int32 values) => some (values.map (·.value))
  | _ => none

/-- What is found in an update: the arrays of timestamps, and the other columns. -/
structure Table extends RowTimes where
  columns : List (String × PvxsValue)

/-- Both fields, if both are there. -/
def bothFields (fields : List (String × PvxsValue)) (seconds nanos : String) :
    Option (PvxsValue × PvxsValue) :=
  match fields.lookup seconds, fields.lookup nanos with
  | some s, some n => some (s, n)
  | _, _ => none

/-- The checks of `tryBuildNtTableRowTsBatch`; the fields are at the top or in the table. -/
def findTable (tsSecondsField tsNanosField : String) : PvxsValue → Option Table
  | .compound fields =>
    match fields.lookup "value" with
    | some (.compound columns) =>
      match (bothFields fields tsSecondsField tsNanosField).or
          (bothFields columns tsSecondsField tsNanosField) with
      | some (secondsValue, nanosValue) =>
        match asUIntArrayView secondsValue, asUIntArrayView nanosValue with
        | some seconds, some nanos =>
          if min seconds.length nanos.length = 0 then none
          else some
            { columns := columns.filter fun c =>
                decide (c.1 ≠ tsSecondsField) && decide (c.1 ≠ tsNanosField)
              seconds := seconds
              nanos := nanos }
        | _, _ => none
      | none => none
    | _ => none
  | _ => none

/-! ## 4. Columns

`ColumnResult.batch` is the small frame of a column, and `pieces` what it is made of.

`emitPooled_eq` says that it does not matter in what order the tasks complete. -/

/-- `ColumnResult`. -/
structure ColumnResult where
  name : String
  columns : List (DataColumn Datum) := []
  arrayDims : List (String × List Nat) := []
  emitted : Nat := 0

/-- What is converted of a cell: its member `value`, if it has one. -/
def cellValue : PvxsValue → PvxsValue
  | .compound children => (children.lookup "value").getD (.compound children)
  | cell => cell

/-- `convertColumn`. -/
def convertColumn (rowCount : Nat) (c : String × PvxsValue) : ColumnResult :=
  match c.2 with
  | .array a =>
    if min rowCount a.length = 0 then { name := c.1 }
    else
      { name := c.1
        columns := [{ name := c.1, values := .scalar a.scalarKind (a.take rowCount).stored }]
        emitted := min rowCount a.length }
  | .compounds cells =>
    if min rowCount cells.length = 0 then { name := c.1 }
    else
      let tempBatch := (cells.take rowCount).foldl
        (fun batch cell => convertPVToDataBatch c.1 batch (cellValue cell)) emptyFrame
      { name := c.1
        columns := tempBatch.columns
        arrayDims := tempBatch.arrayDims
        emitted := min rowCount cells.length }
  | _ => { name := c.1 }

/-- The small frame of a column: `fillTimestamps`, and what was converted. -/
def ColumnResult.batch (t : Table) (r : ColumnResult) : DataBatch Datum where
  timestamps := t.timestamps.take r.emitted
  columns := r.columns
  arrayDims := r.arrayDims

/-- What `emitColumn` is called with for a result, if it is called. -/
def emission (t : Table) (r : ColumnResult) : Option (String × List (DataBatch Datum)) :=
  if 0 < r.emitted then some (r.name, [r.batch t]) else none

/-- The calls of `emitColumn` without a pool. -/
def emitSerial (t : Table) : List (String × List (DataBatch Datum)) :=
  t.columns.filterMap fun c => emission t (convertColumn t.rowCount c)

/-- The promises when the tasks have completed in this order. -/
def promises (t : Table) (completed : List Nat) : List (Option ColumnResult) :=
  completed.foldl
    (fun ps j => ps.set j ((t.columns[j]?).map (convertColumn t.rowCount)))
    (List.replicate t.columns.length none)

/-- The calls of `emitColumn` with a pool: the futures are got one after another; none if one of
them is never ready. -/
def emitPooled (t : Table) (completed : List Nat) :
    Option (List (String × List (DataBatch Datum))) :=
  ((promises t completed).mapM id).map fun results => results.filterMap (emission t)

theorem getElem?_complete (t : Table) (completed : List Nat) {ps : List (Option ColumnResult)} {j : Nat}
    (hj : j < ps.length) :
    (completed.foldl (fun ps k => ps.set k ((t.columns[k]?).map (convertColumn t.rowCount))) ps)[j]? =
      if j ∈ completed then some ((t.columns[j]?).map (convertColumn t.rowCount)) else ps[j]? := by
  induction completed generalizing ps with
  | nil => simp
  | cons k completed ih =>
    rw [foldl_cons, ih (by rwa [length_set])]
    by_cases hmem : j ∈ completed
    · rw [if_pos hmem, if_pos (mem_cons_of_mem k hmem)]
    · rw [if_neg hmem]
      by_cases hk : j = k
      · subst hk
        rw [if_pos mem_cons_self, List.getElem?_set_self hj]
      · rw [if_neg (by simp [hk, hmem]), List.getElem?_set_ne (Ne.symm hk)]

theorem length_complete (t : Table) (completed : List Nat) (ps : List (Option ColumnResult)) :
    (completed.foldl (fun ps k => ps.set k ((t.columns[k]?).map (convertColumn t.rowCount)))
      ps).length = ps.length := by
  induction completed generalizing ps with
  | nil => rfl
  | cons k completed ih => rw [foldl_cons, ih, length_set]

theorem mapM_some {α β : Type} (f : α → β) (l : List α) :
    (l.map fun x => some (f x)).mapM id = some (l.map f) := by
  induction l with
  | nil => rfl
  | cons x l ih => rw [map_cons, mapM_cons, ih]; rfl

/-- **The order in which the tasks complete does not matter.** -/
theorem emitPooled_eq (t : Table) {completed : List Nat}
    (hall : ∀ j < t.columns.length, j ∈ completed) :
    emitPooled t completed = some (emitSerial t) := by
  have hpromises : promises t completed =
      t.columns.map fun c => some (convertColumn t.rowCount c) := by
    refine ext_getElem? fun j => ?_
    by_cases hj : j < t.columns.length
    · rw [promises, getElem?_complete t completed (by simpa using hj), if_pos (hall j hj),
        List.getElem?_map, List.getElem?_eq_getElem hj, Option.map_some, Option.map_some]
    · have hle : t.columns.length ≤ j := Nat.not_lt.mp hj
      rw [List.getElem?_eq_none (by rwa [promises, length_complete, length_replicate]),
        List.getElem?_eq_none (by rwa [length_map])]
  rw [emitPooled, hpromises, mapM_some, Option.map_some, emitSerial, filterMap_map]
  rfl

end MldpDriver.Reader.Pvxs
