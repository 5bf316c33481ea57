/-
# From a pvData table update to one-row frames

The EPICS base reader is handed pvData fields.  `convertPVToDataBatch` appends one column for each
scalar or array in a field; `convertColumn` makes a small frame of each row of a column, with the
timestamp of the row.  The columns of timestamps are converted like the others.
-/
import MldpDriver.Reader.TableBatching
import MldpDriver.Reader.TableCells

namespace MldpDriver.Reader.Base

open Bus Lib.Directory List

/-! ## 1. pvData fields -/

/-- `PVField`, or a pointer that is null; a union without a value is the text that
`dumpValue` gives of it. -/
inductive PvField
  | null
  | scalar (value : Scalar)
  | scalarArray (values : ScalarArray)
  | struct (fields : List (String × PvField))
  | structArray (entries : List PvField)
  | union (value : PvField)
  | emptyUnion (dumped : String)
  | unionArray (entries : List PvField)

mutual

/-- `EpicsPVDataBatchConversion::convertPVToDataBatch`; null pointers are passed over. -/
def convertPVToDataBatch (columnName : String) (batch : DataBatch Datum) :
    PvField → DataBatch Datum
  | .null => batch
  | .scalar s => appendColumn batch columnName (.scalar s.toArray.scalarKind s.toArray.stored)
  | .scalarArray a => appendArrayColumn batch columnName a
  | .struct fields => convertStructure columnName batch fields
  | .structArray entries => convertStructures columnName batch entries
  | .union value => convertPVToDataBatch columnName batch value
  | .emptyUnion dumped => appendColumn batch columnName (.scalar .string [.string dumped])
  | .unionArray entries => convertEach columnName batch entries
termination_by structural v => v

/-- `convertStructure`: the fields, under dotted names. -/
def convertStructure (pref : String) (batch : DataBatch Datum) :
    List (String × PvField) → DataBatch Datum
  | [] => batch
  | (field, v) :: rest =>
    convertStructure pref (convertPVToDataBatch (pref ++ "." ++ field) batch v) rest
termination_by structural v => v

/-- The structures of an array, under the same names. -/
def convertStructures (columnName : String) (batch : DataBatch Datum) :
    List PvField → DataBatch Datum
  | [] => batch
  | .struct fields :: rest =>
    convertStructures columnName (convertStructure columnName batch fields) rest
  | _ :: rest => convertStructures columnName batch rest
termination_by structural v => v

/-- The values of an array of unions. -/
def convertEach (columnName : String) (batch : DataBatch Datum) : List PvField → DataBatch Datum
  | [] => batch
  | v :: rest => convertEach columnName (convertPVToDataBatch columnName batch v) rest
termination_by structural v => v

end

/-! ## 2. What a field holds

`leaves` says what a field holds and `convert_columns` that the conversion appends just that;
`columnEvents` are the small frames of a column and `pieces` what they are made of. -/

mutual

/-- The scalars and arrays of a field with their dotted names. -/
def leaves (name : String) : PvField → List (String × Leaf)
  | .null => []
  | .scalar s => [(name, .scalar s)]
  | .scalarArray a => [(name, .array a)]
  | .struct fields => fieldLeaves name fields
  | .structArray entries => structureLeaves name entries
  | .union value => leaves name value
  | .emptyUnion dumped => [(name, .scalar (.string dumped))]
  | .unionArray entries => eachLeaves name entries
termination_by structural v => v

def fieldLeaves (name : String) : List (String × PvField) → List (String × Leaf)
  | [] => []
  | (field, v) :: rest => leaves (name ++ "." ++ field) v ++ fieldLeaves name rest
termination_by structural v => v

def structureLeaves (name : String) : List PvField → List (String × Leaf)
  | [] => []
  | .struct fields :: rest => fieldLeaves name fields ++ structureLeaves name rest
  | _ :: rest => structureLeaves name rest
termination_by structural v => v

def eachLeaves (name : String) : List PvField → List (String × Leaf)
  | [] => []
  | v :: rest => leaves name v ++ eachLeaves name rest
termination_by structural v => v

end

mutual

/-- **The conversion appends a column for each leaf.** -/
theorem convert_columns (name : String) (batch : DataBatch Datum) : ∀ v : PvField,
    (convertPVToDataBatch name batch v).columns = batch.columns ++ (leaves name v).map leafColumn
  | .null => (append_nil _).symm
  | .scalar _ => rfl
  | .scalarArray _ => rfl
  | .struct fields => convertStructure_columns name batch fields
  | .structArray entries => convertStructures_columns name batch entries
  | .union value => convert_columns name batch value
  | .emptyUnion _ => rfl
  | .unionArray entries => convertEach_columns name batch entries

theorem convertStructure_columns (name : String) (batch : DataBatch Datum) :
    ∀ fields : List (String × PvField), (convertStructure name batch fields).columns =
      batch.columns ++ (fieldLeaves name fields).map leafColumn
  | [] => (append_nil _).symm
  | (field, v) :: rest => by
    rw [convertStructure, fieldLeaves, convertStructure_columns, convert_columns, map_append,
      append_assoc]

theorem convertStructures_columns (name : String) (batch : DataBatch Datum) :
    ∀ entries : List PvField, (convertStructures name batch entries).columns =
      batch.columns ++ (structureLeaves name entries).map leafColumn
  | [] => (append_nil _).symm
  | .struct fields :: rest => by
    rw [convertStructures, structureLeaves, convertStructures_columns, convertStructure_columns,
      map_append, append_assoc]
  | .null :: rest => convertStructures_columns name batch rest
  | .scalar _ :: rest => convertStructures_columns name batch rest
  | .scalarArray _ :: rest => convertStructures_columns name batch rest
  | .structArray _ :: rest => convertStructures_columns name batch rest
  | .union _ :: rest => convertStructures_columns name batch rest
  | .emptyUnion _ :: rest => convertStructures_columns name batch rest
  | .unionArray _ :: rest => convertStructures_columns name batch rest

theorem convertEach_columns (name : String) (batch : DataBatch Datum) :
    ∀ entries : List PvField, (convertEach name batch entries).columns =
      batch.columns ++ (eachLeaves name entries).map leafColumn
  | [] => (append_nil _).symm
  | v :: rest => by
    rw [convertEach, eachLeaves, convertEach_columns, convert_columns, map_append,
      append_assoc]

end

/-! ## 3. A table -/

/-- `asUIntArrayView`: the four types of timestamps. -/
def asUIntArrayView : PvField → Option (List Int)
  | .scalarArray (.int .uint64 values) => some (values.map (·.value))
  | .scalarArray (.int .int64 values) => some (values.map (·.value))
  | .scalarArray (.int .uint32 values) => some (values.map (·.value))
  | .scalarArray (.int .int32 values) => some (values.map (·.value))
  | _ => none

/-- What is found in an update: the arrays of timestamps, and all columns. -/
structure Table extends RowTimes where
  columns : List (String × PvField)

/-- Both fields, if both are there. -/
def bothFields (fields : List (String × PvField)) (seconds nanos : String) :
    Option (PvField × PvField) :=
  match fields.lookup seconds, fields.lookup nanos with
  | some s, some n => some (s, n)
  | _, _ => none

/-- The checks of `tryBuildNtTableRowTsBatch`; the fields are at the top or in the table. -/
def findTable (tsSecondsField tsNanosField : String) : PvField → Option Table
  | .struct fields =>
    match fields.lookup "value" with
    | some (.struct columns) =>
      match (bothFields fields tsSecondsField tsNanosField).or
          (bothFields columns tsSecondsField tsNanosField) with
      | some (secondsField, nanosField) =>
        match asUIntArrayView secondsField, asUIntArrayView nanosField with
        | some seconds, some nanos =>
          if min seconds.length nanos.length = 0 then none
          else some { columns := columns, seconds := seconds, nanos := nanos }
        | _, _ => none
      | none => none
    | _ => none
  | _ => none

/-- The frame of a row. -/
def rowFrame (timestamp : TimestampEntry) (columns : List (DataColumn Datum))
    (dims : List (String × List Nat) := []) : DataBatch Datum where
  timestamps := [timestamp]
  columns := columns
  arrayDims := dims

/-- `emitArray`: a frame for each row that has a value and a timestamp. -/
def emitArray (r : RowTimes) (name : String) (a : ScalarArray) : List (DataBatch Datum) :=
  List.zipWith (fun ts v => rowFrame ts [{ name := name, values := .scalar a.scalarKind [v] }])
    r.timestamps a.stored

/-- A frame for each row that has a structure and a timestamp. -/
def emitStructures (r : RowTimes) (name : String) (entries : List PvField) :
    List (DataBatch Datum) :=
  List.zipWith
    (fun ts entry =>
      rowFrame ts (convertPVToDataBatch name emptyFrame entry).columns
        (convertPVToDataBatch name emptyFrame entry).arrayDims)
    r.timestamps entries

/-- `convertColumn`. -/
def columnEvents (r : RowTimes) (c : String × PvField) : List (DataBatch Datum) :=
  match c.2 with
  | .scalarArray a => emitArray r c.1 a
  | .structArray entries => emitStructures r c.1 entries
  | _ => []

/-- The calls of `emitColumn`. -/
def tryBuildNtTableRowTsBatch (t : Table) : List (String × List (DataBatch Datum)) :=
  t.columns.filterMap fun c =>
    if (columnEvents t.toRowTimes c).isEmpty then none
    else some (c.1, columnEvents t.toRowTimes c)

/-! ## 4. What the frames are made of -/

/-- The elements of an array, each with what a column holds of it. -/
def elements (a : ScalarArray) : List (Datum × Datum) := a.data.zip a.stored

/-- What is made of a column: a piece for each row, or for each leaf of a row. -/
def pieces (r : RowTimes) (c : String × PvField) : List Piece :=
  match c.2 with
  | .scalarArray a =>
    ((elements a).take r.rowCount).zipIdx.map fun v =>
      ⟨c.1, .scalar a.scalarKind [v.1.2], [.scalar v.1.1], fun _ => v.2⟩
  | .structArray entries =>
    (entries.take r.rowCount).zipIdx.flatMap fun entry =>
      (leaves c.1 entry.1).map fun l => ⟨l.1, l.2.stored, l.2.entries, fun _ => entry.2⟩
  | _ => []

theorem pieces_full (r : RowTimes) (c : String × PvField) : ∀ p ∈ pieces r c, p.Full := by
  obtain ⟨name, v⟩ := c
  intro p hp
  cases v with
  | scalarArray a =>
    obtain ⟨v, -, rfl⟩ := mem_map.mp hp
    rfl
  | structArray entries =>
    obtain ⟨entry, -, hp⟩ := mem_flatMap.mp hp
    obtain ⟨l, -, rfl⟩ := mem_map.mp hp
    exact length_leafEntries l.2
  | null => cases hp
  | scalar s => cases hp
  | struct fields => cases hp
  | union value => cases hp
  | emptyUnion dumped => cases hp
  | unionArray entries => cases hp

theorem flatMap_zipWith {α β γ δ : Type} {f : α → β → γ} {g : γ → List δ} {h : β → List δ}
    (hg : ∀ a b, g (f a b) = h b) (as : List α) (bs : List β) :
    (List.zipWith f as bs).flatMap g = (bs.take as.length).flatMap h := by
  induction as generalizing bs with
  | nil => rfl
  | cons a as ih =>
    cases bs with
    | nil => rfl
    | cons b bs =>
      rw [zipWith_cons_cons, flatMap_cons, hg, ih, length_cons, take_succ_cons,
        flatMap_cons]

theorem elementPieces_columns (name : String) (kind : ScalarKind) (l : List (Datum × Datum))
    (n : Nat) :
    ((l.zipIdx n).map fun v =>
        (⟨name, .scalar kind [v.1.2], [.scalar v.1.1], fun _ => v.2⟩ : Piece)).map Piece.column =
      (l.map (·.2)).map fun v => { name := name, values := .scalar kind [v] } := by
  induction l generalizing n with
  | nil => rfl
  | cons v l ih =>
    rw [zipIdx_cons, map_cons, map_cons, ih]
    rfl

theorem entryPieces_columns (name : String) (entries : List PvField) (n : Nat) :
    (((entries.zipIdx n).flatMap fun entry => (leaves name entry.1).map fun l =>
        (⟨l.1, l.2.stored, l.2.entries, fun _ => entry.2⟩ : Piece)).map Piece.column) =
      entries.flatMap fun entry => (leaves name entry).map leafColumn := by
  induction entries generalizing n with
  | nil => rfl
  | cons entry entries ih =>
    rw [zipIdx_cons, flatMap_cons, flatMap_cons, map_append, ih, map_map]
    rfl

theorem elements_stored (a : ScalarArray) : (elements a).map (·.2) = a.stored :=
  map_snd_zip (Nat.le_of_eq ((length_stored a).trans (length_data a).symm))

theorem emitArray_columns (r : RowTimes) (name : String) (a : ScalarArray) :
    (emitArray r name a).flatMap (·.columns) =
      (a.stored.take r.rowCount).map fun v =>
        { name := name, values := .scalar a.scalarKind [v] } := by
  have hcolumns := flatMap_zipWith (f := fun ts v =>
      rowFrame ts [{ name := name, values := .scalar a.scalarKind [v] }]) (g := (·.columns))
    (h := fun v => [{ name := name, values := .scalar a.scalarKind [v] }]) (fun _ _ => rfl)
    r.timestamps a.stored
  rw [r.length_timestamps, ← map_eq_flatMap] at hcolumns
  exact hcolumns

theorem emitStructures_columns (r : RowTimes) (name : String) (entries : List PvField) :
    (emitStructures r name entries).flatMap (·.columns) =
      (entries.take r.rowCount).flatMap fun entry => (leaves name entry).map leafColumn := by
  rw [emitStructures, ← r.length_timestamps, flatMap_zipWith]
  intro _ entry
  exact convert_columns name emptyFrame entry

/-- **The columns of the small frames are the pieces.** -/
theorem columnEvents_columns (r : RowTimes) (c : String × PvField) :
    (columnEvents r c).flatMap (·.columns) = (pieces r c).map Piece.column := by
  obtain ⟨name, v⟩ := c
  cases v with
  | scalarArray a =>
    rw [pieces, elementPieces_columns, map_take, elements_stored]
    exact emitArray_columns r name a
  | structArray entries =>
    rw [pieces, entryPieces_columns]
    exact emitStructures_columns r name entries
  | null => rfl
  | scalar s => rfl
  | struct fields => rfl
  | union value => rfl
  | emptyUnion dumped => rfl
  | unionArray entries => rfl

end MldpDriver.Reader.Base
