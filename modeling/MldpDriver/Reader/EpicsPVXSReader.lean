/-
# The PVXS reader: table updates

`processSlacBsasTableMode` converts the columns of a table update, drops those that have no valid
data, takes the others together into frames and batches, pushes the batches and, after them, a
marker that says the update is complete.
-/
import MldpDriver.Reader.BSASEpicsDataBatchConversion

namespace MldpDriver.Reader.Pvxs

open Bus Lib.Groups List

/-! ## 1. The update -/

/-- `std::isnan`. -/
def Datum.isNan : Datum → Bool
  | .float bits => bits &&& 0x7F800000#32 == 0x7F800000#32 && bits &&& 0x007FFFFF#32 != 0#32
  | .double bits =>
    bits &&& 0x7FF0000000000000#64 == 0x7FF0000000000000#64 &&
      bits &&& 0x000FFFFFFFFFFFFF#64 != 0#64
  | _ => false

/-- The values of a column of floating point numbers. -/
def floats : ColumnValues Datum → Option (List Datum)
  | .scalar .float values => some values
  | .scalar .double values => some values
  | _ => none

/-- `hasValidData`: only floating point numbers are looked at. -/
def hasValidData (batch : DataBatch Datum) : Bool :=
  !batch.timestamps.isEmpty &&
    (batch.columns.any (fun c => ((floats c.values).getD []).any fun v => !Datum.isNan v) ||
      batch.columns.all fun c => (floats c.values).isNone)

def hasTimestamp (batch : DataBatch Datum) : Bool := !batch.timestamps.isEmpty

/-- What is kept of a converted column. -/
def keep (batch : DataBatch Datum) : Bool := hasTimestamp batch && hasValidData batch

/-- The marker that ends an update. -/
def markerBatch (metadata : List (String × String)) (pvName : String) : EventBatch Datum where
  metadata := metadata
  payload := .timeSeries
    { rootSourceName := pvName, frames := [], endOfBatchGroup := true, isTabular := true }

/-- The batches that the calls of `emitColumn` and the last flush push. -/
def pushedBatches (cfg : TableConfig) (calls : List (String × List (DataBatch Datum))) :
    List (List (DataBatch Datum)) :=
  let s := (calls.map (·.2)).foldl
    (Batching.emitColumn keep cfg.busBatchSize cfg.perPvBatchSize) {}
  if calls.isEmpty then s.pushed else (s.flushCurrentFrame cfg.busBatchSize true).pushed

/-- All that is pushed. -/
def pushes (cfg : TableConfig) (metadata : List (String × String)) (pvName : String)
    (calls : List (String × List (DataBatch Datum))) : List (EventBatch Datum) :=
  (pushedBatches cfg calls).map (tableBatch metadata pvName) ++ [markerBatch metadata pvName]

/-- `processSlacBsasTableMode` on a pool of one thread. -/
def processSlacBsasTableMode (cfg : TableConfig) (metadata : List (String × String))
    (pvName : String) (epicsValue : PvxsValue) : List (EventBatch Datum) :=
  match findTable cfg.tsSecondsField cfg.tsNanosField epicsValue with
  | some t => pushes cfg metadata pvName (emitSerial t)
  | none => pushes cfg metadata pvName []

/-- `processSlacBsasTableMode` on a larger pool, whose tasks complete in this order. -/
def processPooled (cfg : TableConfig) (metadata : List (String × String)) (pvName : String)
    (completed : List Nat) (epicsValue : PvxsValue) : Option (List (EventBatch Datum)) :=
  match findTable cfg.tsSecondsField cfg.tsNanosField epicsValue with
  | some t => (emitPooled t completed).map (pushes cfg metadata pvName)
  | none => some (pushes cfg metadata pvName [])

/-! ## 2. What an update should come to

`UpdateEmitted` says that every cell of the columns that are not dropped is in the frames once,
with the time of its row and its value, in frames whose columns have a value for each timestamp;
that a pool changes nothing; and that the marker comes last. -/

/-- `end_of_batch_group`. -/
def isMarker (b : EventBatch Datum) : Bool :=
  match b.payload with
  | .timeSeries payload => payload.endOfBatchGroup
  | _ => false

/-- The rows that a column has a value in. -/
def Table.rows (t : Table) (c : String × PvxsValue) : Nat :=
  match c.2 with
  | .array a => min t.rowCount a.length
  | .compounds cells => min t.rowCount cells.length
  | _ => 0

/-- The columns that have values, and are not dropped for having no valid ones. -/
def Table.kept (t : Table) : List (String × PvxsValue) :=
  t.columns.filter fun c =>
    decide (0 < t.rows c) && keep ((convertColumn t.rowCount c).batch t)

/-- What is made of a column: one piece of an array, a piece for each leaf of a cell. -/
def pieces (t : Table) (c : String × PvxsValue) : List Piece :=
  match c.2 with
  | .array a =>
    if min t.rowCount a.length = 0 then []
    else
      [⟨c.1, .scalar a.scalarKind (a.take t.rowCount).stored,
        (a.take t.rowCount).data.map .scalar, id⟩]
  | .compounds cells =>
    (cells.take t.rowCount).zipIdx.flatMap fun cell =>
      (leaves c.1 (cellValue cell.1)).map fun l => ⟨l.1, l.2.stored, l.2.entries, fun _ => cell.2⟩
  | _ => []

/-- **An update as it should be emitted**: its marker comes last, the pool of threads makes no
difference, nothing comes of a value that is no table, every frame has as many values as
timestamps, and the cells of the frames are those of the kept columns, each with its time. -/
structure UpdateEmitted (cfg : TableConfig) (metadata : List (String × String)) (pvName : String)
    (epicsValue : PvxsValue) : Prop where
  markerLast : ∃ data,
    processSlacBsasTableMode cfg metadata pvName epicsValue = data ++ [markerBatch metadata pvName] ∧
      ∀ b ∈ data, isMarker b = false
  pooled : ∀ completed : List Nat,
    (∀ t, findTable cfg.tsSecondsField cfg.tsNanosField epicsValue = some t →
      ∀ j < t.columns.length, j ∈ completed) →
    processPooled cfg metadata pvName completed epicsValue =
      some (processSlacBsasTableMode cfg metadata pvName epicsValue)
  nothing : findTable cfg.tsSecondsField cfg.tsNanosField epicsValue = none →
    framesOf (processSlacBsasTableMode cfg metadata pvName epicsValue) = []
  shaped : ∀ f ∈ framesOf (processSlacBsasTableMode cfg metadata pvName epicsValue), Shaped f
  cells : ∀ t, findTable cfg.tsSecondsField cfg.tsNanosField epicsValue = some t →
    (framesOf (processSlacBsasTableMode cfg metadata pvName epicsValue)).flatMap
        (frameCells fun _ => true) =
      tableCells (fun _ => true) t.time (pieces t) t.kept

/-! ## 3. The condition -/

/-- The column fits into a frame of `m` rows.  An array has `m` values, none of them above the
signed range, at times that are not negative.  A cell has only leaves with as many entries as the
frame has rows, all of which have the time of the row of the cell. -/
def ColumnFits (t : Table) (m : Nat) (c : String × PvxsValue) : Prop :=
  match c.2 with
  | .array a =>
    min t.rowCount a.length = m ∧ (a.take t.rowCount).InRange ∧ ∀ k < m, t.emittedTime k = t.time k
  | .compounds cells =>
    ∀ cell ∈ (cells.take t.rowCount).zipIdx, ∀ l ∈ leaves c.1 (cellValue cell.1),
      l.2.entries.length = m ∧ l.2.InRange ∧ ∀ k < m, t.emittedTime k = t.time cell.2
  | _ => True

/-- The rows of a frame: those of its first column. -/
def frameRows (t : Table) : List (String × PvxsValue) → Nat
  | [] => 0
  | c :: _ => t.rows c

/-- **Every column fits into its frame.** -/
def TableFits (cfg : TableConfig) (t : Table) : Prop :=
  ∀ g ∈ groups cfg.perPvBatchSize [] t.kept, ∀ c ∈ g, ColumnFits t (frameRows t g) c

/-! ## 4. Leaves and pieces -/

theorem pieces_full (t : Table) (c : String × PvxsValue) : ∀ p ∈ pieces t c, p.Full := by
  intro p hp
  rw [pieces] at hp
  split at hp
  · split at hp
    · cases hp
    · rw [mem_singleton.mp hp]
      simp [Piece.Full, columnEntries, length_stored, length_data]
  · obtain ⟨cell, -, hp⟩ := mem_flatMap.mp hp
    obtain ⟨l, -, rfl⟩ := mem_map.mp hp
    exact length_leafEntries l.2
  · cases hp

theorem emitted_eq (t : Table) (c : String × PvxsValue) :
    (convertColumn t.rowCount c).emitted = t.rows c := by
  obtain ⟨name, v⟩ := c
  cases v with
  | null => rfl
  | scalar s => rfl
  | compound children => rfl
  | array a =>
    by_cases hzero : min t.rowCount a.length = 0
    · simp [convertColumn, Table.rows, hzero]
    · simp only [convertColumn, Table.rows, if_neg hzero]
  | compounds cells =>
    by_cases hzero : min t.rowCount cells.length = 0
    · simp [convertColumn, Table.rows, hzero]
    · simp only [convertColumn, Table.rows, if_neg hzero]

theorem foldl_convert_columns (name : String) (cells : List PvxsValue) (batch : DataBatch Datum) :
    (cells.foldl (fun batch cell => convertPVToDataBatch name batch (cellValue cell))
        batch).columns =
      batch.columns ++ (cells.flatMap fun cell => leaves name (cellValue cell)).map leafColumn := by
  induction cells generalizing batch with
  | nil => exact (append_nil _).symm
  | cons cell cells ih =>
    rw [foldl_cons, ih, convert_columns, flatMap_cons, map_append, append_assoc]

theorem cellPieces_columns (name : String) (cells : List PvxsValue) (n : Nat) :
    (((cells.zipIdx n).flatMap fun cell => (leaves name (cellValue cell.1)).map fun l =>
        (⟨l.1, l.2.stored, l.2.entries, fun _ => cell.2⟩ : Piece)).map Piece.column) =
      (cells.flatMap fun cell => leaves name (cellValue cell)).map leafColumn := by
  induction cells generalizing n with
  | nil => rfl
  | cons cell cells ih =>
    rw [zipIdx_cons, flatMap_cons, flatMap_cons, map_append, map_append,
      ih, map_map]
    rfl

/-- **The columns of a result are its pieces.** -/
theorem convertColumn_columns (t : Table) (c : String × PvxsValue) :
    (convertColumn t.rowCount c).columns = (pieces t c).map Piece.column := by
  obtain ⟨name, v⟩ := c
  cases v with
  | null => rfl
  | scalar s => rfl
  | compound children => rfl
  | array a =>
    by_cases hzero : min t.rowCount a.length = 0
    · simp only [convertColumn, pieces, if_pos hzero, map_nil]
    · simp only [convertColumn, pieces, if_neg hzero, map_singleton]
      rfl
  | compounds cells =>
    rw [pieces, cellPieces_columns]
    by_cases hzero : min t.rowCount cells.length = 0
    · have hnil : cells.take t.rowCount = [] := by
        rw [← length_eq_zero_iff, List.length_take, hzero]
      simp only [convertColumn, if_pos hzero, hnil, flatMap_nil, map_nil]
    · simp only [convertColumn, if_neg hzero, foldl_convert_columns]
      rfl

/-! ## 5. Frames -/

/-- The frame of columns taken together. -/
def frame (t : Table) (g : List (String × PvxsValue)) : DataBatch Datum :=
  frameOf (g.map fun c => (convertColumn t.rowCount c).batch t)

theorem frame_columns (t : Table) (g : List (String × PvxsValue)) :
    (frame t g).columns = (g.flatMap (pieces t)).map Piece.column := by
  have hcolumns : (frame t g).columns =
      (g.map fun c => (convertColumn t.rowCount c).batch t).flatMap (·.columns) := rfl
  rw [hcolumns, flatMap_map, map_flatMap]
  exact flatMap_congr fun c _ => convertColumn_columns t c

theorem frame_timestamps (t : Table) (g : List (String × PvxsValue)) :
    (frame t g).timestamps = t.timestamps.take (frameRows t g) := by
  cases g with
  | nil => rfl
  | cons c g =>
    rw [frameRows, ← emitted_eq]
    rfl

/-- **What contributes are the columns that are kept.** -/
theorem contributions_emitSerial (t : Table) :
    contributions keep ((emitSerial t).map (·.2)) =
      t.kept.map fun c => [(convertColumn t.rowCount c).batch t] := by
  rw [emitSerial, Table.kept]
  induction t.columns with
  | nil => rfl
  | cons c columns ih =>
    rw [filterMap_cons, filter_cons, emission, emitted_eq]
    by_cases hrows : 0 < t.rows c
    · rw [if_pos hrows, map_cons]
      by_cases hkeep : keep ((convertColumn t.rowCount c).batch t) = true
      · rw [if_pos (by simp [hrows, hkeep]), map_cons, ← ih]
        simp [contributions, hkeep]
      · rw [if_neg (by simp [hkeep]), ← ih]
        simp [contributions, hkeep]
    · rw [if_neg hrows, if_neg (by simp [hrows]), ← ih]

/-- **The batches are the columns that are kept, taken together twice.** -/
theorem pushedBatches_eq (cfg : TableConfig) (t : Table) :
    pushedBatches cfg (emitSerial t) =
      groups cfg.busBatchSize [] ((groups cfg.perPvBatchSize [] t.kept).map (frame t)) := by
  have hpushed := emitColumns_flush cfg.busBatchSize cfg.perPvBatchSize keep
    ((emitSerial t).map (·.2)) (holds_empty [] [])
  have hgroups := groups_map (fun c => [(convertColumn t.rowCount c).batch t]) cfg.perPvBatchSize
    [] t.kept
  have hframes : ((groups cfg.perPvBatchSize [] (contributions keep ((emitSerial t).map (·.2)))).map
      fun g => frameOf g.flatten) = (groups cfg.perPvBatchSize [] t.kept).map (frame t) := by
    rw [map_nil] at hgroups
    rw [contributions_emitSerial, hgroups, map_map]
    refine map_congr_left fun g _ => congrArg frameOf ?_
    rw [← flatMap_def, map_eq_flatMap]
  rw [hframes] at hpushed
  rw [pushedBatches]
  by_cases hcalls : emitSerial t = []
  · have hkept : t.kept = [] := by
      have hnone := contributions_emitSerial t
      rw [hcalls] at hnone
      exact map_eq_nil_iff.mp hnone.symm
    rw [hcalls, hkept]
    rfl
  · rw [isEmpty_eq_false_iff.mpr hcalls]
    exact hpushed

theorem framesOf_pushes (cfg : TableConfig) (metadata : List (String × String)) (pvName : String)
    (calls : List (String × List (DataBatch Datum))) :
    framesOf (pushes cfg metadata pvName calls) = (pushedBatches cfg calls).flatten := by
  rw [framesOf, pushes, flatMap_append, flatMap_map, flatMap_singleton]
  exact (append_nil _).trans flatMap_id'

/-- **The pieces of a column fit exactly when the column does.** -/
theorem column_fits_iff (t : Table) {m : Nat} (hm : m ≤ t.rowCount) {c : String × PvxsValue}
    (hrows : 0 < t.rows c) :
    (∀ p ∈ pieces t c, p.Fits (fun _ => true) t.time (t.timestamps.take m)) ↔
      ColumnFits t m c := by
  obtain ⟨name, v⟩ := c
  cases v with
  | null => cases hrows
  | scalar s => cases hrows
  | compound children => cases hrows
  | array a =>
    have hne : min t.rowCount a.length ≠ 0 := Nat.pos_iff_ne_zero.mp hrows
    simp only [pieces, if_neg hne, forall_mem_singleton, t.piece_fits_iff hm, ColumnFits,
      length_map, length_data, length_take, columnEntries, id_eq, true_imp_iff]
    rw [List.map_inj_right fun _ _ h => Entry.scalar.inj h, stored_eq_iff]
  | compounds cells =>
    simp only [pieces, forall_mem_flatMap, forall_mem_map, t.piece_fits_iff hm,
      ColumnFits, leafEntries_eq_iff, true_imp_iff]

theorem flatten_pushedBatches (cfg : TableConfig) (t : Table) :
    (pushedBatches cfg (emitSerial t)).flatten =
      (groups cfg.perPvBatchSize [] t.kept).map (frame t) := by
  rw [pushedBatches_eq, flatten_groups, nil_append]

theorem rows_le (t : Table) (c : String × PvxsValue) : t.rows c ≤ t.rowCount := by
  obtain ⟨name, v⟩ := c
  cases v with
  | array a => exact Nat.min_le_left _ _
  | compounds cells => exact Nat.min_le_left _ _
  | null => exact Nat.zero_le _
  | scalar s => exact Nat.zero_le _
  | compound children => exact Nat.zero_le _

theorem frameRows_le (t : Table) (g : List (String × PvxsValue)) :
    frameRows t g ≤ t.rowCount := by
  cases g with
  | nil => exact Nat.zero_le _
  | cons c g => exact rows_le t c

/-- **The frames of a table are as they should be exactly when every column fits.** -/
theorem table_sound_iff (cfg : TableConfig) (t : Table) :
    (∀ f ∈ (pushedBatches cfg (emitSerial t)).flatten, Shaped f) ∧
        (pushedBatches cfg (emitSerial t)).flatten.flatMap (frameCells fun _ => true) =
          tableCells (fun _ => true) t.time (pieces t) t.kept ↔
      TableFits cfg t := by
  have hsound := frames_sound_iff (fun _ => true) t.time (frame_columns t) (pieces_full t)
    (groups cfg.perPvBatchSize [] t.kept)
  rw [flatten_groups, nil_append] at hsound
  rw [flatten_pushedBatches, hsound, TableFits]
  refine forall₂_congr fun g hg => forall₂_congr fun c hc => ?_
  have hkept := mem_of_mem_groups hg hc
  rw [frame_timestamps]
  refine column_fits_iff t (frameRows_le t g) ?_
  have hrows := (mem_filter.mp hkept).2
  rw [Bool.and_eq_true] at hrows
  exact of_decide_eq_true hrows.1

/-! ## 6. Every update -/

/-- **An update is emitted as it should be exactly when every column of its table fits**: each cell
once, with its time and value.  `updates_not_emitted` has three columns that do not fit: one of
another length in its frame, an unsigned value above the signed range, and cells that are
structures. -/
theorem update_emitted_iff (cfg : TableConfig) (metadata : List (String × String))
    (pvName : String) (epicsValue : PvxsValue) :
    UpdateEmitted cfg metadata pvName epicsValue ↔
      ∀ t, findTable cfg.tsSecondsField cfg.tsNanosField epicsValue = some t → TableFits cfg t := by
  constructor
  · intro h t ht
    have hshaped := h.shaped
    have hcells := h.cells t ht
    simp only [processSlacBsasTableMode, ht, framesOf_pushes] at hshaped hcells
    exact (table_sound_iff cfg t).mp ⟨hshaped, hcells⟩
  · intro h
    have hdata : ∀ calls, ∀ b ∈ (pushedBatches cfg calls).map (tableBatch metadata pvName),
        isMarker b = false := by
      intro calls b hb
      obtain ⟨frames, -, rfl⟩ := mem_map.mp hb
      rfl
    cases ht : findTable cfg.tsSecondsField cfg.tsNanosField epicsValue with
    | none =>
      refine ⟨⟨[], ?_, ?_⟩, ?_, ?_, ?_, ?_⟩
      · simp only [processSlacBsasTableMode, ht]
        rfl
      · intro b hb
        cases hb
      · intro completed _
        simp only [processSlacBsasTableMode, processPooled, ht]
      · intro _
        simp only [processSlacBsasTableMode, ht]
        rfl
      · intro f hf
        simp only [processSlacBsasTableMode, ht] at hf
        cases hf
      · intro t ht'
        cases ht.symm.trans ht'
    | some t =>
      obtain ⟨hshaped, hcells⟩ := (table_sound_iff cfg t).mpr (h t ht)
      refine ⟨⟨_, ?_, hdata (emitSerial t)⟩, ?_, ?_, ?_, ?_⟩
      · simp only [processSlacBsasTableMode, ht]
        rfl
      · intro completed hcompleted
        simp only [processSlacBsasTableMode, processPooled, ht, emitPooled_eq t (hcompleted t ht),
          Option.map_some]
      · intro hnone
        cases ht.symm.trans hnone
      · simp only [processSlacBsasTableMode, ht, framesOf_pushes]
        exact hshaped
      · intro t' ht'
        obtain rfl := Option.some.inj (ht.symm.trans ht')
        simp only [processSlacBsasTableMode, ht, framesOf_pushes]
        exact hcells

/-- An array of 32-bit unsigned integers. -/
def uint32s (values : List UInt32) : PvxsValue := .array (.int .uint32 (values.map .ofUInt32))

/-- An update with these columns, whose rows are at 10 s and 11 s. -/
def twoRows (columns : List (String × PvxsValue)) : PvxsValue :=
  .compound [("value", .compound columns), ("secondsPastEpoch", uint32s [10, 11]),
    ("nanoseconds", uint32s [0, 0])]

/-- A column of one value before one of two. -/
def raggedColumns : List (String × PvxsValue) := [("A", uint32s [1]), ("B", uint32s [2, 3])]

/-- A value above the range of `int32_t`. -/
def unsignedColumns : List (String × PvxsValue) := [("A", uint32s [4294967295, 1])]

/-- Cells that are structures with a value. -/
def structColumns : List (String × PvxsValue) :=
  [("A", .compounds [.compound [("value", .scalar (.int .uint32 (.ofUInt32 1)))],
    .compound [("value", .scalar (.int .uint32 (.ofUInt32 2)))]])]

/-- The table in an update. -/
def twoRowsTable (columns : List (String × PvxsValue)) : Table := ⟨⟨[10, 11], [0, 0]⟩, columns⟩

/-- **A second column that is longer, an unsigned value above the signed range, and cells that are
structures.** -/
theorem updates_not_emitted :
    ¬ UpdateEmitted { busBatchSize := 0, perPvBatchSize := 2 } [] "T" (twoRows raggedColumns) ∧
      ¬ UpdateEmitted { busBatchSize := 0 } [] "T" (twoRows unsignedColumns) ∧
      ¬ UpdateEmitted { busBatchSize := 0 } [] "T" (twoRows structColumns) := by
  refine ⟨fun h => ?_, fun h => ?_, fun h => ?_⟩
  · exact absurd h.shaped (by decide +kernel)
  · exact absurd (h.cells (twoRowsTable unsignedColumns) rfl) (by decide +kernel)
  · exact absurd h.shaped (by decide +kernel)

end MldpDriver.Reader.Pvxs
