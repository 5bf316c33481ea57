/-
# The EPICS base reader: table and array updates

`processSlacBsasTableMode` of the base reader takes the one-row frames of the columns together as
the PVXS reader takes whole columns: the frame keeps the timestamps of the FIRST small frame, so
that all rows of all its columns come out at the time of row 0.  `processDefaultMode` emits one
frame with the time of the update.
-/
import MldpDriver.Reader.EpicsPVDataBatchConversion

namespace MldpDriver.Reader.Base

open Bus Lib.Groups List

/-! ## 1. The updates -/

/-- `hasTimestamps`, and nothing else is asked. -/
def keep (batch : DataBatch Datum) : Bool := !batch.timestamps.isEmpty

/-- The batches that the calls of `emitColumn` and the last flush push. -/
def pushedBatches (cfg : TableConfig) (calls : List (String × List (DataBatch Datum))) :
    List (List (DataBatch Datum)) :=
  let s := (calls.map (·.2)).foldl
    (Batching.emitColumn keep cfg.busBatchSize cfg.perPvBatchSize) {}
  if calls.isEmpty then s.pushed else ((s.flushCurrentFrame cfg.busBatchSize false).push).pushed

/-- `processSlacBsasTableMode`. -/
def processSlacBsasTableMode (cfg : TableConfig) (metadata : List (String × String))
    (pvName : String) (epicsValue : PvField) : List (EventBatch Datum) :=
  match findTable cfg.tsSecondsField cfg.tsNanosField epicsValue with
  | some t => (pushedBatches cfg (tryBuildNtTableRowTsBatch t)).map (tableBatch metadata pvName)
  | none => (pushedBatches cfg []).map (tableBatch metadata pvName)

/-- The time of an update, or the time now; `getAsUInt64` is what pvData reads a scalar as. -/
def updateTime (getAsUInt64 : Scalar → Nat) (now : Nat) (fields : List (String × PvField)) :
    TimestampEntry :=
  match fields.lookup "timeStamp" with
  | some (.struct timeStamp) =>
    { epochSeconds := match timeStamp.lookup "secondsPastEpoch" with
        | some (.scalar s) => getAsUInt64 s
        | _ => now
      nanoseconds := match timeStamp.lookup "nanoseconds" with
        | some (.scalar s) => getAsUInt64 s
        | _ => 0 }
  | _ => ⟨now, 0⟩

/-- `processDefaultMode`, for the fields of an update. -/
def processDefaultMode (getAsUInt64 : Scalar → Nat) (now : Nat) (metadata : List (String × String))
    (pvName : String) (fields : List (String × PvField)) : List (EventBatch Datum) :=
  match fields.lookup "value" with
  | none => []
  | some (.struct _) => []
  | some value =>
    [{ metadata := metadata
       payload := .timeSeries
        { rootSourceName := pvName
          frames := [{ convertPVToDataBatch pvName emptyFrame value with
            timestamps := [updateTime getAsUInt64 now fields] }] } }]

/-! ## 2. What the updates should come to

`TableEmitted` and `ArrayEmitted` say that every data cell is in the frames once, with the time of
its row, in frames whose columns have a value for each timestamp. -/

/-- A column of data; the two columns of timestamps are not looked at. -/
def TableConfig.isData (cfg : TableConfig) (column : String) : Bool :=
  decide (column ≠ cfg.tsSecondsField) && decide (column ≠ cfg.tsNanosField)

/-- **A table as it should be emitted.** -/
structure TableEmitted (cfg : TableConfig) (metadata : List (String × String)) (pvName : String)
    (epicsValue : PvField) : Prop where
  nothing : findTable cfg.tsSecondsField cfg.tsNanosField epicsValue = none →
    framesOf (processSlacBsasTableMode cfg metadata pvName epicsValue) = []
  shaped : ∀ f ∈ framesOf (processSlacBsasTableMode cfg metadata pvName epicsValue), Shaped f
  cells : ∀ t, findTable cfg.tsSecondsField cfg.tsNanosField epicsValue = some t →
    (framesOf (processSlacBsasTableMode cfg metadata pvName epicsValue)).flatMap
        (frameCells (TableConfig.isData cfg)) =
      tableCells (TableConfig.isData cfg) t.time (pieces t.toRowTimes) t.columns

/-- **An array as it should be emitted**: one row, at the time of the update. -/
structure ArrayEmitted (getAsUInt64 : Scalar → Nat) (now : Nat) (metadata : List (String × String))
    (pvName : String) (fields : List (String × PvField)) (a : ScalarArray) : Prop where
  shaped : ∀ f ∈ framesOf (processDefaultMode getAsUInt64 now metadata pvName fields), Shaped f
  cells : (framesOf (processDefaultMode getAsUInt64 now metadata pvName fields)).flatMap
      (frameCells fun _ => true) =
    (Leaf.array a).entries.map fun e =>
      ⟨pvName, some (rowTime (updateTime getAsUInt64 now fields)), e⟩

/-! ## 3. The conditions -/

/-- The column has all its data at the time of row 0, no integer of it is above the signed range,
and a string array in a row has one string. -/
def ColumnFits (isData : String → Bool) (r : RowTimes) (c : String × PvField) : Prop :=
  match c.2 with
  | .scalarArray a =>
    isData c.1 = true → (a.take r.rowCount).InRange ∧
      ∀ i < min r.rowCount a.length, r.emittedTime 0 = r.time i
  | .structArray entries =>
    ∀ entry ∈ (entries.take r.rowCount).zipIdx, ∀ l ∈ leaves c.1 entry.1,
      l.2.entries.length = 1 ∧
        (isData l.1 = true → l.2.InRange ∧ r.emittedTime 0 = r.time entry.2)
  | _ => True

/-- **Every column fits.** -/
def TableFits (cfg : TableConfig) (t : Table) : Prop :=
  ∀ c ∈ t.columns, ColumnFits (TableConfig.isData cfg) t.toRowTimes c

/-- A string array has one string, and no integer is above the signed range. -/
def ArrayFits (a : ScalarArray) : Prop := (Leaf.array a).entries.length = 1 ∧ a.InRange

/-! ## 4. Pieces -/

theorem forall_zipIdx {α : Type} (l : List α) (P : α → Prop) (Q : Nat → Prop) :
    (∀ x ∈ l.zipIdx, P x.1 ∧ Q x.2) ↔ (∀ x ∈ l, P x) ∧ ∀ i < l.length, Q i := by
  constructor
  · intro h
    refine ⟨fun x hx => ?_, fun i hi => ?_⟩
    · obtain ⟨i, hi, rfl⟩ := getElem_of_mem hx
      exact (h (l[i], i) (mk_mem_zipIdx_iff_getElem?.mpr (List.getElem?_eq_getElem hi))).1
    · exact (h (l[i], i) (mk_mem_zipIdx_iff_getElem?.mpr (List.getElem?_eq_getElem hi))).2
  · rintro ⟨hP, hQ⟩ x hx
    obtain ⟨hi, hx⟩ := mem_zipIdx' hx
    exact ⟨hP x.1 (hx ▸ getElem_mem hi), hQ x.2 hi⟩

theorem zip_eq_iff {α : Type} {l l' : List α} (h : l'.length = l.length) :
    (∀ x ∈ l.zip l', x.2 = x.1) ↔ l' = l := by
  induction l generalizing l' with
  | nil => simp [length_eq_zero_iff.mp h]
  | cons a l ih =>
    cases l' with
    | nil => cases h
    | cons a' l' =>
      rw [zip_cons_cons, forall_mem_cons, ih (Nat.succ.inj h), List.cons.injEq]

theorem take_data (n : Nat) (a : ScalarArray) : (a.take n).data = a.data.take n := by
  cases a <;> simp [ScalarArray.take, ScalarArray.data, map_take]

theorem take_stored (n : Nat) (a : ScalarArray) : (a.take n).stored = a.stored.take n := by
  cases a <;> simp [ScalarArray.take, ScalarArray.stored, ScalarArray.data, map_take]

theorem take_elements (n : Nat) (a : ScalarArray) :
    (elements a).take n = elements (a.take n) := by
  rw [elements, elements, take_data, take_stored, zip_eq_zipWith, zip_eq_zipWith,
    take_zipWith]

theorem length_elements (a : ScalarArray) : (elements a).length = a.length := by
  rw [elements, length_zip, length_data, length_stored, Nat.min_self]

/-- **The pieces of a column fit into a frame with the timestamp of row 0 exactly when the column
does.** -/
theorem column_fits_iff (isData : String → Bool) (r : RowTimes) (hrows : 0 < r.rowCount)
    (c : String × PvField) :
    (∀ p ∈ pieces r c, p.Fits isData r.time (r.timestamps.take 1)) ↔ ColumnFits isData r c := by
  obtain ⟨name, v⟩ := c
  cases v with
  | scalarArray a =>
    have hstored : (∀ x ∈ elements (a.take r.rowCount), x.2 = x.1) ↔ (a.take r.rowCount).InRange :=
      (zip_eq_iff ((length_stored _).trans (length_data _).symm)).trans (stored_eq_iff _)
    have hall := forall_zipIdx (elements (a.take r.rowCount)) (fun x => x.2 = x.1)
      fun i => r.emittedTime 0 = r.time i
    rw [hstored, length_elements, length_take] at hall
    simp only [pieces, forall_mem_map, r.piece_fits_iff hrows, ColumnFits, columnEntries,
      length_singleton, true_and, Nat.lt_one_iff, forall_eq, map_singleton,
      List.cons.injEq, and_true, Entry.scalar.injEq, take_elements]
    rw [← hall]
    exact ⟨fun h hdata x hx => h x hx hdata, fun h x hx hdata => h hdata x hx⟩
  | structArray entries =>
    simp only [pieces, forall_mem_flatMap, forall_mem_map, r.piece_fits_iff hrows,
      ColumnFits, leafEntries_eq_iff, Nat.lt_one_iff, forall_eq]
  | null => exact iff_of_true (fun p hp => absurd hp not_mem_nil) trivial
  | scalar s => exact iff_of_true (fun p hp => absurd hp not_mem_nil) trivial
  | struct fields => exact iff_of_true (fun p hp => absurd hp not_mem_nil) trivial
  | union value => exact iff_of_true (fun p hp => absurd hp not_mem_nil) trivial
  | emptyUnion dumped => exact iff_of_true (fun p hp => absurd hp not_mem_nil) trivial
  | unionArray entries => exact iff_of_true (fun p hp => absurd hp not_mem_nil) trivial

/-! ## 5. Frames -/

/-- The columns with a frame for a row. -/
def Table.withRows (t : Table) : List (String × PvField) :=
  t.columns.filter fun c => !(columnEvents t.toRowTimes c).isEmpty

/-- The frame of columns taken together. -/
def frame (t : Table) (g : List (String × PvField)) : DataBatch Datum :=
  frameOf (g.flatMap (columnEvents t.toRowTimes))

theorem frame_columns (t : Table) (g : List (String × PvField)) :
    (frame t g).columns = (g.flatMap (pieces t.toRowTimes)).map Piece.column := by
  have hcolumns : (frame t g).columns =
      (g.flatMap (columnEvents t.toRowTimes)).flatMap (·.columns) := rfl
  rw [hcolumns, flatMap_assoc, map_flatMap]
  exact flatMap_congr fun c _ => columnEvents_columns t.toRowTimes c

theorem zipWith_timestamps {β : Type} {f : TimestampEntry → β → DataBatch Datum}
    (hf : ∀ ts v, (f ts v).timestamps = [ts]) (timestamps : List TimestampEntry) (l : List β) :
    (∀ e ∈ List.zipWith f timestamps l, e.timestamps.length = 1) ∧
      ∀ e es, List.zipWith f timestamps l = e :: es → e.timestamps = timestamps.take 1 ∧
        0 < timestamps.length := by
  induction timestamps generalizing l with
  | nil => simp
  | cons ts timestamps ih =>
    cases l with
    | nil => simp
    | cons v l =>
      rw [zipWith_cons_cons]
      refine ⟨?_, ?_⟩
      · rw [forall_mem_cons, hf]
        exact ⟨rfl, (ih l).1⟩
      · rintro e es h
        obtain ⟨rfl, -⟩ := List.cons.inj h
        rw [hf]
        exact ⟨rfl, Nat.zero_lt_succ _⟩

theorem columnEvents_timestamps (r : RowTimes) (c : String × PvField) :
    (∀ e ∈ columnEvents r c, e.timestamps.length = 1) ∧
      ∀ e es, columnEvents r c = e :: es → e.timestamps = r.timestamps.take 1 ∧
        0 < r.timestamps.length := by
  obtain ⟨name, v⟩ := c
  cases v with
  | scalarArray a => exact zipWith_timestamps (fun _ _ => rfl) r.timestamps a.stored
  | structArray entries => exact zipWith_timestamps (fun _ _ => rfl) r.timestamps entries
  | null => simp [columnEvents]
  | scalar s => simp [columnEvents]
  | struct fields => simp [columnEvents]
  | union value => simp [columnEvents]
  | emptyUnion dumped => simp [columnEvents]
  | unionArray entries => simp [columnEvents]

theorem filter_keep (r : RowTimes) (c : String × PvField) :
    (columnEvents r c).filter keep = columnEvents r c := by
  refine filter_eq_self.mpr fun e he => ?_
  have hlength := (columnEvents_timestamps r c).1 e he
  cases hts : e.timestamps with
  | nil => simp [hts] at hlength
  | cons ts rest => simp [keep, hts]

/-- **A frame has one timestamp, that of row 0.** -/
theorem frame_timestamps (t : Table) {g : List (String × PvField)} (hg : g ≠ [])
    (hrows : ∀ c ∈ g, columnEvents t.toRowTimes c ≠ []) :
    (frame t g).timestamps = t.timestamps.take 1 ∧ 0 < t.rowCount := by
  cases g with
  | nil => exact absurd rfl hg
  | cons c g =>
    obtain ⟨e, es, hevents⟩ := exists_cons_of_ne_nil (hrows c mem_cons_self)
    have htimestamps := (columnEvents_timestamps t.toRowTimes c).2 e es hevents
    rw [t.length_timestamps] at htimestamps
    refine ⟨?_, htimestamps.2⟩
    rw [← htimestamps.1, frame, flatMap_cons, hevents]
    rfl

/-- **What contributes are the columns with rows.** -/
theorem contributions_calls (t : Table) :
    contributions keep ((tryBuildNtTableRowTsBatch t).map (·.2)) =
      t.withRows.map (columnEvents t.toRowTimes) := by
  rw [tryBuildNtTableRowTsBatch, Table.withRows]
  induction t.columns with
  | nil => rfl
  | cons c columns ih =>
    rw [filterMap_cons, filter_cons]
    by_cases hevents : columnEvents t.toRowTimes c = []
    · rw [if_pos (List.isEmpty_iff.mpr hevents), if_neg (by simp [hevents]), ← ih]
    · rw [if_neg (mt List.isEmpty_iff.mp hevents), if_pos (by simp [hevents]), map_cons,
        map_cons, ← ih]
      simp [contributions, filter_keep, hevents]

/-- **The frames that are pushed.** -/
theorem flatten_pushedBatches (cfg : TableConfig) (t : Table) :
    (pushedBatches cfg (tryBuildNtTableRowTsBatch t)).flatten =
      (groups cfg.perPvBatchSize [] t.withRows).map (frame t) := by
  have hpushed := emitColumns_flush cfg.busBatchSize cfg.perPvBatchSize keep
    ((tryBuildNtTableRowTsBatch t).map (·.2)) (holds_empty [] [])
  have hgroups := groups_map (columnEvents t.toRowTimes) cfg.perPvBatchSize [] t.withRows
  have hframes : ((groups cfg.perPvBatchSize []
      (contributions keep ((tryBuildNtTableRowTsBatch t).map (·.2)))).map
      fun g => frameOf g.flatten) = (groups cfg.perPvBatchSize [] t.withRows).map (frame t) := by
    rw [map_nil] at hgroups
    rw [contributions_calls, hgroups, map_map]
    refine map_congr_left fun g _ => congrArg frameOf ?_
    rw [flatMap_def]
  rw [hframes] at hpushed
  rw [pushedBatches]
  by_cases hcalls : tryBuildNtTableRowTsBatch t = []
  · have hrows : t.withRows = [] := by
      have hnone := contributions_calls t
      rw [hcalls] at hnone
      exact map_eq_nil_iff.mp hnone.symm
    rw [hcalls, hrows]
    rfl
  · rw [isEmpty_eq_false_iff.mpr hcalls]
    have hflatten := flatten_groups cfg.busBatchSize []
      ((groups cfg.perPvBatchSize [] t.withRows).map (frame t))
    rw [nil_append] at hflatten
    rw [← hflatten, flush_push]
    exact congrArg List.flatten hpushed

theorem pieces_nil {r : RowTimes} {c : String × PvField} (h : columnEvents r c = []) :
    (pieces r c).map Piece.column = [] := by
  rw [← columnEvents_columns, h, flatMap_nil]

theorem tableCells_withRows (data : String → Bool) (t : Table) :
    tableCells data t.time (pieces t.toRowTimes) t.columns =
      tableCells data t.time (pieces t.toRowTimes) t.withRows := by
  have hpieces : t.columns.flatMap (pieces t.toRowTimes) =
      t.withRows.flatMap (pieces t.toRowTimes) := by
    rw [Table.withRows]
    induction t.columns with
    | nil => rfl
    | cons c columns ih =>
      rw [flatMap_cons, filter_cons, ih]
      by_cases hevents : columnEvents t.toRowTimes c = []
      · rw [if_neg (by simp [hevents]), map_eq_nil_iff.mp (pieces_nil hevents), nil_append]
      · rw [if_pos (by simp [hevents]), flatMap_cons]
  rw [tableCells, tableCells, hpieces]

/-- **The frames of a table are as they should be exactly when every column fits.** -/
theorem table_sound_iff (cfg : TableConfig) (t : Table) (hrowCount : 0 < t.rowCount) :
    (∀ f ∈ (pushedBatches cfg (tryBuildNtTableRowTsBatch t)).flatten, Shaped f) ∧
        (pushedBatches cfg (tryBuildNtTableRowTsBatch t)).flatten.flatMap
            (frameCells (TableConfig.isData cfg)) =
          tableCells (TableConfig.isData cfg) t.time (pieces t.toRowTimes) t.columns ↔
      TableFits cfg t := by
  have hsound := frames_sound_iff (TableConfig.isData cfg) t.time (frame_columns t)
    (pieces_full t.toRowTimes) (groups cfg.perPvBatchSize [] t.withRows)
  have hflatten := flatten_groups cfg.perPvBatchSize [] t.withRows
  rw [nil_append] at hflatten
  rw [hflatten] at hsound
  rw [flatten_pushedBatches, tableCells_withRows, hsound]
  have hwithRows : ∀ c ∈ t.withRows, columnEvents t.toRowTimes c ≠ [] := by
    intro c hc
    simpa using (mem_filter.mp hc).2
  have hgroup : ∀ g ∈ groups cfg.perPvBatchSize [] t.withRows, ∀ c ∈ g,
      ((∀ p ∈ pieces t.toRowTimes c, p.Fits (TableConfig.isData cfg) t.time (frame t g).timestamps) ↔
        ColumnFits (TableConfig.isData cfg) t.toRowTimes c) := by
    intro g hg c hc
    obtain ⟨htimestamps, hrows⟩ := frame_timestamps t (ne_nil_of_mem_groups hg)
      fun c hc => hwithRows c (mem_of_mem_groups hg hc)
    rw [htimestamps]
    exact column_fits_iff (TableConfig.isData cfg) t.toRowTimes hrows c
  constructor
  · intro h c hc
    by_cases hevents : columnEvents t.toRowTimes c = []
    · refine (column_fits_iff (TableConfig.isData cfg) t.toRowTimes hrowCount c).mp ?_
      rw [map_eq_nil_iff.mp (pieces_nil hevents)]
      intro p hp
      cases hp
    · have hc' : c ∈ (groups cfg.perPvBatchSize [] t.withRows).flatten := by
        rw [hflatten]
        exact mem_filter.mpr ⟨hc, by simp [hevents]⟩
      obtain ⟨g, hg, hcg⟩ := mem_flatten.mp hc'
      exact (hgroup g hg c hcg).mp (h g hg c hcg)
  · intro h g hg c hc
    refine (hgroup g hg c hc).mpr (h c ?_)
    exact (mem_filter.mp (mem_of_mem_groups hg hc)).1

theorem findTable_rowCount {seconds nanos : String} {v : PvField} {t : Table}
    (h : findTable seconds nanos v = some t) : 0 < t.rowCount := by
  unfold findTable at h
  split at h
  · split at h
    · split at h
      · split at h
        · obtain ⟨hrows, h⟩ := Option.ite_none_left_eq_some.mp h
          rw [← Option.some.inj h]
          exact Nat.pos_of_ne_zero hrows
        · cases h
      · cases h
    · cases h
  · cases h

theorem framesOf_tableBatches (metadata : List (String × String)) (pvName : String)
    (batches : List (List (DataBatch Datum))) :
    framesOf (batches.map (tableBatch metadata pvName)) = batches.flatten := by
  rw [framesOf, flatMap_map]
  exact flatMap_id'

/-! ## 6. Every update -/

section Array

variable {getAsUInt64 : Scalar → Nat} {now : Nat} {metadata : List (String × String)}
  {pvName : String} {fields : List (String × PvField)} {a : ScalarArray}

/-- What is made of an array. -/
def arrayPiece (pvName : String) (a : ScalarArray) : Piece :=
  ⟨pvName, a.arrayValues, (Leaf.array a).entries, fun _ => 0⟩

/-- The frame of an array. -/
def arrayFrame (time : TimestampEntry) (pvName : String) (a : ScalarArray) : DataBatch Datum :=
  { appendArrayColumn emptyFrame pvName a with timestamps := [time] }

theorem framesOf_array (h : fields.lookup "value" = some (.scalarArray a)) :
    framesOf (processDefaultMode getAsUInt64 now metadata pvName fields) =
      [arrayFrame (updateTime getAsUInt64 now fields) pvName a] := by
  rw [processDefaultMode, h]
  rfl

theorem arrayPiece_fits_iff (time : TimestampEntry) (pvName : String) (a : ScalarArray) :
    (arrayPiece pvName a).Fits (fun _ => true) (fun _ => rowTime time) [time] ↔ ArrayFits a := by
  have hinRange : columnEntries a.arrayValues = (Leaf.array a).entries ↔ a.InRange :=
    leafEntries_eq_iff (.array a)
  constructor
  · intro h
    exact ⟨h.shaped, hinRange.mp (h.unchanged rfl)⟩
  · rintro ⟨hone, hrange⟩
    refine ⟨hone, fun _ => hinRange.mpr hrange, fun _ k ts hts => ?_⟩
    rw [mem_singleton.mp (mem_of_getElem? hts)]

theorem map_zipIdx {α β : Type} (f : α → β) (l : List α) (n : Nat) :
    ((l.zipIdx n).map fun x => f x.1) = l.map f := by
  induction l generalizing n with
  | nil => rfl
  | cons x l ih => rw [zipIdx_cons, map_cons, ih, map_cons]

theorem array_emitted_iff (h : fields.lookup "value" = some (.scalarArray a)) :
    ArrayEmitted getAsUInt64 now metadata pvName fields a ↔ ArrayFits a := by
  have hframes : framesOf (processDefaultMode getAsUInt64 now metadata pvName fields) =
      [arrayFrame (updateTime getAsUInt64 now fields) pvName a] := framesOf_array h
  have hfull : ∀ p ∈ [arrayPiece pvName a], p.Full := by
    intro p hp
    rw [mem_singleton.mp hp]
    exact length_leafEntries (.array a)
  have hcolumns : (arrayFrame (updateTime getAsUInt64 now fields) pvName a).columns =
      [arrayPiece pvName a].map Piece.column := rfl
  have hsound := frame_sound_iff (fun _ => true)
    (fun _ => rowTime (updateTime getAsUInt64 now fields)) hcolumns hfull
  have hpiece : Piece.Fits (fun _ => true) (fun _ => rowTime (updateTime getAsUInt64 now fields))
      (arrayFrame (updateTime getAsUInt64 now fields) pvName a).timestamps (arrayPiece pvName a) ↔
        ArrayFits a := arrayPiece_fits_iff _ pvName a
  have hcells : ([arrayPiece pvName a].filter fun _ => true).flatMap
      (Piece.cells fun _ => rowTime (updateTime getAsUInt64 now fields)) =
        (Leaf.array a).entries.map fun e =>
          ⟨pvName, some (rowTime (updateTime getAsUInt64 now fields)), e⟩ :=
    (append_nil _).trans (map_zipIdx
      (fun e => (⟨pvName, some (rowTime (updateTime getAsUInt64 now fields)), e⟩ : Cell)) _ 0)
  rw [hcells, forall_mem_singleton, hpiece] at hsound
  rw [← hsound]
  constructor
  · rintro ⟨hshaped, hcells⟩
    rw [hframes] at hshaped hcells
    exact ⟨hshaped _ mem_cons_self, (append_nil _).symm.trans hcells⟩
  · rintro ⟨hshaped, hcells⟩
    refine ⟨?_, ?_⟩
    · rw [hframes, forall_mem_singleton]
      exact hshaped
    · rw [hframes]
      exact (append_nil _).trans hcells

end Array

theorem table_emitted_iff (cfg : TableConfig) (metadata : List (String × String))
    (pvName : String) (epicsValue : PvField) :
    TableEmitted cfg metadata pvName epicsValue ↔
      ∀ t, findTable cfg.tsSecondsField cfg.tsNanosField epicsValue = some t → TableFits cfg t := by
  constructor
  · intro h t ht
    have hshaped := h.shaped
    have hcells := h.cells t ht
    simp only [processSlacBsasTableMode, ht, framesOf_tableBatches] at hshaped hcells
    exact (table_sound_iff cfg t (findTable_rowCount ht)).mp ⟨hshaped, hcells⟩
  · intro h
    cases ht : findTable cfg.tsSecondsField cfg.tsNanosField epicsValue with
    | none =>
      have hnone : framesOf (processSlacBsasTableMode cfg metadata pvName epicsValue) = [] := by
        simp only [processSlacBsasTableMode, ht]
        rfl
      refine ⟨fun _ => hnone, ?_, ?_⟩
      · rw [hnone]
        intro f hf
        cases hf
      · intro t ht'
        cases ht.symm.trans ht'
    | some t =>
      obtain ⟨hshaped, hcells⟩ := (table_sound_iff cfg t (findTable_rowCount ht)).mpr (h t ht)
      refine ⟨fun hnone => ?_, ?_, ?_⟩
      · cases ht.symm.trans hnone
      · simp only [processSlacBsasTableMode, ht, framesOf_tableBatches]
        exact hshaped
      · intro t' ht'
        obtain rfl := Option.some.inj (ht.symm.trans ht')
        simp only [processSlacBsasTableMode, ht, framesOf_tableBatches]
        exact hcells

/-- **A table is emitted as it should be exactly when all its data are at the time of row 0 and in
range; an array exactly when it is in range and does not have several strings or none.** The frame
of a table keeps the time of its first row for all of them (`table_not_emitted`). -/
theorem base_emitted_iff (cfg : TableConfig) (getAsUInt64 : Scalar → Nat) (now : Nat)
    (metadata : List (String × String)) (pvName : String) (epicsValue : PvField)
    {fields : List (String × PvField)} {a : ScalarArray}
    (hvalue : fields.lookup "value" = some (.scalarArray a)) :
    (TableEmitted cfg metadata pvName epicsValue ↔
        ∀ t, findTable cfg.tsSecondsField cfg.tsNanosField epicsValue = some t →
          TableFits cfg t) ∧
      (ArrayEmitted getAsUInt64 now metadata pvName fields a ↔ ArrayFits a) :=
  ⟨table_emitted_iff cfg metadata pvName epicsValue, array_emitted_iff hvalue⟩

/-- An array of 32-bit unsigned integers. -/
def uint32s (values : List UInt32) : PvField := .scalarArray (.int .uint32 (values.map .ofUInt32))

/-- An update with one column, whose rows are at `first` and `second`. -/
def twoRows (first second : UInt32) : PvField :=
  .struct [("value", .struct [("A", uint32s [1, 2])]), ("secondsPastEpoch", uint32s [first, second]),
    ("nanoseconds", uint32s [0, 0])]

/-- Both rows at 10 s, and an array of three integers. -/
theorem sameTime_emitted : TableEmitted { busBatchSize := 0 } [] "T" (twoRows 10 10) ∧
    ArrayEmitted (fun _ => 0) 7 [] "T" [("value", uint32s [1, 2, 3])]
      (.int .uint32 ([1, 2, 3].map .ofUInt32)) := by
  obtain ⟨htable, harray⟩ := base_emitted_iff { busBatchSize := 0 } (fun _ => 0) 7 [] "T"
    (twoRows 10 10) (show [("value", uint32s [1, 2, 3])].lookup "value" = some _ from rfl)
  refine ⟨htable.mpr fun t ht c hc => ?_, harray.mpr ⟨rfl, (stored_eq_iff _).mp rfl⟩⟩
  obtain rfl := Option.some.inj ht
  obtain rfl := mem_singleton.mp hc
  exact fun _ => ⟨(stored_eq_iff _).mp rfl, by decide⟩

/-- The fields of an update with an array of two strings. -/
def stringsUpdate : List (String × PvField) := [("value", .scalarArray (.string ["a", "b"]))]

/-- **Both rows come out at 10 s; two strings come out with one timestamp.** -/
theorem table_not_emitted :
    (framesOf (processSlacBsasTableMode { busBatchSize := 0 } [] "T" (twoRows 10 11))).flatMap
        (frameCells fun _ => true) =
      [⟨"A", some (10, 0), .scalar (.int 1)⟩, ⟨"A", some (10, 0), .scalar (.int 2)⟩] ∧
    ¬ TableEmitted { busBatchSize := 0 } [] "T" (twoRows 10 11) ∧
    ¬ ArrayEmitted (fun _ => 0) 7 [] "S" stringsUpdate (.string ["a", "b"]) := by
  refine ⟨by decide +kernel, fun h => ?_, fun h => ?_⟩
  · exact absurd (h.cells ⟨⟨[10, 11], [0, 0]⟩, [("A", uint32s [1, 2])]⟩ rfl) (by decide +kernel)
  · exact absurd h.shaped (by decide +kernel)

end MldpDriver.Reader.Base
