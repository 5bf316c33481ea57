/-
# A BSAS table from file to file

The reader sends the table of a file in chunks, and the tabular writer puts them together again.
-/
import MldpDriver.Reader.HDF5BsasGen1Reader
import MldpDriver.Reader.TableBatching
import MldpDriver.Writer.TabularTable

namespace MldpDriver.Reader.BsasGen1

open Bus Writer Lib.AppendTable Lib.Run List

variable {cfg : ReaderConfig} {lib : TabularHdf5 Datum} {mode : HDF5Mode} {path : String}
  {file : BsasFile}

/-! ## 1. The cells of a file, in frames and in datasets

`FramesGive` says that the frames give each cell of the table once, with its timestamp and in the
order of the rows; `StoresTable` that the writer's files have the table. -/

/-- The columns of frames, each with the timestamps of its frame. -/
def frameColumns (frames : List (DataBatch Datum)) :
    List (List TimestampEntry × DataColumn Datum) :=
  frames.flatMap fun frame => frame.columns.map fun c => (frame.timestamps, c)

/-- The samples that batches have of the column at a place, whichever frame it is in. -/
def emittedSamples (batches : List (EventBatch Datum)) (j : Nat) : List (Writer.Sample Datum) :=
  batches.flatMap fun b => ((frameColumns (framesOf [b]))[j]?).elim [] fun c =>
    samplesOf c.1 (suppliedValues c.2.values)

/-- The samples of a column of the file; a value in a row without timestamp has none. -/
def fileSamplesOf (file : BsasFile) (c : ColumnInfo) : List (Writer.Sample Datum) :=
  samplesOf file.timestamps (suppliedValues c.data.values)

/-- **The frames give each cell once, with its timestamp, in the order of the rows.**  A batch has
no frames, or it has the columns of the file. -/
structure FramesGive (file : BsasFile) (batches : List (EventBatch Datum)) : Prop where
  columns : ∀ b ∈ batches, framesOf [b] = [] ∨
    (frameColumns (framesOf [b])).map (·.2.name) = file.columns.map (·.name)
  cells : ∀ j c, file.columns[j]? = some c → emittedSamples batches j = fileSamplesOf file c

/-- The table of a file, as datasets of the writer; the columns have the names that the reader gives
them. -/
def BsasFile.table (lib : TabularHdf5 Datum) (file : BsasFile) :
    List (Chunk String FieldType (TabularCell Datum)) :=
  [⟨"secondsPastEpoch", .int64, file.secondsPastEpoch.map fun s => ⟨lib.int64 s.toNat, none⟩⟩,
    ⟨"nanoseconds", .int64, file.nanoseconds.map fun n => ⟨lib.int64 n.toNat, none⟩⟩] ++
  file.columns.map fun c => ⟨c.name, columnType c.column,
    cellsOf lib (columnType c.column) file.timestamps (scalarValues c.data.values)⟩

/-- **The files of the writer have the table**: each dataset under its name, and under a name just
what the table has under it. -/
structure StoresTable (lib : TabularHdf5 Datum) (source : String) (file : BsasFile)
    (w : TabularWriter Datum) : Prop where
  own : ∀ c ∈ file.table lib, fileRows w.files source c.key = c.rows
  all : ∀ name, fileRows w.files source name = chunkRows name (file.table lib)

/-- All datasets have as many rows, there is a column if there are rows, and the names of the
columns are different from each other and from the names of the timestamps. -/
structure Regular (file : BsasFile) : Prop where
  nanoseconds : file.nanoseconds.length = file.totalRows
  columns : ∀ c ∈ file.columns, c.data.rowCount = file.totalRows
  some : file.totalRows = 0 ∨ file.columns ≠ []
  distinct : (file.columns.map (·.name)).Nodup
  named : ∀ c ∈ file.columns, plainName c.name = true ∧ c.name ∉ timeNames

/-! ## 2. The rows of a chunk -/

section Chunk

variable {k n : Nat}

/-- The names of the columns are different from each other and from those of the timestamps. -/
structure Named (file : BsasFile) : Prop where
  distinct : (file.columns.map (·.name)).Nodup
  notTimes : ∀ c ∈ file.columns, c.name ∉ timeNames

theorem columns_keys (lib : TabularHdf5 Datum) (file : BsasFile) :
    (file.table lib).map (·.key) = timeNames ++ file.columns.map (·.name) := by
  simp [BsasFile.table, timeNames, Function.comp_def]

theorem Named.keys (h : Named file) : ((file.table lib).map (·.key)).Nodup := by
  rw [columns_keys, List.nodup_append]
  refine ⟨by decide, h.distinct, fun a ha b hb hab => ?_⟩
  obtain ⟨c, hc, rfl⟩ := mem_map.mp hb
  exact h.notTimes c hc (hab ▸ ha)

theorem columnType_slice (c : DataColumn Datum) : columnType (sliceColumn k n c) = columnType c := by
  obtain ⟨name, values, metadata⟩ := c
  cases values with
  | scalar kind values => cases kind <;> rfl
  | bytes values => rfl
  | array kind values => rfl

theorem scalarValues_slice (c : DataColumn Datum) : scalarValues (sliceColumn k n c).values =
    ((scalarValues c.values).drop k).take n := by
  obtain ⟨name, values, metadata⟩ := c
  cases values <;> simp [sliceColumn, sliceValues, scalarValues]

theorem suppliedValues_slice (c : DataColumn Datum) : suppliedValues (sliceColumn k n c).values =
    ((suppliedValues c.values).drop k).take n := by
  obtain ⟨name, values, metadata⟩ := c
  cases values <;> simp [sliceColumn, sliceValues, suppliedValues, map_drop]

theorem length_scalarValues (c : ColumnInfo) :
    (scalarValues c.column.values).length = c.data.rowCount := by
  obtain ⟨name, metadata, data⟩ := c
  cases data <;> simp [ColumnInfo.column, ColumnData.values, scalarValues, ColumnData.rowCount]

theorem fieldType_column (c : ColumnInfo) : fieldType (sliceColumn k n c.column).values ≠ none := by
  obtain ⟨name, metadata, data⟩ := c
  cases data <;> simp [sliceColumn, ColumnInfo.column, ColumnData.values, sliceValues, fieldType]

theorem normalizeColumnName_ne_nil (candidate fallback : List UInt8) :
    normalizeColumnName candidate fallback ≠ [] := by
  have hname : ∀ name : List UInt8, (if name.isEmpty then unnamedColumn else name) ≠ [] := by
    intro name
    cases name with
    | nil => decide
    | cons ch name => exact cons_ne_nil ch name
  exact hname _

theorem dataset_of_column {c : ColumnInfo} (hc : c ∈ file.columns) :
    c.data.rowCount ≠ 0 ∧
      ∃ ds ∈ file.datasets, c.name = nameOf (normalizeColumnName ds.name ds.name) := by
  have hfound : c ∈ file.datasets.filterMap columnOf := by
    rcases mem_append.mp hc with hc | hc <;> exact (mem_filter.mp hc).1
  obtain ⟨ds, hmem, hds⟩ := mem_filterMap.mp hfound
  simp only [columnOf, Option.bind_eq_some_iff] at hds
  obtain ⟨data, -, hdata⟩ := hds
  split at hdata
  · cases hdata
  · next hrows =>
    obtain rfl := Option.some.inj hdata
    exact ⟨hrows, ds, hmem, rfl⟩

theorem column_name_ne {c : ColumnInfo} (hc : c ∈ file.columns) : c.name ≠ "" := by
  obtain ⟨-, ds, -, hname⟩ := dataset_of_column hc
  intro hempty
  rw [hname, nameOf, String.ofList_eq_empty_iff] at hempty
  exact normalizeColumnName_ne_nil _ _ (map_eq_nil_iff.mp hempty)

theorem length_chunk (h : Inside file k n) : (file.chunk k n).1.length = n := by
  have hs := h.seconds
  have hn := h.nanoseconds
  simp only [BsasFile.chunk, BsasFile.timestamps, List.length_take, length_drop,
    length_zipWith]
  omega

/-- **A chunk is a round.** -/
theorem chunk_round (hnames : Named file) (hn : 0 < n) (h : Inside file k n) :
    RoundOf (file.chunk k n).1 (file.chunk k n).2 := by
  have hlength := length_chunk h
  refine ⟨fun hnil => ?_, fun d hd => ?_, ?_, fun d hd => ?_, fun d hd => ?_⟩
  · rw [hnil] at hlength
    exact Nat.ne_of_lt hn hlength
  · obtain ⟨c, hc, rfl⟩ := mem_map.mp hd
    exact ⟨column_name_ne hc, hnames.notTimes c hc⟩
  · have hmap : (file.chunk k n).2.map (·.name) = file.columns.map (·.name) := by
      simp [BsasFile.chunk, sliceColumn, ColumnInfo.column, Function.comp_def]
    rw [hmap]
    exact hnames.distinct
  · obtain ⟨c, hc, rfl⟩ := mem_map.mp hd
    exact fieldType_column c
  · obtain ⟨c, hc, rfl⟩ := mem_map.mp hd
    have hrows := h.columns c hc
    rw [hlength, scalarValues_slice, List.length_take, length_drop, length_scalarValues]
    omega

theorem map_chunk_times {α : Type} (f : Nat → α) (h : Inside file k n) :
    (file.chunk k n).1.map (fun ts => f ts.epochSeconds) =
        ((file.secondsPastEpoch.map fun s => f s.toNat).drop k).take n ∧
      (file.chunk k n).1.map (fun ts => f ts.nanoseconds) =
        ((file.nanoseconds.map fun s => f s.toNat).drop k).take n := by
  have hs := h.seconds
  have hn := h.nanoseconds
  constructor
  · refine ext_getElem (by simp [BsasFile.chunk, BsasFile.timestamps]; omega) fun i hi hi' => ?_
    simp [BsasFile.chunk, BsasFile.timestamps]
  · refine ext_getElem (by simp [BsasFile.chunk, BsasFile.timestamps]; omega) fun i hi hi' => ?_
    simp [BsasFile.chunk, BsasFile.timestamps]

theorem bmod_toNat (x : UInt32) : ((x.toNat : Int)).bmod (2 ^ 64) = x.toNat := by
  have hx := x.toNat_lt
  rw [Int.bmod_def]
  omega

/-- **A chunk is a slice of the table.** -/
theorem chunk_slice (h : Inside file k n) :
    batchChunks lib (file.chunk k n).1 (file.chunk k n).2 =
      (file.table lib).map (sliceChunk k n) := by
  obtain ⟨hseconds, hnanos⟩ := map_chunk_times (fun x => (⟨lib.int64 ((x : Int).bmod (2 ^ 64)), none⟩ :
    TabularCell Datum)) h
  simp only [bmod_toNat] at hseconds hnanos
  have hcolumns : (file.chunk k n).2.map (fun c => (⟨c.name, columnType c, cellsOf lib (columnType c)
      (file.chunk k n).1 (scalarValues c.values)⟩ : Chunk String FieldType (TabularCell Datum))) =
      (file.columns.map fun c => ⟨c.name, columnType c.column,
        cellsOf lib (columnType c.column) file.timestamps (scalarValues c.data.values)⟩).map
        (sliceChunk k n) := by
    rw [BsasFile.chunk, map_map, map_map]
    refine map_congr_left fun c _ => ?_
    simp only [Function.comp_apply, columnType_slice, scalarValues_slice, cellsOf_slice, sliceChunk]
    rfl
  rw [batchChunks, secondsChunk, nanosecondsChunk, hseconds, hnanos, hcolumns, BsasFile.table,
    map_append]
  rfl

end Chunk

/-! ## 3. The chunks are fed to the writer -/

/-- The buffer's columns for the columns of a file. -/
def BsasFile.schema (file : BsasFile) : List (TabularColumn Datum) :=
  file.columns.map fun c => emptyColumn c.column

section Feed

variable {k stop : Nat} {chunks : List RowChunk} {w : TabularWriter Datum}
  {actions : List (TabularAction Datum)}

theorem framesOf_emit (chunk : RowChunk) :
    ∃ data marker, emitChunk cfg path chunk = [data, marker] ∧
      framesOf [data] = buildFrames cfg.columnsPerFrame chunk ∧ framesOf [marker] = [] :=
  ⟨_, _, rfl, append_nil _, rfl⟩

theorem feeds_chunk {chunk : RowChunk} {batches : List (EventBatch Datum)}
    (h : Feeds (emitChunk cfg path chunk ++ batches) actions) :
    ∃ (dues : List Bool) (due : Bool) (rest : List (TabularAction Datum)),
      dues.length = (buildFrames cfg.columnsPerFrame chunk).length ∧ Feeds batches rest ∧
      actions = ((.batch cfg.name (buildFrames cfg.columnsPerFrame chunk) :: dues.map .frame) ++
        [.endOfBatch cfg.name [] due]) ++ rest := by
  cases h with
  | batch hdata hdues hrest =>
    cases hrest with
    | batch hdata => exact absurd hdata.symm Bool.false_ne_true
    | marker hend due hrest =>
      refine ⟨_, due, _, hdues, hrest, ?_⟩
      rw [append_assoc]
      rfl
  | marker hend => exact absurd hend Bool.false_ne_true

theorem stored_chunk (h : Stored cfg.name (file.table lib) file.schema k w) (hnames : Named file)
    (hcolumns : file.columns ≠ []) {n : Nat} (hn : 0 < n) (hinside : Inside file k n)
    {dues : List Bool} (due : Bool)
    (hdues : dues.length = (buildFrames cfg.columnsPerFrame (file.chunk k n)).length) :
    ∃ w', Stored cfg.name (file.table lib) file.schema (k + n) w' ∧
      exec (TabularWriter.step lib mode) anyStep w
        ((.batch cfg.name (buildFrames cfg.columnsPerFrame (file.chunk k n)) ::
          dues.map .frame) ++ [.endOfBatch cfg.name [] due]) =
        if plainName cfg.name && file.columns.all fun c => plainName c.name then some w'
        else none := by
  obtain ⟨hframes, hts⟩ := buildFrames_columns cfg.columnsPerFrame_pos (file.chunk k n)
  have hschema : (file.chunk k n).2.map emptyColumn = file.schema := by
    rw [BsasFile.chunk, BsasFile.schema, map_map]
    refine map_congr_left fun c _ => ?_
    rw [Function.comp_apply, emptyColumn, columnType_slice]
    rfl
  have hne : (file.chunk k n).2 ≠ [] := fun hnil => hcolumns (map_eq_nil_iff.mp hnil)
  have hplain : ((file.chunk k n).2.all fun c => plainName c.name) =
      file.columns.all fun c => plainName c.name := by
    rw [BsasFile.chunk, all_map]
    rfl
  have hlength := length_chunk hinside
  have hslice : batchChunks lib (file.chunk k n).1 (file.chunk k n).2 =
      (file.table lib).map (sliceChunk k (file.chunk k n).1.length) := by
    rw [hlength]
    exact chunk_slice hinside
  obtain ⟨w', hstored, hexec⟩ := @Stored.round _ lib mode _ _ _ _ _ _ _ h
    (chunk_round hnames hn hinside) hne hschema hnames.keys hslice _ hframes hts _ hdues due
  rw [hlength] at hstored
  rw [hplain] at hexec
  exact ⟨w', hstored, hexec⟩

/-- **The writer has the rows of the chunks that it was fed**, and with names that HDF5 takes as
they are it takes all of them. -/
theorem stored_chunks (hchunks : Chunks file k chunks stop)
    (h : Stored cfg.name (file.table lib) file.schema k w) (hnames : Named file)
    (hcolumns : file.columns ≠ [])
    (hfeed : Feeds (chunks.flatMap (emitChunk cfg path)) actions) :
    (∀ w', exec (TabularWriter.step lib mode) anyStep w actions = some w' →
      Stored cfg.name (file.table lib) file.schema stop w' ∧
        (chunks = [] ∨ ∀ c ∈ file.columns, plainName c.name = true)) ∧
      (plainName cfg.name = true → (∀ c ∈ file.columns, plainName c.name = true) →
        ∃ w', exec (TabularWriter.step lib mode) anyStep w actions = some w') := by
  induction hchunks generalizing w actions with
  | nil k =>
    cases hfeed with
    | nil =>
      refine ⟨fun w' hw' => ?_, fun _ _ => ⟨w, rfl⟩⟩
      obtain rfl := Option.some.inj hw'
      exact ⟨h, .inl rfl⟩
  | cons hn hinside hrest ih =>
    rw [flatMap_cons] at hfeed
    obtain ⟨dues, due, rest, hdues, hfeedRest, rfl⟩ := feeds_chunk hfeed
    obtain ⟨w₁, hstored, hexec⟩ := stored_chunk h hnames hcolumns hn hinside due hdues
    rw [exec_append, hexec]
    cases hplain : plainName cfg.name && file.columns.all fun c => plainName c.name with
    | true =>
      rw [if_pos rfl, Option.bind_some]
      have hall : ∀ c ∈ file.columns, plainName c.name = true :=
        all_eq_true.mp (Bool.and_eq_true_iff.mp hplain).2
      obtain ⟨hreached, htotal⟩ := ih hstored hfeedRest
      exact ⟨fun w' hw' => ⟨(hreached w' hw').1, .inr hall⟩, htotal⟩
    | false =>
      refine ⟨fun w' hw' => ?_, fun hsource hall => ?_⟩
      · cases hw'
      · rw [hsource, all_eq_true.mpr hall] at hplain
        cases hplain

end Feed

/-! ## 4. The frames -/

section Frames

variable {k stop : Nat} {chunks : List RowChunk}

theorem Chunks.le (h : Chunks file k chunks stop) : k ≤ stop := by
  induction h with
  | nil k => exact Nat.le_refl k
  | cons hn _ _ ih => omega

theorem Chunks.of_nil (h : Chunks file k [] stop) : stop = k := by
  cases h
  rfl

theorem Chunks.mem (h : Chunks file k chunks stop) {chunk : RowChunk} (hchunk : chunk ∈ chunks) :
    ∃ k n, chunk = file.chunk k n := by
  induction h with
  | nil k => cases hchunk
  | cons hn _ _ ih =>
    rcases mem_cons.mp hchunk with rfl | hchunk
    · exact ⟨_, _, rfl⟩
    · exact ih hchunk

theorem Chunks.inside (h : Chunks file k chunks stop) (hstart : Inside file k 0) :
    Inside file stop 0 := by
  induction h with
  | nil k => exact hstart
  | cons hn hinside _ ih => exact ih ⟨hinside.seconds, hinside.nanoseconds, hinside.columns⟩

theorem frameColumns_build {n : Nat} (cfg : ReaderConfig) (file : BsasFile) :
    frameColumns (buildFrames cfg.columnsPerFrame (file.chunk k n)) =
      file.columns.map fun c => ((file.chunk k n).1, sliceColumn k n c.column) := by
  obtain ⟨hframes, hts⟩ := buildFrames_columns cfg.columnsPerFrame_pos (file.chunk k n)
  have hmap : frameColumns (buildFrames cfg.columnsPerFrame (file.chunk k n)) =
      ((buildFrames cfg.columnsPerFrame (file.chunk k n)).flatMap (·.columns)).map fun c =>
        ((file.chunk k n).1, c) := by
    rw [frameColumns, map_flatMap]
    exact flatMap_congr fun frame hframe => by rw [hts frame hframe]
  rw [hmap, hframes, BsasFile.chunk, map_map]
  rfl

/-- **The samples of a column in the chunks** are those of its rows. -/
theorem emitted_chunks (hchunks : Chunks file k chunks stop) {j : Nat} {c : ColumnInfo}
    (hj : file.columns[j]? = some c) :
    emittedSamples (chunks.flatMap (emitChunk cfg path)) j =
      ((fileSamplesOf file c).drop k).take (stop - k) := by
  induction hchunks with
  | nil k =>
    rw [Nat.sub_self, take_zero]
    rfl
  | @cons k n stop chunks hn hinside hrest ih =>
    obtain ⟨data, marker, hemit, hdata, hmarker⟩ := @framesOf_emit cfg path (file.chunk k n)
    have hle : k + n ≤ stop := hrest.le
    have hfirst : ((frameColumns (framesOf [data]))[j]?).elim [] (fun c =>
        samplesOf c.1 (suppliedValues c.2.values)) = ((fileSamplesOf file c).drop k).take n := by
      rw [hdata, frameColumns_build, List.getElem?_map, hj]
      simp only [Option.map_some, Option.elim_some, suppliedValues_slice, BsasFile.chunk,
        samplesOf_slice]
      rfl
    have hlast : ((frameColumns (framesOf [marker]))[j]?).elim [] (fun c =>
        samplesOf c.1 (suppliedValues c.2.values)) = [] := by
      rw [hmarker]
      rfl
    rw [emittedSamples] at ih ⊢
    rw [flatMap_cons, hemit, flatMap_append, ih, flatMap_cons, flatMap_cons,
      flatMap_nil, hfirst, hlast]
    have hstop : stop - k = n + (stop - (k + n)) := by omega
    rw [hstop, take_add, drop_drop, append_nil, append_nil]

end Frames

/-! ## 5. Which tables are stored -/

section Iff

variable {stop : Nat} {chunks : List RowChunk} {w : TabularWriter Datum}
  {actions : List (TabularAction Datum)}

theorem Regular.toNamed (h : Regular file) : Named file :=
  ⟨h.distinct, fun c hc => (h.named c hc).2⟩

theorem length_cells (lib : TabularHdf5 Datum) (file : BsasFile) (c : ColumnInfo) :
    (cellsOf lib (columnType c.column) file.timestamps (scalarValues c.data.values)).length =
      c.data.rowCount := by
  rw [cellsOf, length_map, length_zipIdx]
  exact length_scalarValues c

theorem StoresTable.named (h : StoresTable lib cfg.name file w) : Named file := by
  have hrows : ∀ c ∈ file.table lib, chunkRows c.key (file.table lib) = c.rows :=
    fun c hc => (h.all c.key).symm.trans (h.own c hc)
  have hpairs := pairwise_of_chunkRows hrows
  rw [BsasFile.table, pairwise_append] at hpairs
  obtain ⟨-, hcolumns, htimes⟩ := hpairs
  have hne : ∀ c ∈ file.columns, cellsOf lib (columnType c.column) file.timestamps
      (scalarValues c.data.values) ≠ [] := by
    intro c hc hnil
    have hlength := length_cells lib file c
    rw [hnil] at hlength
    exact (dataset_of_column hc).1 hlength.symm
  refine ⟨?_, fun c hc hname => ?_⟩
  · rw [pairwise_map] at hcolumns
    refine pairwise_map.mpr (List.Pairwise.imp_of_mem ?_ hcolumns)
    intro c d _ hd hkey hname
    exact hne d hd (hkey hname)
  · have hmem := mem_map_of_mem (f := fun c : ColumnInfo =>
      (⟨c.name, columnType c.column, cellsOf lib (columnType c.column) file.timestamps
        (scalarValues c.data.values)⟩ : Chunk String FieldType (TabularCell Datum))) hc
    rcases mem_cons.mp hname with hname | hname
    · exact hne c hc (htimes _ mem_cons_self _ hmem hname.symm)
    · exact hne c hc (htimes _ (mem_cons_of_mem _ mem_cons_self) _ hmem
        (mem_singleton.mp hname).symm)

theorem Regular.stores (h : Regular file)
    (hrows : HasRows cfg.name (file.table lib) file.totalRows w.files) :
    StoresTable lib cfg.name file w := by
  have hlength : ∀ c ∈ file.table lib, c.rows.length = file.totalRows := by
    intro c hc
    rcases mem_append.mp hc with hc | hc
    · rcases mem_cons.mp hc with rfl | hc
      · exact length_map _
      · rw [mem_singleton.mp hc]
        exact (length_map _).trans h.nanoseconds
    · obtain ⟨d, hd, rfl⟩ := mem_map.mp hc
      exact (length_cells lib file d).trans (h.columns d hd)
  have hown : ∀ c ∈ file.table lib, fileRows w.files cfg.name c.key = c.rows := by
    intro c hc
    rw [hrows.rows c hc, ← hlength c hc, take_length]
  refine ⟨hown, fun name => ?_⟩
  by_cases hname : ∃ c ∈ file.table lib, c.key = name
  · obtain ⟨c, hc, rfl⟩ := hname
    rw [hown c hc, chunkRows_of_mem h.toNamed.keys hc]
  · have hnone : ∀ c ∈ file.table lib, c.key ≠ name := fun c hc hkey => hname ⟨c, hc, hkey⟩
    rw [hrows.others name hnone, chunkRows_of_not_mem hnone]

theorem Regular.framesGive (h : Regular file) (hchunks : Chunks file 0 chunks file.totalRows) :
    FramesGive file (chunks.flatMap (emitChunk cfg path)) where
  columns b hb := by
    obtain ⟨chunk, hchunk, hb⟩ := mem_flatMap.mp hb
    obtain ⟨k, n, rfl⟩ := hchunks.mem hchunk
    obtain ⟨data, marker, hemit, hdata, hmarker⟩ := @framesOf_emit cfg path (file.chunk k n)
    rw [hemit] at hb
    rcases mem_cons.mp hb with rfl | hb
    · right
      rw [hdata, frameColumns_build, map_map]
      rfl
    · rw [mem_singleton.mp hb]
      exact .inl hmarker
  cells j c hj := by
    have hlength : (fileSamplesOf file c).length = file.totalRows := by
      have hvalues : (suppliedValues c.data.values).length = c.data.rowCount := by
        cases c.data <;> simp [ColumnData.values, suppliedValues, ColumnData.rowCount]
      rw [fileSamplesOf, samplesOf, length_map, length_zipIdx, hvalues]
      exact h.columns c (mem_of_getElem? hj)
    rw [emitted_chunks hchunks hj, drop_zero, Nat.sub_zero, ← hlength, take_length]

theorem exec_noColumns {k : Nat} {w' : TabularWriter Datum} (hchunks : Chunks file k chunks stop)
    (hcolumns : file.columns = [])
    (hfeed : Feeds (chunks.flatMap (emitChunk cfg path)) actions)
    (hidle : w.work = [] ∧ w.stopped = false) (hrows : (w.tabularBuffers cfg.name).rowCount = 0)
    (hexec : exec (TabularWriter.step lib mode) anyStep w actions = some w') :
    w'.files = w.files := by
  induction hchunks generalizing w actions with
  | nil k =>
    cases hfeed with
    | nil => rw [← Option.some.inj hexec]
  | @cons k n stop chunks hn hinside hrest ih =>
    rw [flatMap_cons] at hfeed
    obtain ⟨dues, due, rest, hdues, hfeedRest, rfl⟩ := feeds_chunk hfeed
    have hframes : buildFrames cfg.columnsPerFrame (file.chunk k n) = [] := by
      rw [buildFrames_eq cfg.columnsPerFrame_pos, BsasFile.chunk, hcolumns]
      rfl
    rw [hframes] at hdues hexec
    obtain rfl := length_eq_zero_iff.mp hdues
    obtain ⟨files, tabularBuffers, work, supplied, stopped⟩ := w
    obtain ⟨rfl, rfl⟩ : work = [] ∧ stopped = false := hidle
    have hrows : (tabularBuffers cfg.name).rowCount = 0 := hrows
    have hbatch : TabularWriter.step lib mode ⟨files, tabularBuffers, [], supplied, false⟩
        (.batch cfg.name []) = some ⟨files, tabularBuffers, [], supplied, false⟩ := by
      simp [TabularWriter.step]
    have hmarker : TabularWriter.step lib mode ⟨files, tabularBuffers, [], supplied, false⟩
        (.endOfBatch cfg.name [] due) = some ⟨files, tabularBuffers, [], supplied, false⟩ := by
      simp [TabularWriter.step, hrows]
    rw [exec_append, map_nil, singleton_append, exec_cons hbatch,
      exec_cons hmarker] at hexec
    exact @ih ⟨files, tabularBuffers, [], supplied, false⟩ rest hfeedRest ⟨rfl, rfl⟩ hrows hexec

/-- **The frames give each cell once and the writer's files have the table exactly when the table
is regular**: its columns all have as many rows as both timestamp datasets, and names that are
still different after they were normalized.  `table_not_stored` has a table for each way to fail.
-/
theorem table_stored_iff (cfg : ReaderConfig) (hsource : plainName cfg.name = true)
    (lib : TabularHdf5 Datum) (mode : HDF5Mode) (path : String) (file : BsasFile)
    {actions : List (TabularAction Datum)} (hfeed : Feeds (readFile cfg path file) actions) :
    (FramesGive file (readFile cfg path file) ∧
        ∃ w, exec (TabularWriter.step lib mode) anyStep {} actions = some w ∧
          StoresTable lib cfg.name file w) ↔ Regular file := by
  obtain ⟨stop, hchunks, hstop⟩ := @readChunks_chunks file _ cfg.chunkSize_pos _ _
    (Nat.zero_le file.totalRows) (Nat.le_refl _)
  have hle : stop ≤ file.totalRows := by
    rcases hstop with rfl | ⟨n, hn, -⟩
    · exact Nat.le_refl _
    · omega
  constructor
  · rintro ⟨-, w, hexec, hstores⟩
    have hseconds := congrArg List.length (hstores.own _ mem_cons_self)
    have hnanos := congrArg List.length
      (hstores.own _ (mem_cons_of_mem _ mem_cons_self))
    rw [length_map] at hseconds hnanos
    by_cases hcolumns : file.columns = []
    · have hfiles := exec_noColumns hchunks hcolumns hfeed ⟨rfl, rfl⟩ rfl hexec
      rw [hfiles] at hseconds hnanos
      have hnone : ∀ c ∈ file.columns, False := fun c hc => by
        rw [hcolumns] at hc
        cases hc
      refine ⟨hnanos.symm.trans hseconds, fun c hc => (hnone c hc).elim, .inl hseconds.symm, ?_,
        fun c hc => (hnone c hc).elim⟩
      rw [hcolumns]
      exact nodup_nil
    · have hnames := hstores.named
      obtain ⟨hstored, hplain⟩ :=
        (stored_chunks hchunks (stored_empty hnames.keys file.schema) hnames hcolumns hfeed).1 w
          hexec
      have hrows : ∀ c ∈ file.table lib, c.rows.length ≤ stop := by
        intro c hc
        have htake := (hstored.files.rows c hc).symm.trans (hstores.own c hc)
        rw [← htake, List.length_take]
        exact Nat.min_le_left _ _
      have hlast : stop = file.totalRows := by
        have hall := hrows _ mem_cons_self
        rw [length_map] at hall
        exact Nat.le_antisymm hle hall
      subst hlast
      have hinside := hchunks.inside ⟨Nat.zero_le _, Nat.zero_le _, fun _ _ => Nat.zero_le _⟩
      refine ⟨Nat.le_antisymm ?_ hinside.nanoseconds, fun c hc => Nat.le_antisymm ?_ ?_,
        .inr hcolumns, hnames.distinct, fun c hc => ⟨?_, hnames.notTimes c hc⟩⟩
      · have hall := hrows _ (mem_cons_of_mem _ mem_cons_self)
        rwa [length_map] at hall
      · rw [← length_cells lib file c]
        exact hrows _ (mem_append_right _ (mem_map_of_mem hc))
      · exact hinside.columns c hc
      · rcases hplain with hnil | hplain
        · -- no chunk, so no row, but the column has one
          have hzero : file.totalRows = 0 := (hnil ▸ hchunks).of_nil
          have hcells := hrows _ (mem_append_right _ (mem_map_of_mem hc))
          rw [length_cells lib file c, hzero] at hcells
          exact absurd (Nat.le_zero.mp hcells) (dataset_of_column hc).1
        · exact hplain c hc
  · intro hregular
    have hnames := hregular.toNamed
    have hlast : stop = file.totalRows := by
      rcases hstop with rfl | ⟨n, hn, hout⟩
      · rfl
      · refine absurd ⟨hn, hregular.nanoseconds ▸ hn, fun c hc => ?_⟩ hout
        exact hregular.columns c hc ▸ hn
    subst hlast
    refine ⟨hregular.framesGive hchunks, ?_⟩
    have hempty := @stored_empty _ cfg.name _ (@Named.keys lib file hnames) file.schema
    by_cases hcolumns : file.columns = []
    · -- no columns, so no rows
      have hzero : file.totalRows = 0 := hregular.some.resolve_right fun hne => hne hcolumns
      have hnone : readFile cfg path file = [] := by
        rw [readFile, hzero]
        rfl
      rw [hnone] at hfeed
      cases hfeed with
      | nil => exact ⟨{}, rfl, hregular.stores (hzero ▸ hempty.files)⟩
    · obtain ⟨hreached, htotal⟩ :=
        @stored_chunks cfg lib mode path file _ _ _ _ _ hchunks hempty hnames hcolumns hfeed
      obtain ⟨w, hexec⟩ := htotal hsource fun c hc => (hregular.named c hc).1
      exact ⟨w, hexec, hregular.stores (hreached w hexec).1.files⟩

end Iff

/-! ## 6. Examples -/

theorem feeds_readFile (cfg : ReaderConfig) (path : String) (file : BsasFile) :
    ∃ actions, Feeds (readFile cfg path file) actions := by
  rw [readFile]
  induction readChunks cfg.chunkSize file file.totalRows 0 with
  | nil => exact ⟨[], .nil⟩
  | cons chunk chunks ih =>
    obtain ⟨actions, hfeed⟩ := ih
    exact ⟨_, .batch rfl (length_replicate : (List.replicate _ false).length = _)
      (.marker rfl false hfeed)⟩

/-- A library that keeps each value and has no dataset of another type. -/
def plainLib : TabularHdf5 Datum := ⟨.int, id, fun _ => .int 0, fun d _ => (d, false)⟩

theorem bsas_ne : "bsas" ≠ "" := by decide

/-- A reader with small chunks. -/
def sampleReader : ReaderConfig :=
  { name := "bsas", nonempty := bsas_ne, chunkSize := 2, chunkSize_pos := Nat.two_pos
    columnsPerFrame_pos := Nat.one_pos }

/-- A table of three rows. -/
def sampleFile : BsasFile :=
  { secondsPastEpoch := [10, 11, 12]
    nanoseconds := [0, 0, 0]
    datasets := [⟨[0x62], [], some (.int16 [1, 2, 3])⟩, ⟨[0x61], [], some (.float64 [4, 5, 6])⟩] }

/-- Three rows are read in two chunks and stand in the datasets as one table. -/
theorem sampleFile_stored : ∃ actions, Feeds (readFile sampleReader "t.h5" sampleFile) actions ∧
    FramesGive sampleFile (readFile sampleReader "t.h5" sampleFile) ∧
      ∃ w, exec (TabularWriter.step plainLib .merge) anyStep {} actions = some w ∧
        StoresTable plainLib "bsas" sampleFile w := by
  obtain ⟨actions, hfeed⟩ := feeds_readFile sampleReader "t.h5" sampleFile
  refine ⟨actions, hfeed, (table_stored_iff sampleReader (by decide) plainLib .merge "t.h5"
    sampleFile hfeed).mpr ⟨rfl, by decide, .inr (by decide), by decide, by decide⟩⟩

/-- A table whose second column has two rows only. -/
def raggedFile : BsasFile :=
  { sampleFile with
    datasets := [⟨[0x61], [], some (.float64 [4, 5, 6])⟩, ⟨[0x62], [], some (.int16 [1, 2])⟩] }

/-- A table of two columns whose names are normalized to the same. -/
def mergedFile : BsasFile :=
  { secondsPastEpoch := [10]
    nanoseconds := [0]
    datasets :=
      [⟨[0x61, 0x01], [], some (.float64 [4])⟩, ⟨[0x61, 0x5F], [], some (.float64 [5])⟩] }

/-- **Not every table comes through**: the third row of the first column is not in a frame when the
second column has no such row, and of two columns with one name just one can be stored. -/
theorem table_not_stored :
    ¬ FramesGive raggedFile (readFile sampleReader "t.h5" raggedFile) ∧
      (∃ actions, Feeds (readFile sampleReader "t.h5" mergedFile) actions) ∧
      ∀ actions, Feeds (readFile sampleReader "t.h5" mergedFile) actions →
        ¬ ∃ w, exec (TabularWriter.step plainLib .merge) anyStep {} actions = some w ∧
          StoresTable plainLib "bsas" mergedFile w := by
  refine ⟨fun hgive => ?_, feeds_readFile _ _ _, fun actions _ => ?_⟩
  · have hcells := hgive.cells 0 _ rfl
    revert hcells
    decide
  · rintro ⟨w, -, hstores⟩
    have hfirst := hstores.own ((mergedFile.table plainLib).get ⟨2, by decide⟩) (get_mem _ _)
    have hsecond := hstores.own ((mergedFile.table plainLib).get ⟨3, by decide⟩) (get_mem _ _)
    have hrows := hfirst.symm.trans hsecond
    revert hrows
    decide

end MldpDriver.Reader.BsasGen1
