/-
# A table that arrives in rounds

A reader sends a table in rounds: for some of its rows the frames with all of its columns, and then
an end-of-batch marker.  `Stored.round` says that the files have these rows then, too: in each
dataset the next rows of the table, in whatever way the columns are divided into frames and
whichever files are rotated.  -/
import MldpDriver.Writer.TabularRounds

namespace MldpDriver.Writer

open Bus Lib.AppendTable Lib.Run List

variable {V : Type} {lib : TabularHdf5 V} {mode : HDF5Mode} {source : String}

/-! ## 1. The columns of a round -/

/-- The type of the dataset for a column. -/
def columnType (c : DataColumn V) : FieldType := (fieldType c.values).getD .int64

/-- The column of the buffer with the values of a column. -/
def roundColumn (lib : TabularHdf5 V) (timestamps : List TimestampEntry) (c : DataColumn V) :
    TabularColumn V where
  name := c.name
  type := columnType c
  cells := cellsOf lib (columnType c) timestamps (scalarValues c.values)

/-- The column of the buffer before its values. -/
def emptyColumn (c : DataColumn V) : TabularColumn V := { name := c.name, type := columnType c }

/-- Timestamps, and columns of their own names with a value for each of them. -/
structure RoundOf (timestamps : List TimestampEntry) (cols : List (DataColumn V)) : Prop where
  timed : timestamps ≠ []
  named : ∀ c ∈ cols, c.name ≠ "" ∧ c.name ∉ timeNames
  distinct : (cols.map (·.name)).Nodup
  supported : ∀ c ∈ cols, fieldType c.values ≠ none
  full : ∀ c ∈ cols, (scalarValues c.values).length = timestamps.length

/-- The buffer in a round, with the columns that have come and those that have not. -/
def inRound (lib : TabularHdf5 V) (schemaFixed : Bool) (timestamps : List TimestampEntry)
    (done rest : List (DataColumn V)) : TabularBuffer V where
  schemaFixed := schemaFixed
  columns := done.map (roundColumn lib timestamps) ++
    if schemaFixed then rest.map emptyColumn else []
  times := timestamps
  rowCount := timestamps.length
  roundFirstTs := frameFirstTs ({ timestamps := timestamps } : DataBatch V)

/-- The buffer between two rounds. -/
def betweenRounds (schemaFixed : Bool) (schema : List (TabularColumn V)) : TabularBuffer V where
  schemaFixed := schemaFixed
  columns := if schemaFixed then schema else []

section Columns

variable {schemaFixed : Bool} {timestamps : List TimestampEntry} {done rest : List (DataColumn V)}
  {c : DataColumn V}

theorem columnType_eq (h : fieldType c.values ≠ none) :
    fieldType c.values = some (columnType c) := by
  obtain ⟨type, htype⟩ := Option.ne_none_iff_exists'.mp h
  rw [columnType, htype]
  rfl

theorem RoundOf.others (h : RoundOf timestamps (done ++ c :: rest)) :
    (∀ d ∈ done, d.name ≠ c.name) ∧ ∀ d ∈ rest, d.name ≠ c.name := by
  have hdistinct := h.distinct
  rw [map_append, map_cons, List.nodup_append] at hdistinct
  obtain ⟨-, hcons, hdisjoint⟩ := hdistinct
  refine ⟨fun d hd => ?_, fun d hd hname => ?_⟩
  · exact hdisjoint _ (mem_map_of_mem hd) _ mem_cons_self
  · exact (nodup_cons.mp hcons).1 (mem_map.mpr ⟨d, hd, hname⟩)

theorem withColumn_inRound (h : RoundOf timestamps (done ++ c :: rest)) :
    (inRound lib schemaFixed timestamps done (c :: rest)).withColumn c.name (columnType c) =
      { inRound lib schemaFixed timestamps done (c :: rest) with
        columns := done.map (roundColumn lib timestamps) ++
          emptyColumn c :: if schemaFixed then rest.map emptyColumn else [] } := by
  unfold TabularBuffer.withColumn
  cases schemaFixed with
  | true =>
    have hhas : (inRound lib true timestamps done (c :: rest)).hasColumn c.name = true :=
      hasColumn_iff.mpr ⟨emptyColumn c, by simp [inRound], rfl⟩
    rw [if_pos hhas]
    rfl
  | false =>
    have hhas : ¬ (inRound lib false timestamps done (c :: rest)).hasColumn c.name = true := by
      intro hhas
      obtain ⟨d, hd, hname⟩ := hasColumn_iff.mp hhas
      have hd : d ∈ done.map (roundColumn lib timestamps) := by simpa [inRound] using hd
      obtain ⟨d', hd', rfl⟩ := mem_map.mp hd
      exact h.others.1 d' hd' hname
    rw [if_neg hhas]
    simp [inRound, emptyColumn]

theorem pushColumn_inRound (h : RoundOf timestamps (done ++ c :: rest)) :
    ((inRound lib schemaFixed timestamps done (c :: rest)).withColumn c.name
        (columnType c)).pushColumn lib c.name
        (cellsOf lib (columnType c) timestamps (scalarValues c.values)) =
      inRound lib schemaFixed timestamps (done ++ [c]) rest := by
  have hfull := h.full c (mem_append_right _ mem_cons_self)
  have hlength : (cellsOf lib (columnType c) timestamps (scalarValues c.values)).length =
      timestamps.length := by
    rw [cellsOf, length_map, length_zipIdx, hfull]
  rw [withColumn_inRound h, TabularBuffer.pushColumn, inRound, inRound]
  have hdone : (done.map (roundColumn lib timestamps)).map (fun d => if d.name = c.name then
      d.push lib timestamps.length (cellsOf lib (columnType c) timestamps (scalarValues c.values))
      else d) = done.map (roundColumn lib timestamps) := by
    rw [map_map]
    exact map_congr_left fun d hd => if_neg (h.others.1 d hd)
  have hrest : (if schemaFixed then rest.map emptyColumn else []).map (fun d => if d.name = c.name
      then d.push lib timestamps.length
        (cellsOf lib (columnType c) timestamps (scalarValues c.values)) else d) =
      if schemaFixed then rest.map emptyColumn else [] := by
    split
    · rw [map_map]
      exact map_congr_left fun d hd => if_neg (h.others.2 d hd)
    · rfl
  have hself : (emptyColumn c).push lib timestamps.length
      (cellsOf lib (columnType c) timestamps (scalarValues c.values)) =
        roundColumn lib timestamps c := by
    simp [TabularColumn.push, emptyColumn, roundColumn, hlength, fillCells]
  simp only [map_append, map_cons, hdone, hrest, if_pos, emptyColumn, map_nil,
    append_assoc, singleton_append, TabularBuffer.mk.injEq, true_and, and_true]
  rw [← hself]
  rfl

/-- **A column of the round arrives.** -/
theorem accumulateColumn_inRound (h : RoundOf timestamps (done ++ c :: rest)) :
    (inRound lib schemaFixed timestamps done (c :: rest)).accumulateColumn lib timestamps c =
      (inRound lib schemaFixed timestamps (done ++ [c]) rest, true) := by
  have hc : c ∈ done ++ c :: rest := mem_append_right _ mem_cons_self
  have hvalues := supported_values (h.supported c hc)
  have hfull := h.full c hc
  have hcolumn : ∀ d ∈ (inRound lib schemaFixed timestamps done (c :: rest)).columns,
      d.name = c.name → d = emptyColumn c := by
    intro d hd hname
    rcases mem_append.mp hd with hd | hd
    · obtain ⟨d', hd', rfl⟩ := mem_map.mp hd
      exact absurd hname (h.others.1 d' hd')
    · split at hd
      · rcases mem_cons.mp hd with rfl | hd
        · rfl
        · obtain ⟨d', hd', rfl⟩ := mem_map.mp hd
          exact absurd hname (h.others.2 d' hd')
      · cases hd
  have hready : ColumnReady (inRound lib schemaFixed timestamps done (c :: rest)) timestamps c := by
    refine ⟨h.named c hc, h.supported c hc, ?_, ?_, ?_, ?_⟩
    · intro d hd hname
      rw [hcolumn d hd hname, columnType_eq (h.supported c hc)]
      rfl
    · intro hfixed
      have hfixed : schemaFixed = true := hfixed
      subst hfixed
      exact hasColumn_iff.mpr ⟨emptyColumn c, by simp [inRound], rfl⟩
    · rw [hvalues, length_map, hfull, take_length]
      exact ⟨Nat.le_refl _, suffix_refl _⟩
    · intro d hd hname
      rw [hcolumn d hd hname]
      rfl
  have hne : suppliedValues c.values ≠ [] := by
    rw [hvalues]
    intro hnil
    rw [map_eq_nil_iff] at hnil
    rw [hnil] at hfull
    exact h.timed (length_eq_zero_iff.mp hfull.symm)
  rw [hready.accumulateColumn hne (columnType_eq (h.supported c hc)), pushColumn_inRound h]

theorem accumulateColumns_inRound {cols : List (DataColumn V)}
    (h : RoundOf timestamps (done ++ (cols ++ rest))) :
    TabularBuffer.accumulateColumns lib timestamps cols
        (inRound lib schemaFixed timestamps done (cols ++ rest)) =
      (inRound lib schemaFixed timestamps (done ++ cols) rest, true) := by
  induction cols generalizing done with
  | nil =>
    rw [append_nil]
    rfl
  | cons c cols ih =>
    have hnext : RoundOf timestamps ((done ++ [c]) ++ (cols ++ rest)) := by
      rwa [append_assoc]
    have hfirst : RoundOf timestamps (done ++ c :: (cols ++ rest)) := h
    rw [TabularBuffer.accumulateColumns, cons_append, accumulateColumn_inRound hfirst]
    refine (ih hnext).trans ?_
    rw [append_assoc]
    rfl

end Columns

/-! ## 2. The frames of a round -/

section Frames

variable {schemaFixed : Bool} {timestamps : List TimestampEntry}
  {done rest cols : List (DataColumn V)} {w : TabularWriter V} {frame : DataBatch V}
  {frames : List (DataBatch V)}
  {work : List (String × DataBatch V)}

theorem frameFirstTs_eq (h : frame.timestamps = timestamps) :
    frameFirstTs frame = frameFirstTs ({ timestamps := timestamps } : DataBatch V) := by
  rw [frameFirstTs, frameFirstTs, h]

/-- A frame that joins the open round, or opens one. -/
def Joins (frame : DataBatch V) (buf buf' : TabularBuffer V) : Prop :=
  buf.closesRound frame = false ∧ buf.openRound frame = buf'

theorem joins_inRound (hts : frame.timestamps = timestamps) (htimed : timestamps ≠ []) :
    Joins frame (inRound lib schemaFixed timestamps done rest)
      (inRound lib schemaFixed timestamps done rest) := by
  refine ⟨?_, if_neg fun h => htimed (length_eq_zero_iff.mp h.1)⟩
  simp [TabularBuffer.closesRound, inRound, frameFirstTs_eq hts]

theorem joins_betweenRounds (hts : frame.timestamps = timestamps) (htimed : timestamps ≠ []) :
    Joins frame (betweenRounds schemaFixed (cols.map emptyColumn))
      (inRound lib schemaFixed timestamps [] cols) := by
  refine ⟨by simp [TabularBuffer.closesRound, betweenRounds], ?_⟩
  rw [TabularBuffer.openRound, if_pos ⟨rfl, hts ▸ htimed⟩, frameFirstTs_eq hts, hts]
  rfl

/-- **A frame of the round arrives.** -/
theorem step_frame (hwork : w.work = (source, frame) :: work) (hts : frame.timestamps = timestamps)
    (hround : RoundOf timestamps (done ++ (frame.columns ++ rest)))
    (hjoins : Joins frame (w.tabularBuffers source)
      (inRound lib schemaFixed timestamps done (frame.columns ++ rest))) (due : Bool) :
    w.step lib mode (.frame due) =
      some { w with
        work := work
        tabularBuffers := Function.update w.tabularBuffers source
          (inRound lib schemaFixed timestamps (done ++ frame.columns) rest) } := by
  have hnotCloses : ¬ (w.tabularBuffers source).closesRound frame = true := by simp [hjoins.1]
  rw [TabularWriter.step, hwork]
  simp only [TabularWriter.accumulateTabularFrame, if_neg hnotCloses, TabularWriter.accumulate,
    hjoins.2, hts, accumulateColumns_inRound hround]

theorem exec_frames {dues : List Bool} (hdues : dues.length = frames.length)
    (hwork : w.work = frames.map fun frame => (source, frame))
    (hts : ∀ frame ∈ frames, frame.timestamps = timestamps)
    (hround : RoundOf timestamps (done ++ frames.flatMap (·.columns)))
    (hbuf : w.tabularBuffers source =
      inRound lib schemaFixed timestamps done (frames.flatMap (·.columns))) :
    exec (TabularWriter.step lib mode) anyStep w (dues.map .frame) =
      some { w with
        work := []
        tabularBuffers := Function.update w.tabularBuffers source
          (inRound lib schemaFixed timestamps (done ++ frames.flatMap (·.columns)) []) } := by
  induction frames generalizing done w dues with
  | nil =>
    obtain rfl := length_eq_zero_iff.mp hdues
    have hsame : Function.update w.tabularBuffers source
        (inRound lib schemaFixed timestamps done []) = w.tabularBuffers := by
      have hbuf : w.tabularBuffers source = inRound lib schemaFixed timestamps done [] := hbuf
      rw [← hbuf, Function.update_eq_self]
    rw [flatMap_nil, append_nil, hsame]
    exact congrArg some (congrArg (fun work => { w with work := work }) hwork)
  | cons frame frames ih =>
    obtain ⟨due, dues, rfl⟩ := exists_cons_of_length_eq_add_one hdues
    have hframe : frame.timestamps = timestamps := hts frame mem_cons_self
    rw [flatMap_cons] at hround hbuf
    have hstep : w.step lib mode (.frame due) = _ := step_frame hwork hframe hround
      (by
        rw [hbuf]
        exact joins_inRound hframe hround.timed) due
    rw [map_cons, exec_cons hstep]
    rw [← append_assoc] at hround
    refine (ih (Nat.succ.inj hdues) rfl (fun frame h => hts frame (mem_cons_of_mem _ h)) hround
      (Function.update_self _ _ _)).trans ?_
    rw [flatMap_cons, append_assoc, Function.update_idem]

/-- **The batch of a round arrives.** -/
theorem exec_batch {dues : List Bool} (hdues : dues.length = frames.length) (hcols : cols ≠ [])
    (hframes : frames.flatMap (·.columns) = cols)
    (hts : ∀ frame ∈ frames, frame.timestamps = timestamps) (hround : RoundOf timestamps cols)
    (hidle : w.work = [] ∧ w.stopped = false)
    (hbuf : w.tabularBuffers source = betweenRounds schemaFixed (cols.map emptyColumn)) :
    ∃ w', exec (TabularWriter.step lib mode) anyStep w (.batch source frames :: dues.map .frame) =
        some w' ∧ w'.files = w.files ∧ (w'.work = [] ∧ w'.stopped = false) ∧
      w'.tabularBuffers source = inRound lib schemaFixed timestamps cols [] := by
  obtain ⟨hwork, hrunning⟩ := hidle
  subst hframes
  cases frames with
  | nil => exact absurd rfl hcols
  | cons frame frames =>
    obtain ⟨due, dues, rfl⟩ := exists_cons_of_length_eq_add_one hdues
    have hframe : frame.timestamps = timestamps := hts frame mem_cons_self
    have hbatch : w.step lib mode (.batch source (frame :: frames)) = some { w with
        work := (frame :: frames).map fun frame => (source, frame)
        supplied := w.supplied ++ (frame :: frames).flatMap (frameSupplied source) } := by
      simp [TabularWriter.step, hwork, hrunning]
    rw [flatMap_cons] at hround
    have hopen : RoundOf timestamps ([] ++ (frame.columns ++ frames.flatMap (·.columns))) := hround
    rw [exec_cons hbatch, map_cons]
    have hjoins : Joins frame (w.tabularBuffers source)
        (inRound lib schemaFixed timestamps [] (frame.columns ++ frames.flatMap (·.columns))) := by
      rw [hbuf]
      exact joins_betweenRounds hframe hround.timed
    refine ⟨_, Eq.trans (exec_cons (step_frame rfl hframe hopen (by exact hjoins) due) _)
      (exec_frames (Nat.succ.inj hdues) rfl
        (fun frame h => hts frame (mem_cons_of_mem _ h)) hround
        (Function.update_self _ _ _)), rfl, ⟨rfl, hrunning⟩, ?_⟩
    rw [flatMap_cons]
    exact Function.update_self _ _ _

end Frames

/-! ## 3. Slices -/

theorem zipIdx_slice {α β γ : Type} (f : α → Option β → γ) (xs : List α) (ys : List β) (k n : Nat) :
    (((xs.drop k).take n).zipIdx.map fun x => f x.1 ((ys.drop k).take n)[x.2]?) =
      ((xs.zipIdx.map fun x => f x.1 ys[x.2]?).drop k).take n := by
  refine ext_getElem? fun i => ?_
  simp only [List.getElem?_map, List.getElem?_zipIdx, List.getElem?_take, List.getElem?_drop,
    Nat.zero_add]
  by_cases hi : i < n
  · simp only [if_pos hi, Option.map_map]
    refine congrArg (fun g => xs[k + i]?.map g) (funext fun x => ?_)
    simp [hi]
  · simp [hi]

theorem cellsOf_slice (type : FieldType) (timestamps : List TimestampEntry) (values : List V)
    (k n : Nat) :
    cellsOf lib type ((timestamps.drop k).take n) ((values.drop k).take n) =
      ((cellsOf lib type timestamps values).drop k).take n :=
  zipIdx_slice (fun value time =>
    (⟨storedValue lib type value, some ⟨time, .scalar value⟩⟩ : TabularCell V)) values timestamps k n

theorem samplesOf_slice (timestamps : List TimestampEntry) (values : List (SuppliedValue V))
    (k n : Nat) :
    samplesOf ((timestamps.drop k).take n) ((values.drop k).take n) =
      ((samplesOf timestamps values).drop k).take n :=
  zipIdx_slice (fun value time => (⟨time, value⟩ : Sample V)) values timestamps k n

/-! ## 4. The rows in the files -/

/-- The rows that a source has of a dataset, in the order of the files. -/
def fileRows (files : H5Files FieldType (TabularCell V)) (source name : String) :
    List (TabularCell V) :=
  (files.closed.flatMap fun file => rowsOf (file source) name) ++
    rowsOf (files.current source) name

theorem fileRows_rotate (files : H5Files FieldType (TabularCell V)) (other name : String) :
    fileRows (files.rotate mode source) other name = fileRows files other name := by
  have hnone : rowsOf (fun _ => none : TabularGroup V) name = [] := rfl
  cases mode with
  | perSource =>
    simp only [fileRows, H5Files.rotate, flatMap_append, flatMap_cons, flatMap_nil,
      append_nil, append_assoc]
    by_cases ho : other = source
    · subst ho
      simp [hnone]
    · simp [Function.update_of_ne ho, hnone]
  | merge => simp [fileRows, H5Files.rotate, hnone]

/-- What a round adds to each dataset. -/
def batchChunks (lib : TabularHdf5 V) (timestamps : List TimestampEntry)
    (cols : List (DataColumn V)) : List (Chunk String FieldType (TabularCell V)) :=
  [secondsChunk lib timestamps, nanosecondsChunk lib timestamps] ++ cols.map fun c =>
    ⟨c.name, columnType c, cellsOf lib (columnType c) timestamps (scalarValues c.values)⟩

/-- Some of the rows of a dataset. -/
def sliceChunk (k n : Nat) (c : Chunk String FieldType (TabularCell V)) :
    Chunk String FieldType (TabularCell V) :=
  { c with rows := (c.rows.drop k).take n }

/-- The files have the first `k` rows of a table. -/
structure HasRows (source : String) (table : List (Chunk String FieldType (TabularCell V)))
    (k : Nat) (files : H5Files FieldType (TabularCell V)) : Prop where
  typed : ∃ type : String → FieldType, (∀ c ∈ table, c.type = type c.key) ∧
    ∀ name d, files.current source name = some d → d.type = type name
  rows : ∀ c ∈ table, fileRows files source c.key = c.rows.take k
  others : ∀ name, (∀ c ∈ table, c.key ≠ name) → fileRows files source name = []

/-- The writer waits for a round after the first `k` rows of a table. -/
structure Stored (source : String) (table : List (Chunk String FieldType (TabularCell V)))
    (schema : List (TabularColumn V)) (k : Nat) (w : TabularWriter V) : Prop where
  idle : w.work = [] ∧ w.stopped = false
  buffer : w.tabularBuffers source = betweenRounds (decide (0 < k)) schema
  files : HasRows source table k w.files

section Flush

variable {schemaFixed : Bool} {timestamps : List TimestampEntry} {cols : List (DataColumn V)}
  {w : TabularWriter V} {files : H5Files FieldType (TabularCell V)}
  {table : List (Chunk String FieldType (TabularCell V))} {schema : List (TabularColumn V)}
  {k : Nat}

theorem flushChunks_inRound (h : RoundOf timestamps cols) :
    flushChunks lib (inRound lib schemaFixed timestamps cols []) =
      batchChunks lib timestamps cols := by
  have hcolumns : (inRound lib schemaFixed timestamps cols []).columns =
      cols.map (roundColumn lib timestamps) := by
    simp [inRound]
  rw [flushChunks, hcolumns, batchChunks, map_map]
  refine congrArg _ (map_congr_left fun c hc => ?_)
  have hlength : (cellsOf lib (columnType c) timestamps (scalarValues c.values)).length =
      timestamps.length := by
    rw [cellsOf, length_map, length_zipIdx, h.full c hc]
  have hfilled : (cellsOf lib (columnType c) timestamps (scalarValues c.values) ++
      fillCells lib (columnType c) (timestamps.length -
        (cellsOf lib (columnType c) timestamps (scalarValues c.values)).length)).take
        timestamps.length = cellsOf lib (columnType c) timestamps (scalarValues c.values) := by
    rw [← hlength, Nat.sub_self, fillCells, replicate_zero, append_nil, take_length]
  exact congrArg (Chunk.mk c.name (columnType c)) hfilled

theorem emptied_inRound :
    (inRound lib schemaFixed timestamps cols []).emptied =
      betweenRounds true (cols.map emptyColumn) := by
  simp [TabularBuffer.emptied, inRound, betweenRounds, roundColumn, Function.comp_def,
    emptyColumn]

theorem HasRows.rotate (h : HasRows source table k files) (mode : HDF5Mode) (due : Bool) :
    HasRows source table k (if due then files.rotate mode source else files) := by
  cases due with
  | false => exact h
  | true =>
    obtain ⟨type, htable, hgroup⟩ := h.typed
    refine ⟨⟨type, htable, fun name d hd => ?_⟩, fun c hc => ?_, fun name hname => ?_⟩
    · have hnone : (files.rotate mode source).current source name = none := by
        cases mode <;> simp [H5Files.rotate]
      exact absurd (hnone.symm.trans hd) (Option.some_ne_none d).symm
    · exact (fileRows_rotate files source c.key).trans (h.rows c hc)
    · exact (fileRows_rotate files source name).trans (h.others name hname)

/-- **A round is flushed**: nothing throws, and the files have its rows, too. -/
theorem HasRows.flush (h : HasRows source table k files) (hround : RoundOf timestamps cols)
    (hcols : cols ≠ []) (hkeys : (table.map (·.key)).Nodup)
    (hslice : batchChunks lib timestamps cols = table.map (sliceChunk k timestamps.length))
    (schemaFixed : Bool) :
    ∃ group, (inRound lib schemaFixed timestamps cols []).flush lib (files.current source) =
        (group, betweenRounds true (cols.map emptyColumn), true) ∧
      HasRows source table (k + timestamps.length)
        { files with current := Function.update files.current source group } := by
  obtain ⟨type, htable, hgroup⟩ := h.typed
  have hchunks : flushChunks lib (inRound lib schemaFixed timestamps cols []) =
      table.map (sliceChunk k timestamps.length) := (flushChunks_inRound hround).trans hslice
  have htypes : ∀ c ∈ table.map (sliceChunk k timestamps.length), c.type = type c.key := by
    intro c hc
    obtain ⟨d, hd, rfl⟩ := mem_map.mp hc
    exact htable d hd
  have hkeys' : ((table.map (sliceChunk k timestamps.length)).map (·.key)).Nodup := by
    rw [map_map]
    exact hkeys
  have hflush : (inRound lib schemaFixed timestamps cols []).flush lib (files.current source) =
      ((appendAll lib.mismatch (files.current source)
        (table.map (sliceChunk k timestamps.length))).1,
        betweenRounds true (cols.map emptyColumn), true) := by
    rw [← emptied_inRound, ← hchunks]
    refine flush_of_typed (fun h => hround.timed (length_eq_zero_iff.mp h)) ?_ rfl hgroup ?_
    · simpa [inRound] using hcols
    · rw [hchunks]
      exact htypes
  have hrows : ∀ name, fileRows { files with
        current := Function.update files.current source (appendAll lib.mismatch
          (files.current source) (table.map (sliceChunk k timestamps.length))).1 } source name =
      fileRows files source name ++
        chunkRows name (table.map (sliceChunk k timestamps.length)) := by
    intro name
    have hfits := (@appendAll_fits _ _ _ _ _ lib.mismatch
      (table.map (sliceChunk k timestamps.length)) (files.current source)
      ⟨type, fun c hc => ⟨htypes c hc, fun d hd => hgroup _ d hd⟩⟩).2.1 name
    simp only [fileRows, Function.update_self, hfits, append_assoc]
  refine ⟨_, hflush, ⟨type, htable, fun name d hd => ?_⟩, fun c hc => ?_, fun name hname => ?_⟩
  · simp only [Function.update_self] at hd
    exact @appendAll_typed _ _ _ _ _ lib.mismatch _ _ _ hgroup htypes name d hd
  · have hslice : chunkRows c.key (table.map (sliceChunk k timestamps.length)) =
        (c.rows.drop k).take timestamps.length :=
      chunkRows_of_mem hkeys' (mem_map_of_mem hc)
    rw [hrows, h.rows c hc, hslice, take_add]
  · rw [hrows, h.others name hname, chunkRows_of_not_mem]
    · rfl
    · intro c hc
      obtain ⟨d, hd, rfl⟩ := mem_map.mp hc
      exact hname d hd

theorem plain_inRound : (inRound lib schemaFixed timestamps cols []).plain source =
    (plainName source && cols.all fun c => plainName c.name) := by
  simp [TabularBuffer.plain, inRound, roundColumn, all_map, Function.comp_def]

/-- The marker flushes the round, unless HDF5 would resolve one of the names as a path. -/
theorem step_marker (h : HasRows source table k w.files) (hround : RoundOf timestamps cols)
    (hcols : cols ≠ []) (hkeys : (table.map (·.key)).Nodup)
    (hslice : batchChunks lib timestamps cols = table.map (sliceChunk k timestamps.length))
    (hidle : w.work = [] ∧ w.stopped = false)
    (hbuf : w.tabularBuffers source = inRound lib schemaFixed timestamps cols []) (due : Bool) :
    ∃ w', Stored source table (cols.map emptyColumn) (k + timestamps.length) w' ∧
      w.step lib mode (.endOfBatch source [] due) =
        if plainName source && cols.all fun c => plainName c.name then some w' else none := by
  obtain ⟨group, hflush, hfiles⟩ :=
    (h.rotate mode due).flush hround hcols hkeys hslice schemaFixed
  have hready : ¬ (w.stopped || !w.work.isEmpty) = true := by simp [hidle]
  have hrows : 0 < (inRound lib schemaFixed timestamps cols []).rowCount :=
    length_pos_iff.mpr hround.timed
  have hpos : 0 < k + timestamps.length := Nat.add_pos_right k hrows
  refine ⟨{ w with
    files := { if due then w.files.rotate mode source else w.files with
      current := Function.update (if due then w.files.rotate mode source else w.files).current
        source group }
    tabularBuffers := Function.update w.tabularBuffers source
      (betweenRounds true (cols.map emptyColumn)) }, ⟨hidle, ?_, hfiles⟩, ?_⟩
  · rw [decide_eq_true hpos]
    exact Function.update_self _ _ _
  · rw [TabularWriter.step, if_neg hready]
    simp only [flatMap_nil, append_nil, hbuf, if_pos hrows, TabularWriter.flush,
      plain_inRound, hflush]
    split <;> rfl

/-- **A round is stored**: with its batch and its marker the files have the next rows of the table,
unless HDF5 would resolve one of the names as a path. -/
theorem Stored.round (h : Stored source table schema k w) (hround : RoundOf timestamps cols)
    (hcols : cols ≠ []) (hschema : cols.map emptyColumn = schema)
    (hkeys : (table.map (·.key)).Nodup)
    (hslice : batchChunks lib timestamps cols = table.map (sliceChunk k timestamps.length))
    {frames : List (DataBatch V)} (hframes : frames.flatMap (·.columns) = cols)
    (hts : ∀ frame ∈ frames, frame.timestamps = timestamps) {dues : List Bool}
    (hdues : dues.length = frames.length) (due : Bool) :
    ∃ w', Stored source table schema (k + timestamps.length) w' ∧
      exec (TabularWriter.step lib mode) anyStep w
          ((.batch source frames :: dues.map .frame) ++ [.endOfBatch source [] due]) =
        if plainName source && cols.all fun c => plainName c.name then some w' else none := by
  subst hschema
  obtain ⟨w₁, hbatch, hfiles, hidle, hbuf⟩ :=
    @exec_batch V lib mode source _ _ _ w frames dues hdues hcols hframes hts hround h.idle
      h.buffer
  obtain ⟨w', hstored, hmarker⟩ :=
    @step_marker V lib mode source _ _ _ w₁ _ _ (hfiles ▸ h.files) hround hcols hkeys hslice hidle
      hbuf due
  refine ⟨w', hstored, ?_⟩
  rw [exec_append, hbatch, Option.bind_some]
  have hany : anyStep w₁ (.endOfBatch source [] due : TabularAction V) := trivial
  rw [exec, if_pos hany, hmarker]
  cases plainName source && cols.all fun c => plainName c.name <;> rfl

theorem stored_empty (hkeys : (table.map (·.key)).Nodup) (schema : List (TabularColumn V)) :
    Stored source table schema 0 {} := by
  have htype : ∃ type : String → FieldType, ∀ c ∈ table, c.type = type c.key := by
    induction table with
    | nil => exact ⟨fun _ => .int64, fun c hc => absurd hc not_mem_nil⟩
    | cons c table ih =>
      rw [map_cons, nodup_cons] at hkeys
      obtain ⟨type, htype⟩ := ih hkeys.2
      refine ⟨Function.update type c.key c.type, fun d hd => ?_⟩
      rcases mem_cons.mp hd with rfl | hd
      · have hself : Function.update type d.key d.type d.key = d.type := Function.update_self _ _ _
        exact hself.symm
      · have hne : d.key ≠ c.key := fun hkey => hkeys.1 (mem_map.mpr ⟨d, hd, hkey⟩)
        rw [Function.update_of_ne hne]
        exact htype d hd
  obtain ⟨type, htype⟩ := htype
  exact ⟨⟨rfl, rfl⟩, rfl, ⟨type, htype, fun _ _ h => by cases h⟩, fun _ _ => rfl, fun _ _ => rfl⟩

end Flush

/-! ## 5. Batches -/

/-- The actions of the worker for tabular batches, whichever files are due for rotation. -/
inductive Feeds : List (EventBatch V) → List (TabularAction V) → Prop
  | nil : Feeds [] []
  | batch {metadata : List (String × String)} {payload : TimeSeriesPayload V}
    {batches : List (EventBatch V)} {actions : List (TabularAction V)}
    (hdata : payload.endOfBatchGroup = false) {dues : List Bool}
    (hdues : dues.length = payload.frames.length) (hrest : Feeds batches actions) :
    Feeds (⟨metadata, .timeSeries payload⟩ :: batches)
      ((.batch payload.rootSourceName payload.frames :: dues.map .frame) ++ actions)
  | marker {metadata : List (String × String)} {payload : TimeSeriesPayload V}
    {batches : List (EventBatch V)} {actions : List (TabularAction V)}
    (hend : payload.endOfBatchGroup = true) (due : Bool) (hrest : Feeds batches actions) :
    Feeds (⟨metadata, .timeSeries payload⟩ :: batches)
      (.endOfBatch payload.rootSourceName payload.frames due :: actions)

end MldpDriver.Writer
