/-
# Nothing supplied to a table is lost

Every group of a tabular file should be a table, and every value handed to the writer should be in a
file or still pending, none once the writer has stopped (`Kept`).
-/
import MldpDriver.Lib.Run
import MldpDriver.Writer.TabularFlush

namespace MldpDriver.Writer

open Bus Lib.AppendTable Lib.Run List

variable {V : Type}

/-! ## 1. What should hold -/

/-- The samples the files store, in the order of the files. -/
def fileSamples (files : H5Files FieldType (TabularCell V)) (source column : String) :
    List (Sample V) :=
  (files.closed.flatMap fun file => groupSamples (file source) column) ++
    groupSamples (files.current source) column

/-- The samples supplied to a column of a source. -/
def suppliedTo (source column : String) (supplied : List (Supplied V)) : List (Sample V) :=
  (supplied.filter fun s => s.source = source ∧ s.column = column).map (·.sample)

/-- The samples not yet in a file. -/
def TabularWriter.pending (w : TabularWriter V) (source column : String) : List (Sample V) :=
  (w.tabularBuffers source).samples column ++
    suppliedTo source column (w.work.flatMap fun p => frameSupplied p.1 p.2)

/-- **Tables, and nothing lost.** -/
structure TabularWriter.Kept (lib : TabularHdf5 V) (w : TabularWriter V) : Prop where
  aligned : ∀ file ∈ w.files.closed ++ [w.files.current], ∀ source,
    ∃ times, TableAligned lib (file source) times
  lossless : ∀ source column, suppliedTo source column w.supplied =
    fileSamples w.files source column ++ if w.stopped then [] else w.pending source column

/-! ## 2. Frames that fit

The writer keeps this as long as each frame FITS the round it joins (`FrameFits`), an end-of-batch
marker carries no values, and the writer is stopped with no value pending (`fittingStep`).  The stop
is where the writer breaks it without any odd frame: the open round is never flushed
(`tabular_not_kept`). -/

/-- The frame opens a round. -/
def TabularBuffer.opensRound (buf : TabularBuffer V) (frame : DataBatch V) : Bool :=
  buf.rowCount == 0 || buf.closesRound frame

/-- The timestamps of the round that a frame joins or opens. -/
def TabularBuffer.roundTimes (buf : TabularBuffer V) (frame : DataBatch V) :
    List TimestampEntry :=
  if buf.opensRound frame then frame.timestamps else buf.times

/-- **A column that fits**: a new one of its round, of a supported type and the type it had before,
known once the schema is locked, with one value for each of the last timestamps of the round. -/
structure ColumnFits (buf : TabularBuffer V) (frame : DataBatch V) (col : DataColumn V) :
    Prop where
  name : col.name ≠ "" ∧ col.name ∉ timeNames
  supported : fieldType col.values ≠ none
  type : ∀ c ∈ buf.columns, c.name = col.name → some c.type = fieldType col.values
  known : buf.schemaFixed = true ∨ buf.closesRound frame = true → buf.hasColumn col.name = true
  timed : (suppliedValues col.values).length ≤ frame.timestamps.length ∧
    frame.timestamps.take (suppliedValues col.values).length <:+ buf.roundTimes frame
  single : buf.opensRound frame = true ∨ ∀ c ∈ buf.columns, c.name = col.name → c.cells = []

/-- **A frame that fits**: each column with values fits, once, and there are no enum values. -/
structure FrameFits (buf : TabularBuffer V) (frame : DataBatch V) : Prop where
  columns : ∀ col ∈ frame.columns, suppliedValues col.values ≠ [] → ColumnFits buf frame col
  distinct : ((frame.columns.filter fun col => !(suppliedValues col.values).isEmpty).map
    (·.name)).Nodup
  enums : ∀ col ∈ frame.enumColumns, col.values = []

/-- The guard: the next frame fits, a marker carries no values, and the writer stops with no value
pending.  The last is needed because `stop` does not flush the open round. -/
def fittingStep (w : TabularWriter V) : TabularAction V → Prop
  | .frame _ => ∀ p rest, w.work = p :: rest → FrameFits (w.tabularBuffers p.1) p.2
  | .endOfBatch source frames _ => frames.flatMap (frameSupplied source) = []
  | .stop => ∀ source, ∀ c ∈ (w.tabularBuffers source).columns, c.cells = []
  | .batch _ _ => True
  | .flushAll => True

/-! ## 3. The columns of a frame -/

variable {frame : DataBatch V}

section Columns

variable {lib : TabularHdf5 V} {group : TabularGroup V} {buf : TabularBuffer V}

/-- **A round is opened**: the buffer stays sound, and its columns are empty. -/
theorem RoundSound.openRound (h : RoundSound lib group buf) (frame : DataBatch V) :
    RoundSound lib group (buf.openRound frame) := by
  unfold TabularBuffer.openRound
  split
  · rename_i hopen
    refine ⟨h.names, h.notTimes, h.fresh, h.known, h.typed, h.table, ?_⟩
    rcases h.round with hnone | ⟨hlength, hround⟩
    · exact Or.inl hnone
    · have hempty : buf.times = [] := length_eq_zero_iff.mp (hlength.trans hopen.1)
      refine Or.inr ⟨by simp [hempty], fun c hc => Or.inl ?_⟩
      rcases hround c hc with hcells | hcells
      · exact hcells
      · rw [hempty] at hcells
        exact List.forall₂_nil_right_iff.mp hcells
  · exact h

/-- A column that fits the buffer as it is. -/
structure ColumnReady (buf : TabularBuffer V) (timestamps : List TimestampEntry)
    (col : DataColumn V) : Prop where
  name : col.name ≠ "" ∧ col.name ∉ timeNames
  supported : fieldType col.values ≠ none
  type : ∀ c ∈ buf.columns, c.name = col.name → some c.type = fieldType col.values
  known : buf.schemaFixed = true → buf.hasColumn col.name = true
  timed : (suppliedValues col.values).length ≤ timestamps.length ∧
    timestamps.take (suppliedValues col.values).length <:+ buf.times
  empty : ∀ c ∈ buf.columns, c.name = col.name → c.cells = []

variable {col : DataColumn V}
variable {timestamps : List TimestampEntry}

theorem accumulateColumn_of_empty (h : suppliedValues col.values = []) :
    buf.accumulateColumn lib timestamps col = (buf, true) := by
  have hempty : (scalarValues col.values).isEmpty = true := by
    cases hv : col.values with
    | scalar kind values =>
      rw [hv] at h
      simpa [suppliedValues, scalarValues] using h
    | bytes values => rfl
    | array kind values => rfl
  unfold TabularBuffer.accumulateColumn
  split
  · rfl
  · split
    · rfl
    · cases fieldType col.values with
      | none => rfl
      | some type => rfl

theorem supported_values (h : fieldType col.values ≠ none) :
    suppliedValues col.values = (scalarValues col.values).map .scalar := by
  cases hv : col.values with
  | scalar kind values => rfl
  | bytes values =>
    rw [hv] at h
    exact absurd rfl h
  | array kind values =>
    rw [hv] at h
    exact absurd rfl h

theorem cellsOf_samples (type : FieldType) (timestamps : List TimestampEntry) (values : List V) :
    (cellsOf lib type timestamps values).filterMap (·.sample) =
      samplesOf timestamps (values.map .scalar) := by
  simp [cellsOf, samplesOf, zipIdx_map, filterMap_map, Function.comp_def]

variable {type : FieldType}

/-- **The cells of a column, at the end of the round**, stand at their timestamps. -/
theorem cellsOf_stores {timestamps times : List TimestampEntry} {values : List V}
    (hlength : values.length ≤ timestamps.length)
    (hsuffix : timestamps.take values.length <:+ times) :
    List.Forall₂ (StoresSample lib type)
      (fillCells lib type (times.length - values.length) ++ cellsOf lib type timestamps values)
      times := by
  obtain ⟨before, rfl⟩ := hsuffix
  have hbefore : (before ++ timestamps.take values.length).length - values.length =
      before.length := by
    rw [length_append, List.length_take]
    omega
  rw [hbefore]
  refine rel_append (fillCells_stores type before) ?_
  rw [cellsOf, List.forall₂_map_left_iff, List.forall₂_iff_get]
  refine ⟨by simp [hlength], fun i hi hi' s hs => ?_⟩
  obtain rfl := Option.some.inj hs
  have hlt : i < timestamps.length := by
    rw [List.length_take] at hi'
    omega
  simp [List.getElem?_eq_getElem hlt]

/-- Add a column unless there is one of that name. -/
def TabularBuffer.withColumn (buf : TabularBuffer V) (name : String) (type : FieldType) :
    TabularBuffer V :=
  if buf.hasColumn name then buf
  else { buf with columns := buf.columns ++ [{ name := name, type := type }] }

/-- Append cells to a column. -/
def TabularBuffer.pushColumn (lib : TabularHdf5 V) (buf : TabularBuffer V) (name : String)
    (cells : List (TabularCell V)) : TabularBuffer V :=
  { buf with columns := buf.columns.map fun c =>
      if c.name = name then c.push lib buf.rowCount cells else c }

variable {name : String}

theorem hasColumn_iff :
    buf.hasColumn name = true ↔ ∃ c ∈ buf.columns, c.name = name := by
  simp [TabularBuffer.hasColumn]

/-- **A new column** before the schema is locked. -/
theorem RoundSound.withColumn (h : RoundSound lib group buf) (type : FieldType)
    (hname : name ∉ timeNames) (hknown : buf.schemaFixed = true → buf.hasColumn name = true) :
    RoundSound lib group (buf.withColumn name type) := by
  unfold TabularBuffer.withColumn
  split
  · exact h
  · rename_i hnew
    have hopen : buf.schemaFixed = false := by
      simpa using fun hf => hnew (hknown hf)
    have hnone := h.fresh hopen
    have hnot : ∀ c ∈ buf.columns, c.name ≠ name := fun c hc he =>
      hnew (hasColumn_iff.mpr ⟨c, hc, he⟩)
    refine ⟨?_, fun c hc => ?_, h.fresh, fun k d hd => ?_, ?_, ?_, ?_⟩
    · simp only [map_append, map_cons, map_nil]
      refine List.nodup_append.mpr ⟨h.names, by simp, fun a ha b hb hab => ?_⟩
      obtain ⟨c, hc, rfl⟩ := mem_map.mp ha
      exact hnot c hc (hab.trans (mem_singleton.mp hb))
    · rcases mem_append.mp hc with hc | hc
      · exact h.notTimes c hc
      · rw [mem_singleton.mp hc]
        exact hname
    · rw [hnone k] at hd
      cases hd
    · obtain ⟨types, htimes, hcolumns, hgroup⟩ := h.typed
      refine ⟨Function.update types name type, fun k hk => ?_, fun c hc => ?_, fun k d hd => ?_⟩
      · rw [Function.update_of_ne (fun he : k = name => hname (he ▸ hk))]
        exact htimes k hk
      · rcases mem_append.mp hc with hc | hc
        · rw [Function.update_of_ne (hnot c hc)]
          exact hcolumns c hc
        · rw [mem_singleton.mp hc]
          exact Function.update_self _ _ _
      · rw [hnone k] at hd
        cases hd
    · obtain ⟨times, ht, hrows⟩ := h.table
      have hempty : times = [] := by
        have hseconds := ht.seconds
        rw [rowsOf, hnone] at hseconds
        simpa [secondsChunk] using hseconds.symm
      refine ⟨times, ht, fun c hc => ?_⟩
      rw [rowsOf, hnone, hempty]
      rfl
    · refine Or.inr ?_
      rcases h.round with ⟨hf, -⟩ | ⟨hlength, hround⟩
      · rw [hopen] at hf
        cases hf
      · refine ⟨hlength, fun c hc => ?_⟩
        rcases mem_append.mp hc with hc | hc
        · exact hround c hc
        · rw [mem_singleton.mp hc]
          exact Or.inl rfl

variable {cells : List (TabularCell V)}

/-- **Cells for the round** in a column that had none. -/
theorem RoundSound.pushColumn (h : RoundSound lib group buf)
    (hcells : ∀ c ∈ buf.columns, c.name = name → List.Forall₂ (StoresSample lib c.type)
      (fillCells lib c.type (buf.times.length - cells.length) ++ cells) buf.times)
    (hempty : ∀ c ∈ buf.columns, c.name = name → c.cells = []) :
    RoundSound lib group (buf.pushColumn lib name cells) := by
  have hkeep : ∀ c : TabularColumn V,
      (if c.name = name then c.push lib buf.rowCount cells else c).name = c.name ∧
      (if c.name = name then c.push lib buf.rowCount cells else c).type = c.type := by
    intro c
    split <;> exact ⟨rfl, rfl⟩
  refine ⟨?_, fun c' hc' => ?_, h.fresh, fun k d hd => ?_, ?_, ?_, ?_⟩
  · simpa [TabularBuffer.pushColumn, Function.comp_def, hkeep] using h.names
  · obtain ⟨c, hc, rfl⟩ := mem_map.mp hc'
    rw [(hkeep c).1]
    exact h.notTimes c hc
  · refine (h.known k d hd).imp_right fun ⟨c, hc, hk⟩ => ⟨_, mem_map_of_mem hc, ?_⟩
    rw [(hkeep c).1]
    exact hk
  · obtain ⟨types, htimes, hcolumns, hgroup⟩ := h.typed
    refine ⟨types, htimes, fun c' hc' => ?_, hgroup⟩
    obtain ⟨c, hc, rfl⟩ := mem_map.mp hc'
    rw [(hkeep c).1, (hkeep c).2]
    exact hcolumns c hc
  · obtain ⟨times, ht, hrows⟩ := h.table
    refine ⟨times, ht, fun c' hc' => ?_⟩
    obtain ⟨c, hc, rfl⟩ := mem_map.mp hc'
    rw [(hkeep c).1]
    exact hrows c hc
  · refine h.round.imp (fun ⟨hf, hnone⟩ => ⟨hf, by simp [TabularBuffer.pushColumn, hnone]⟩) ?_
    rintro ⟨hlength, hround⟩
    refine ⟨hlength, fun c' hc' => ?_⟩
    obtain ⟨c, hc, rfl⟩ := mem_map.mp hc'
    by_cases hn : c.name = name
    · have hnew := hcells c hc hn
      rw [if_pos hn]
      right
      simpa [TabularColumn.push, hempty c hc hn, ← hlength, TabularBuffer.pushColumn] using hnew
    · rw [if_neg hn]
      exact hround c hc

theorem mem_withColumn {c : TabularColumn V} (hc : c ∈ (buf.withColumn name type).columns) :
    c ∈ buf.columns ∨ c = { name := name, type := type } := by
  unfold TabularBuffer.withColumn at hc
  split at hc
  · exact Or.inl hc
  · exact (mem_append.mp hc).imp_right mem_singleton.mp

theorem withColumn_samples (name : String) (type : FieldType) (column : String) :
    (buf.withColumn name type).samples column = buf.samples column := by
  unfold TabularBuffer.withColumn TabularBuffer.samples
  split
  · rfl
  · rw [List.find?_append]
    cases buf.columns.find? fun c => c.name == column with
    | some c => rfl
    | none => by_cases hn : name = column <;> simp [hn]

theorem withColumn_hasColumn (name : String) (type : FieldType) (column : String) :
    (buf.withColumn name type).hasColumn column = (buf.hasColumn column || name == column) := by
  unfold TabularBuffer.withColumn
  split
  · rename_i hhas
    by_cases hn : name = column
    · subst hn
      simp [hhas]
    · have hbeq : (name == column) = false := by simpa using hn
      simp [hbeq]
  · simp [TabularBuffer.hasColumn]

theorem pushColumn_hasColumn (name : String) (cells : List (TabularCell V)) (column : String) :
    (buf.pushColumn lib name cells).hasColumn column = buf.hasColumn column := by
  have hkeep : ∀ c : TabularColumn V,
      (if c.name = name then c.push lib buf.rowCount cells else c).name = c.name := by
    intro c
    split <;> rfl
  simp [TabularBuffer.pushColumn, TabularBuffer.hasColumn, any_map, Function.comp_def, hkeep]

theorem pushColumn_samples (hhas : buf.hasColumn name = true)
    (hempty : ∀ c ∈ buf.columns, c.name = name → c.cells = []) (column : String) :
    (buf.pushColumn lib name cells).samples column =
      buf.samples column ++ if name = column then cells.filterMap (·.sample) else [] := by
  have hkeep : ∀ c : TabularColumn V,
      (if c.name = name then c.push lib buf.rowCount cells else c).name = c.name := by
    intro c
    split <;> rfl
  rw [TabularBuffer.samples, TabularBuffer.samples, TabularBuffer.pushColumn, List.find?_map]
  simp only [Function.comp_def, hkeep]
  cases hfind : buf.columns.find? fun c => c.name == column with
  | none =>
    have hne : name ≠ column := by
      rintro rfl
      obtain ⟨c, hc, hn⟩ := hasColumn_iff.mp hhas
      have := List.find?_eq_none.mp hfind c hc
      simp [hn] at this
    simp [hne]
  | some c =>
    have hc := List.mem_of_find?_eq_some hfind
    obtain rfl : c.name = column := by simpa using List.find?_some hfind
    by_cases hn : c.name = name
    · simp [hn, TabularColumn.push, hempty c hc hn, fillCells_samples]
    · have hn' : name ≠ c.name := fun he => hn he.symm
      simp [hn, hn']

theorem ColumnReady.accumulateColumn (h : ColumnReady buf timestamps col)
    (hvalues : suppliedValues col.values ≠ []) (htype : fieldType col.values = some type) :
    buf.accumulateColumn lib timestamps col =
      ((buf.withColumn col.name type).pushColumn lib col.name
        (cellsOf lib type timestamps (scalarValues col.values)), true) := by
  have hknown : (buf.schemaFixed && !buf.hasColumn col.name) = false := by
    cases hf : buf.schemaFixed with
    | false => rfl
    | true => simp [h.known hf]
  have hscalar : (scalarValues col.values).isEmpty = false := by
    rw [supported_values h.supported] at hvalues
    simpa using hvalues
  have hget : (buf.withColumn col.name type).columns.all
      (fun c => c.name != col.name || c.type == type) = true := by
    rw [all_eq_true]
    intro c hc
    rcases mem_withColumn hc with hc | rfl
    · by_cases hn : c.name = col.name
      · have ht := h.type c hc hn
        rw [htype] at ht
        simp [Option.some.inj ht]
      · simp [hn]
    · simp
  unfold TabularBuffer.withColumn at hget ⊢
  unfold TabularBuffer.accumulateColumn
  rw [if_neg h.name.1, hknown, htype]
  simp only [Bool.false_eq_true, if_false, hscalar]
  cases hhas : buf.hasColumn col.name with
  | true =>
    rw [hhas] at hget
    simp only [if_true] at hget ⊢
    rw [if_pos hget]
    rfl
  | false =>
    rw [hhas] at hget
    simp only [Bool.false_eq_true, if_false] at hget ⊢
    rw [if_pos hget]
    rfl

theorem mem_visited {name : String} {type : FieldType} {cells : List (TabularCell V)}
    {c : TabularColumn V} (hc : c ∈ ((buf.withColumn name type).pushColumn lib name cells).columns)
    (hne : c.name ≠ name) : c ∈ buf.columns := by
  obtain ⟨c₀, hc₀, rfl⟩ := mem_map.mp hc
  by_cases hn : c₀.name = name
  · rw [if_pos hn] at hne
    exact absurd hn hne
  · rw [if_neg hn]
    rcases mem_withColumn hc₀ with hc₀ | rfl
    · exact hc₀
    · exact absurd rfl hn

theorem visited_kept (name : String) (type : FieldType) (cells : List (TabularCell V)) :
    ((buf.withColumn name type).pushColumn lib name cells).schemaFixed = buf.schemaFixed ∧
      ((buf.withColumn name type).pushColumn lib name cells).times = buf.times := by
  unfold TabularBuffer.pushColumn TabularBuffer.withColumn
  split <;> exact ⟨rfl, rfl⟩

theorem ColumnReady.after (h : ColumnReady buf timestamps col) (hne : col.name ≠ name)
    (type : FieldType) (cells : List (TabularCell V)) :
    ColumnReady ((buf.withColumn name type).pushColumn lib name cells) timestamps col where
  name := h.name
  supported := h.supported
  type c hc hn := h.type c (mem_visited hc (hn ▸ hne)) hn
  known hf := by
    rw [pushColumn_hasColumn, withColumn_hasColumn, h.known ((visited_kept name type cells).1 ▸ hf)]
    rfl
  timed := by
    rw [(visited_kept name type cells).2]
    exact h.timed
  empty c hc hn := h.empty c (mem_visited hc (hn ▸ hne)) hn

/-- **The visit of a column** that is ready. -/
theorem ColumnReady.visit (hready : ColumnReady buf timestamps col) (h : RoundSound lib group buf)
    (hvalues : suppliedValues col.values ≠ []) :
    ∃ buf', buf.accumulateColumn lib timestamps col = (buf', true) ∧ RoundSound lib group buf' ∧
      (∀ column, buf'.samples column = buf.samples column ++
        if col.name = column then samplesOf timestamps (suppliedValues col.values) else []) ∧
      ∀ col' : DataColumn V, col'.name ≠ col.name → ColumnReady buf timestamps col' →
        ColumnReady buf' timestamps col' := by
  obtain ⟨type, htype⟩ := Option.ne_none_iff_exists'.mp hready.supported
  have hscalar := supported_values hready.supported
  have hempty : ∀ c ∈ (buf.withColumn col.name type).columns, c.name = col.name → c.cells = [] := by
    intro c hc hn
    rcases mem_withColumn hc with hc | rfl
    · exact hready.empty c hc hn
    · rfl
  refine ⟨_, hready.accumulateColumn hvalues htype, ?_, fun column => ?_,
    fun col' hne hready' => hready'.after hne _ _⟩
  · -- the cells stand at the end of the round
    have hsound := h.withColumn type hready.name.2 hready.known
    refine hsound.pushColumn (fun c hc hn => ?_) hempty
    have htimes : (buf.withColumn col.name type).times = buf.times :=
      (@visited_kept _ lib buf col.name type []).2
    have hc' : c.type = type := by
      rcases mem_withColumn hc with hc | rfl
      · exact Option.some.inj ((hready.type c hc hn).trans htype)
      · rfl
    have hcells : (cellsOf lib type timestamps (scalarValues col.values)).length =
        (scalarValues col.values).length := by
      simp [cellsOf]
    have htimed := hready.timed
    rw [hscalar, length_map] at htimed
    rw [htimes, hc', hcells]
    exact cellsOf_stores htimed.1 htimed.2
  · have hhas : (buf.withColumn col.name type).hasColumn col.name = true := by
      simp [withColumn_hasColumn]
    rw [pushColumn_samples hhas hempty, withColumn_samples, cellsOf_samples, hscalar]

/-- The samples of a frame for a column. -/
def frameSamples (timestamps : List TimestampEntry) (cols : List (DataColumn V)) (column : String) :
    List (Sample V) :=
  cols.flatMap fun col =>
    if col.name = column then samplesOf timestamps (suppliedValues col.values) else []

/-- **The columns of a frame** that are ready all arrive in the buffer. -/
theorem RoundSound.accumulateColumns (h : RoundSound lib group buf)
    (timestamps : List TimestampEntry) (cols : List (DataColumn V))
    (hready : ∀ col ∈ cols, suppliedValues col.values ≠ [] → ColumnReady buf timestamps col)
    (hdistinct : ((cols.filter fun col => !(suppliedValues col.values).isEmpty).map
      (·.name)).Nodup) :
    ∃ buf', TabularBuffer.accumulateColumns lib timestamps cols buf = (buf', true) ∧
      RoundSound lib group buf' ∧ ∀ column, buf'.samples column =
        buf.samples column ++ frameSamples timestamps cols column := by
  induction cols generalizing buf with
  | nil => exact ⟨buf, rfl, h, fun column => by simp [frameSamples]⟩
  | cons col cols ih =>
    by_cases hvalues : suppliedValues col.values = []
    · -- nothing supplied
      rw [filter_cons_of_neg (by simp [hvalues])] at hdistinct
      obtain ⟨buf', hdone, hsound, hsamples⟩ := ih h
        (fun col' hc' => hready col' (mem_cons_of_mem _ hc')) hdistinct
      refine ⟨buf', ?_, hsound, fun column => ?_⟩
      · rw [TabularBuffer.accumulateColumns, accumulateColumn_of_empty hvalues]
        exact hdone
      · rw [hsamples column]
        simp [frameSamples, hvalues, samplesOf]
    · rw [filter_cons_of_pos (by simp [hvalues]), map_cons, nodup_cons] at hdistinct
      obtain ⟨buf₁, hvisit, hsound₁, hsamples₁, hready₁⟩ :=
        (hready col mem_cons_self hvalues).visit h hvalues
      obtain ⟨buf', hdone, hsound, hsamples⟩ := ih hsound₁ (fun col' hc' hvalues' => by
        refine hready₁ col' (fun hn => hdistinct.1 ?_)
          (hready col' (mem_cons_of_mem _ hc') hvalues')
        rw [← hn]
        exact mem_map_of_mem (mem_filter.mpr ⟨hc', by simp [hvalues']⟩)) hdistinct.2
      refine ⟨buf', ?_, hsound, fun column => ?_⟩
      · rw [TabularBuffer.accumulateColumns, hvisit]
        exact hdone
      · rw [hsamples column, hsamples₁ column, append_assoc]
        rfl

theorem RoundSound.empty (h : RoundSound lib group buf) (hrows : buf.rowCount = 0) :
    ∀ c ∈ buf.columns, c.cells = [] := by
  intro c hc
  rcases h.round with ⟨-, hnone⟩ | ⟨hlength, hround⟩
  · rw [hnone] at hc
    cases hc
  · have hempty : buf.times = [] := length_eq_zero_iff.mp (hlength.trans hrows)
    rcases hround c hc with hcells | hcells
    · exact hcells
    · rw [hempty] at hcells
      exact List.forall₂_nil_right_iff.mp hcells

theorem openRound_kept (frame : DataBatch V) :
    (buf.openRound frame).columns = buf.columns ∧
      (buf.openRound frame).schemaFixed = buf.schemaFixed := by
  unfold TabularBuffer.openRound
  split <;> exact ⟨rfl, rfl⟩

/-- A column that fits is ready in the round its frame opens. -/
theorem ColumnFits.opened {old : TabularBuffer V} (hfits : ColumnFits old frame col)
    (hvalues : suppliedValues col.values ≠ []) (hopens : old.opensRound frame = true)
    (h : RoundSound lib group buf) (hrows : buf.rowCount = 0)
    (htype : ∀ c ∈ buf.columns, ∃ c₀ ∈ old.columns, c₀.name = c.name ∧ c₀.type = c.type)
    (hknown : buf.schemaFixed = true → old.schemaFixed = true ∨ old.closesRound frame = true)
    (hhas : ∀ name, buf.hasColumn name = old.hasColumn name) :
    ColumnReady (buf.openRound frame) frame.timestamps col := by
  obtain ⟨hcolumns, hfixed⟩ := @openRound_kept _ buf frame
  have htimed := hfits.timed
  have hne : frame.timestamps ≠ [] := by
    rintro he
    rw [he] at htimed
    exact hvalues (length_eq_zero_iff.mp (Nat.le_zero.mp htimed.1))
  refine ⟨hfits.name, hfits.supported, fun c hc hn => ?_, fun hf => ?_, ⟨htimed.1, ?_⟩,
    fun c hc _ => ?_⟩
  · rw [hcolumns] at hc
    obtain ⟨c₀, hc₀, hn₀, ht₀⟩ := htype c hc
    rw [← ht₀]
    exact hfits.type c₀ hc₀ (hn₀.trans hn)
  · rw [hfixed] at hf
    rw [TabularBuffer.hasColumn, hcolumns]
    exact (hhas _).trans (hfits.known (hknown hf))
  · have hopen : (buf.openRound frame).times = buf.times ++ frame.timestamps := by
      simp [TabularBuffer.openRound, hrows, hne]
    rw [hopen]
    have hsuffix := htimed.2
    rw [TabularBuffer.roundTimes, if_pos hopens] at hsuffix
    exact hsuffix.trans (suffix_append _ _)
  · rw [hcolumns] at hc
    exact h.empty hrows c hc

theorem ColumnFits.joined (hfits : ColumnFits buf frame col) (hjoins : buf.opensRound frame =
    false) :
    ColumnReady (buf.openRound frame) frame.timestamps col := by
  have hsame : buf.openRound frame = buf := by
    have hrows : ¬ buf.rowCount = 0 := fun he => by simp [TabularBuffer.opensRound, he] at hjoins
    simp [TabularBuffer.openRound, hrows]
  have htimed := hfits.timed
  rw [TabularBuffer.roundTimes, hjoins] at htimed
  rw [hsame]
  exact ⟨hfits.name, hfits.supported, hfits.type, fun hf => hfits.known (Or.inl hf), htimed,
    hfits.single.resolve_left (by simp [hjoins])⟩

end Columns

/-! ## 4. The writer -/

section Writer

variable {lib : TabularHdf5 V} {mode : HDF5Mode} {source : String} {w : TabularWriter V}

/-- All sources and all closed files are sound. -/
structure TabularWriter.Sound (lib : TabularHdf5 V) (w : TabularWriter V) : Prop where
  rounds : ∀ source, RoundSound lib (w.files.current source) (w.tabularBuffers source)
  closed : ∀ file ∈ w.files.closed, ∀ source, ∃ times, TableAligned lib (file source) times

/-- The samples in the files and the buffer of a source. -/
def TabularWriter.held (w : TabularWriter V) (source column : String) : List (Sample V) :=
  fileSamples w.files source column ++ (w.tabularBuffers source).samples column

theorem fileSamples_rotate (files : H5Files FieldType (TabularCell V)) (other column : String) :
    fileSamples (files.rotate mode source) other column = fileSamples files other column := by
  have hnone : groupSamples (fun _ => none : TabularGroup V) column = [] := rfl
  cases mode with
  | perSource =>
    simp only [fileSamples, H5Files.rotate, flatMap_append, flatMap_cons,
      flatMap_nil, append_nil, append_assoc]
    by_cases ho : other = source
    · subst ho
      simp [hnone]
    · simp [Function.update_of_ne ho, hnone]
  | merge => simp [fileSamples, H5Files.rotate, hnone]

/-- **A rotation** keeps everything. -/
theorem TabularWriter.Sound.rotate (h : w.Sound lib) (mode : HDF5Mode) (source : String) :
    TabularWriter.Sound lib { w with files := w.files.rotate mode source } := by
  have htable : ∀ source, ∃ times, TableAligned lib (w.files.current source) times := by
    intro source
    obtain ⟨times, ht, -⟩ := (h.rounds source).table
    exact ⟨times, ht⟩
  cases mode with
  | perSource =>
    refine ⟨fun other => ?_, fun file hf other => ?_⟩
    · by_cases ho : other = source
      · subst ho
        simpa [H5Files.rotate] using (h.rounds other).rotated
      · simpa [H5Files.rotate, Function.update_of_ne ho] using h.rounds other
    · rcases mem_append.mp hf with hf | hf
      · exact h.closed file hf other
      · rw [mem_singleton.mp hf]
        by_cases ho : other = source
        · subst ho
          simpa using htable other
        · exact ⟨[], by simpa [Function.update_of_ne ho] using tableAligned_empty lib⟩
  | merge =>
    refine ⟨fun other => (h.rounds other).rotated, fun file hf other => ?_⟩
    rcases mem_append.mp hf with hf | hf
    · exact h.closed file hf other
    · rw [mem_singleton.mp hf]
      exact htable other

theorem TabularWriter.Sound.put (h : w.Sound lib) {group : TabularGroup V} {buf : TabularBuffer V}
    (hs : RoundSound lib group buf) :
    TabularWriter.Sound lib { w with
      files := { w.files with current := Function.update w.files.current source group }
      tabularBuffers := Function.update w.tabularBuffers source buf } := by
  refine ⟨fun other => ?_, h.closed⟩
  by_cases ho : other = source
  · subst ho
    simpa using hs
  · simpa [Function.update_of_ne ho] using h.rounds other

/-- The writers agree on everything but files and buffers. -/
def TabularWriter.SameWork (w w' : TabularWriter V) : Prop :=
  w'.work = w.work ∧ w'.supplied = w.supplied ∧ w'.stopped = w.stopped

/-- What is held of a source after another group and another buffer for one. -/
theorem held_put {files : H5Files FieldType (TabularCell V)} {group : TabularGroup V}
    {buf : TabularBuffer V} {new : String → List (Sample V)}
    (hnew : ∀ column, groupSamples group column ++ buf.samples column =
      groupSamples (files.current source) column ++ (w.tabularBuffers source).samples column ++
        new column) (other column : String) :
    TabularWriter.held { w with
        files := { files with current := Function.update files.current source group }
        tabularBuffers := Function.update w.tabularBuffers source buf } other column =
      fileSamples files other column ++ (w.tabularBuffers other).samples column ++
        if source = other then new column else [] := by
  by_cases ho : other = source
  · subst ho
    have h := hnew column
    simp only [TabularWriter.held, fileSamples, Function.update_self, if_true, append_assoc]
      at h ⊢
    rw [h]
  · have ho' : source ≠ other := fun he => ho he.symm
    simp [TabularWriter.held, fileSamples, Function.update_of_ne ho, ho']

/-- **The flush of a writer** loses nothing. -/
theorem TabularWriter.Sound.flush (h : w.Sound lib) {due : Bool}
    (hrows : (w.tabularBuffers source).rowCount ≠ 0) {r : TabularWriter V × Bool}
    (hflush : w.flush lib mode source due = some r) :
    r.2 = true ∧ r.1.Sound lib ∧ w.SameWork r.1 ∧
      (∀ other column, r.1.held other column = w.held other column) ∧
      (r.1.tabularBuffers source).rowCount = 0 ∧
      (∀ c' ∈ (r.1.tabularBuffers source).columns, ∃ c ∈ (w.tabularBuffers source).columns,
        c.name = c'.name ∧ c.type = c'.type) ∧
      ∀ name, (r.1.tabularBuffers source).hasColumn name =
        (w.tabularBuffers source).hasColumn name := by
  have hrotated : TabularWriter.Sound lib
      { w with files := if due then w.files.rotate mode source else w.files } := by
    cases due with
    | true => exact h.rotate mode source
    | false => exact h
  have hsamples : ∀ other column, fileSamples (if due then w.files.rotate mode source else w.files)
      other column = fileSamples w.files other column := by
    intro other column
    cases due with
    | true => exact fileSamples_rotate w.files other column
    | false => rfl
  unfold TabularWriter.flush at hflush
  simp only at hflush
  generalize (if due then w.files.rotate mode source else w.files) = files
    at hrotated hsamples hflush
  split at hflush
  · obtain ⟨group', buf', hdone, hsound, -, hzero, hcolumns, hhas, hmoved⟩ :=
      (hrotated.rounds source).flush hrows
    rw [hdone] at hflush
    obtain rfl := Option.some.inj hflush
    refine ⟨rfl, hrotated.put hsound, ⟨rfl, rfl, rfl⟩, fun other column => ?_, ?_, ?_, ?_⟩
    · have hput := @held_put _ source w files group' buf' (fun _ => []) (fun column => by
        rw [(hmoved column).1, (hmoved column).2]) other column
      refine hput.trans ?_
      rw [hsamples, ite_self, append_nil]
      rfl
    · simpa using hzero
    · simpa using hcolumns
    · simpa using hhas
  · cases hflush

/-- **The columns of a frame that fits** all arrive. -/
theorem TabularWriter.Sound.accumulate (h : w.Sound lib)
    (hready : ∀ col ∈ frame.columns, suppliedValues col.values ≠ [] →
      ColumnReady ((w.tabularBuffers source).openRound frame) frame.timestamps col)
    (hdistinct : ((frame.columns.filter fun col => !(suppliedValues col.values).isEmpty).map
      (·.name)).Nodup) :
    (w.accumulate lib source frame).2 = true ∧ (w.accumulate lib source frame).1.Sound lib ∧
      w.SameWork (w.accumulate lib source frame).1 ∧
      ∀ other column, (w.accumulate lib source frame).1.held other column =
        w.held other column ++
          if source = other then frameSamples frame.timestamps frame.columns column else [] := by
  obtain ⟨buf', hdone, hsound, hsamples⟩ := ((h.rounds source).openRound frame).accumulateColumns
    frame.timestamps frame.columns hready hdistinct
  unfold TabularWriter.accumulate
  rw [hdone]
  have hself : Function.update w.files.current source (w.files.current source) = w.files.current :=
    Function.update_eq_self _ _
  refine ⟨rfl, ?_, ⟨rfl, rfl, rfl⟩, fun other column => ?_⟩
  · have hput := @TabularWriter.Sound.put _ lib source w h _ _ hsound
    rwa [hself] at hput
  · have hput := @held_put _ source w w.files (w.files.current source) buf'
      (frameSamples frame.timestamps frame.columns) (fun column => by
        rw [hsamples column, append_assoc, TabularBuffer.samples, TabularBuffer.samples,
          (openRound_kept frame).1]) other column
    rw [hself] at hput
    exact hput

/-- **A frame that fits** loses nothing. -/
theorem TabularWriter.Sound.accumulateTabularFrame (h : w.Sound lib)
    (hfits : FrameFits (w.tabularBuffers source) frame) {due : Bool} {r : TabularWriter V × Bool}
    (hdone : w.accumulateTabularFrame lib mode source frame due = some r) :
    r.2 = true ∧ r.1.Sound lib ∧ w.SameWork r.1 ∧
      ∀ other column, r.1.held other column = w.held other column ++
        if source = other then frameSamples frame.timestamps frame.columns column else [] := by
  unfold TabularWriter.accumulateTabularFrame at hdone
  by_cases hcloses : (w.tabularBuffers source).closesRound frame = true
  · rw [if_pos hcloses] at hdone
    have hopens : (w.tabularBuffers source).opensRound frame = true := by
      simp [TabularBuffer.opensRound, hcloses]
    have hrows : (w.tabularBuffers source).rowCount ≠ 0 := by
      intro he
      simp [TabularBuffer.closesRound, he] at hcloses
    cases hflush : w.flush lib mode source due with
    | none =>
      rw [hflush] at hdone
      cases hdone
    | some r₁ =>
      obtain ⟨hok, hsound₁, hsame, hheld, hzero, hcolumns, hhas⟩ := h.flush hrows hflush
      obtain ⟨w₁, ok⟩ := r₁
      obtain rfl : ok = true := hok
      rw [hflush] at hdone
      obtain rfl := Option.some.inj hdone
      obtain ⟨hok, hsound, hsame', hheld'⟩ := hsound₁.accumulate (fun col hc hvalues =>
        (hfits.columns col hc hvalues).opened hvalues hopens (hsound₁.rounds source) hzero hcolumns
          (fun _ => Or.inr hcloses) hhas) hfits.distinct
      refine ⟨hok, hsound, ⟨hsame'.1.trans hsame.1, hsame'.2.1.trans hsame.2.1,
        hsame'.2.2.trans hsame.2.2⟩, fun other column => ?_⟩
      rw [hheld', hheld]
  · rw [if_neg hcloses] at hdone
    obtain rfl := Option.some.inj hdone
    refine h.accumulate (fun col hc hvalues => ?_) hfits.distinct
    by_cases hrows : (w.tabularBuffers source).rowCount = 0
    · have hopens : (w.tabularBuffers source).opensRound frame = true := by
        simp [TabularBuffer.opensRound, hrows]
      exact (hfits.columns col hc hvalues).opened hvalues hopens
        (h.rounds source) hrows (fun c hc => ⟨c, hc, rfl, rfl⟩) Or.inl fun _ => rfl
    · refine (hfits.columns col hc hvalues).joined ?_
      simpa [TabularBuffer.opensRound, hrows] using hcloses

end Writer

/-! ## 5. Runs -/

section Runs

variable {lib : TabularHdf5 V} {mode : HDF5Mode} {w w' : TabularWriter V}

theorem suppliedTo_append (source column : String) (a b : List (Supplied V)) :
    suppliedTo source column (a ++ b) =
      suppliedTo source column a ++ suppliedTo source column b := by
  simp [suppliedTo]

theorem suppliedTo_tagged (source column other name : String) (samples : List (Sample V)) :
    suppliedTo other name (samples.map fun s => ⟨source, column, s⟩) =
      if source = other ∧ column = name then samples else [] := by
  by_cases h : source = other ∧ column = name
  · simp [suppliedTo, filter_map, Function.comp_def, h]
  · simp only [suppliedTo, filter_map, Function.comp_def, h, decide_false, if_false]
    simp

theorem suppliedTo_frame (h : ∀ col ∈ frame.enumColumns, col.values = [])
    (source other column : String) : suppliedTo other column (frameSupplied source frame) =
      if source = other then frameSamples frame.timestamps frame.columns column else [] := by
  have henums : frame.enumColumns.flatMap (fun c =>
      (samplesOf frame.timestamps (c.values.map .enum)).map fun s =>
        (⟨source, c.name, s⟩ : Supplied V)) = [] := by
    rw [flatMap_eq_nil_iff]
    intro col hcol
    simp [h col hcol, samplesOf]
  rw [frameSupplied, henums, append_nil]
  induction frame.columns with
  | nil => simp [suppliedTo, frameSamples]
  | cons col cols ih =>
    rw [flatMap_cons, suppliedTo_append, suppliedTo_tagged, ih]
    by_cases hs : source = other
    · simp [hs, frameSamples]
    · simp [hs]

/-- What runs keep. -/
structure TabularWriter.RunSound (lib : TabularHdf5 V) (w : TabularWriter V) : Prop where
  sound : w.Sound lib
  lossless : ∀ source column, suppliedTo source column w.supplied = w.held source column ++
    suppliedTo source column (w.work.flatMap fun p => frameSupplied p.1 p.2)
  ended : w.stopped = true → w.work = [] ∧
    ∀ source column, (w.tabularBuffers source).samples column = []

theorem TabularWriter.RunSound.kept (h : w.RunSound lib) : w.Kept lib := by
  refine ⟨fun file hf source => ?_, fun source column => ?_⟩
  · rcases mem_append.mp hf with hf | hf
    · exact h.sound.closed file hf source
    · rw [mem_singleton.mp hf]
      obtain ⟨times, ht, -⟩ := (h.sound.rounds source).table
      exact ⟨times, ht⟩
  · rw [h.lossless source column, TabularWriter.held, TabularWriter.pending]
    cases hs : w.stopped with
    | false => simp
    | true =>
      obtain ⟨hwork, hempty⟩ := h.ended hs
      simp [hwork, hempty, suppliedTo]

theorem TabularWriter.RunSound.step (h : w.RunSound lib) {a : TabularAction V}
    (hok : fittingStep w a) (hstep : w.step lib mode a = some w') : w'.RunSound lib := by
  cases a with
  | batch source frames =>
    rw [TabularWriter.step] at hstep
    split at hstep
    · cases hstep
    · rename_i hready
      obtain rfl := Option.some.inj hstep
      simp only [Bool.or_eq_true, not_or, Bool.not_eq_true, Bool.not_eq_false',
        List.isEmpty_iff] at hready
      refine ⟨⟨h.sound.rounds, h.sound.closed⟩, fun other column => ?_, fun hs => ?_⟩
      · have hold := h.lossless other column
        rw [hready.2] at hold
        simp only [suppliedTo_append, hold, flatMap_map, flatMap_nil]
        simp [suppliedTo, TabularWriter.held]
      · exact absurd hs (by simp [hready.1])
  | frame due =>
    simp only [TabularWriter.step] at hstep
    cases hwork : w.work with
    | nil =>
      rw [hwork] at hstep
      cases hstep
    | cons p rest =>
      obtain ⟨source, frame⟩ := p
      rw [hwork] at hstep
      simp only at hstep
      have hfits := hok (source, frame) rest hwork
      cases hdone : w.accumulateTabularFrame lib mode source frame due with
      | none =>
        rw [hdone] at hstep
        cases hstep
      | some r =>
        obtain ⟨w₁, ok⟩ := r
        obtain ⟨hsucceeds, hsound, hsame, hheld⟩ := h.sound.accumulateTabularFrame hfits hdone
        obtain rfl : ok = true := hsucceeds
        rw [hdone] at hstep
        obtain rfl := Option.some.inj hstep
        refine ⟨⟨hsound.rounds, hsound.closed⟩, fun other column => ?_, fun hs => ?_⟩
        · have hold := h.lossless other column
          rw [hwork, flatMap_cons, suppliedTo_append, suppliedTo_frame hfits.enums,
            ← append_assoc, ← hheld other column, ← hsame.2.1] at hold
          exact hold
        · have hstopped : w.stopped = true := hsame.2.2.symm.trans hs
          rw [(h.ended hstopped).1] at hwork
          cases hwork
  | endOfBatch source frames due =>
    rw [TabularWriter.step] at hstep
    split at hstep
    · cases hstep
    · rename_i hready
      simp only [Bool.or_eq_true, not_or, Bool.not_eq_true] at hready
      have hnone : frames.flatMap (frameSupplied source) = [] := hok
      rw [hnone, append_nil] at hstep
      by_cases hrows : 0 < (w.tabularBuffers source).rowCount
      · rw [if_pos hrows] at hstep
        obtain ⟨r, hflush, rfl⟩ := Option.map_eq_some_iff.mp hstep
        obtain ⟨-, hsound, hsame, hheld, -⟩ := h.sound.flush (Nat.pos_iff_ne_zero.mp hrows) hflush
        refine ⟨hsound, fun other column => ?_, fun hs => ?_⟩
        · rw [hsame.2.1, hsame.1, hheld]
          exact h.lossless other column
        · rw [hsame.2.2, hready.1] at hs
          cases hs
      · rw [if_neg hrows] at hstep
        obtain rfl := Option.some.inj hstep
        exact h
  | flushAll =>
    obtain rfl := Option.some.inj hstep
    exact h
  | stop =>
    rw [TabularWriter.step] at hstep
    split at hstep
    · cases hstep
    · rename_i hready
      simp only [Bool.or_eq_true, not_or, Bool.not_eq_true, Bool.not_eq_false',
        List.isEmpty_iff] at hready
      obtain rfl := Option.some.inj hstep
      refine ⟨⟨h.sound.rounds, h.sound.closed⟩, h.lossless, fun _ =>
        ⟨hready.2, fun source column => ?_⟩⟩
      cases hfind : (w.tabularBuffers source).columns.find? fun c => c.name == column with
      | none => simp [TabularBuffer.samples, hfind]
      | some c =>
        have hempty := hok source c (List.mem_of_find?_eq_some hfind)
        simp [TabularBuffer.samples, hfind, hempty]

theorem runSound_empty (lib : TabularHdf5 V) : ({} : TabularWriter V).RunSound lib :=
  ⟨⟨fun _ => roundSound_empty lib, by simp⟩, fun _ _ => rfl, by simp⟩

/-- **Tables stay tables and nothing supplied is lost** in runs whose steps fit: at every state,
and after the stop too.  A frame that does not fit leaves a column of another length behind, and a
stop with values pending loses them, since the open round is never flushed (`tabular_not_kept`). -/
theorem tabular_kept (lib : TabularHdf5 V) (mode : HDF5Mode) (w : TabularWriter V)
    (hrun : Runs (TabularWriter.step lib mode) fittingStep {} w) : w.Kept lib :=
  (hrun.keeps (fun _ _ _ h hok hstep => h.step hok hstep) (runSound_empty lib)).kept

/-- A library that stores integers as they are and refuses rows of another type. -/
def plainTabular : TabularHdf5 Int := ⟨id, id, fun _ => 0, fun d _ => (d, false)⟩

/-- One row of two columns. -/
def rowFrame : DataBatch Int :=
  { timestamps := [⟨1, 0⟩]
    columns := [⟨"a", .scalar .int64 [10], []⟩, ⟨"b", .scalar .int64 [20], []⟩] }

theorem rowFrame_fits : FrameFits ({} : TabularBuffer Int) rowFrame where
  columns col hcol _ := by
    have htype : ∃ name value, col = ⟨name, .scalar .int64 [value], []⟩ ∧ name ≠ "" ∧
        name ∉ timeNames := by
      rcases mem_cons.mp hcol with rfl | hcol
      · exact ⟨"a", 10, rfl, by decide, by decide⟩
      · exact ⟨"b", 20, mem_singleton.mp hcol, by decide, by decide⟩
    obtain ⟨name, value, rfl, hname⟩ := htype
    have hopen : ¬ ((({} : TabularBuffer Int).schemaFixed = true) ∨
        ({} : TabularBuffer Int).closesRound rowFrame = true) := by decide
    exact ⟨hname, by simp [fieldType], by simp, fun h => absurd h hopen,
      ⟨Nat.le_refl _, suffix_rfl⟩, Or.inl rfl⟩
  distinct := by decide
  enums := by simp [rowFrame]

/-- A row whose round is closed by the end-of-batch marker is in the file after the stop. -/
theorem tabular_kept_row : ∃ w : TabularWriter Int, w.stopped = true ∧
    groupSamples (w.files.current "t") "b" = [⟨some ⟨1, 0⟩, .scalar 20⟩] ∧
    w.Kept plainTabular := by
  refine ⟨_, ?stopped, ?stored, tabular_kept plainTabular .merge _
    ((((Relation.ReflTransGen.refl.tail ⟨.batch "t" [rowFrame], trivial, rfl⟩).tail
      ⟨.frame false, ?fits, rfl⟩).tail ⟨.endOfBatch "t" [] false, rfl, rfl⟩).tail
      ⟨.stop, ?ended, rfl⟩)⟩
  case stopped => rfl
  case stored => rfl
  case fits =>
    intro p rest hwork
    obtain ⟨rfl, -⟩ := List.cons.inj hwork
    exact rowFrame_fits
  case ended =>
    intro source
    by_cases hs : source = "t"
    · subst hs
      decide
    · intro c hc
      simp [Function.update_of_ne hs] at hc

/-- **Not at the stop**: the open round is lost. -/
theorem tabular_not_kept : ¬ ∀ (lib : TabularHdf5 Int) (mode : HDF5Mode) (w : TabularWriter Int),
    Runs (TabularWriter.step lib mode) anyStep {} w → w.Kept lib := by
  intro hall
  obtain ⟨w, hrun, hstopped, hsupplied, hstored⟩ : ∃ w : TabularWriter Int,
      Runs (TabularWriter.step plainTabular .merge) anyStep {} w ∧ w.stopped = true ∧
        suppliedTo "t" "a" w.supplied ≠ [] ∧ fileSamples w.files "t" "a" = [] :=
    ⟨_, ((Relation.ReflTransGen.refl.tail ⟨.batch "t" [rowFrame], trivial, rfl⟩).tail
      ⟨.frame false, trivial, rfl⟩).tail ⟨.stop, trivial, rfl⟩, rfl, by decide, rfl⟩
  have hkept := (hall _ _ w hrun).lossless "t" "a"
  rw [hstopped, hstored] at hkept
  exact hsupplied hkept

end Runs

end MldpDriver.Writer
