/-
# The flush of a table

Every group of a tabular file should be a table: each column dataset has a row for each timestamp,
and a supplied value stands in the row of its own timestamp (`TableAligned`).
-/
import Mathlib.Data.List.Forall2
import MldpDriver.Writer.TabularBuffer

namespace MldpDriver.Writer

open Bus Lib.AppendTable List

variable {V : Type}

/-! ## 1. Tables -/

/-- The time datasets of a group. -/
def timeNames : List String := ["secondsPastEpoch", "nanoseconds"]

/-- A cell stores no sample but one of its time. -/
def StoresSample (lib : TabularHdf5 V) (type : FieldType) (cell : TabularCell V)
    (time : TimestampEntry) : Prop :=
  ∀ s, cell.sample = some s → s.time = some time ∧
    ∃ value, s.value = .scalar value ∧ cell.value = storedValue lib type value

/-- **A table over its timestamps**: the time datasets hold them, and each column has a row for each
of them, in which it stores no sample but one of that time. -/
structure TableAligned (lib : TabularHdf5 V) (group : TabularGroup V)
    (times : List TimestampEntry) : Prop where
  seconds : rowsOf group "secondsPastEpoch" = (secondsChunk lib times).rows
  nanoseconds : rowsOf group "nanoseconds" = (nanosecondsChunk lib times).rows
  column : ∀ name d, name ∉ timeNames → group name = some d →
    List.Forall₂ (StoresSample lib d.type) d.rows times

/-- The samples a group stores of a column. -/
def groupSamples (group : TabularGroup V) (column : String) : List (Sample V) :=
  (rowsOf group column).filterMap (·.sample)

/-- The samples in a buffer. -/
def TabularBuffer.samples (buf : TabularBuffer V) (column : String) : List (Sample V) :=
  (buf.columns.find? fun c => c.name == column).elim [] fun c => c.cells.filterMap (·.sample)

/-! ## 2. The invariant of a source

`RoundSound` is the invariant of a source: it links the buffer and the group in the open file.  A
flush moves the round from the one to the other and keeps the table (`RoundSound.flush`). -/

/-- What links the buffer of a source and its group in the open file. -/
structure RoundSound (lib : TabularHdf5 V) (group : TabularGroup V) (buf : TabularBuffer V) :
    Prop where
  names : (buf.columns.map (·.name)).Nodup
  notTimes : ∀ c ∈ buf.columns, c.name ∉ timeNames
  /-- Before the first flush nothing is written. -/
  fresh : buf.schemaFixed = false → ∀ k, group k = none
  known : ∀ k d, group k = some d → k ∈ timeNames ∨ ∃ c ∈ buf.columns, c.name = k
  typed : ∃ type : String → FieldType, (∀ k ∈ timeNames, type k = .int64) ∧
    (∀ c ∈ buf.columns, type c.name = c.type) ∧ ∀ k d, group k = some d → d.type = type k
  table : ∃ times, TableAligned lib group times ∧
    ∀ c ∈ buf.columns, (rowsOf group c.name).length = times.length
  /-- No columns and none to come, or each column has nothing or everything of the round. -/
  round : (buf.schemaFixed = true ∧ buf.columns = []) ∨
    (buf.times.length = buf.rowCount ∧ ∀ c ∈ buf.columns,
      c.cells = [] ∨ List.Forall₂ (StoresSample lib c.type) c.cells buf.times)

theorem tableAligned_empty (lib : TabularHdf5 V) :
    TableAligned lib (fun _ => none : TabularGroup V) [] :=
  ⟨rfl, rfl, fun _ _ _ h => by cases h⟩

theorem roundSound_empty (lib : TabularHdf5 V) :
    RoundSound lib (fun _ => none) ({} : TabularBuffer V) where
  names := nodup_nil
  notTimes := by simp
  fresh _ _ := rfl
  known _ _ h := by cases h
  typed := ⟨fun _ => .int64, by simp⟩
  table := ⟨[], tableAligned_empty lib, by simp⟩
  round := Or.inr ⟨rfl, by simp⟩

/-- **A rotation leaves an empty group.** -/
theorem RoundSound.rotated {lib : TabularHdf5 V} {group : TabularGroup V} {buf : TabularBuffer V}
    (h : RoundSound lib group buf) : RoundSound lib (fun _ => none) buf where
  names := h.names
  notTimes := h.notTimes
  fresh _ _ := rfl
  known _ _ h := by cases h
  typed := by
    obtain ⟨type, htimes, hcolumns, -⟩ := h.typed
    exact ⟨type, htimes, hcolumns, fun _ _ h => by cases h⟩
  table := ⟨[], tableAligned_empty lib, fun _ _ => rfl⟩
  round := h.round

/-! ## 3. The flush -/

section Flush

variable {lib : TabularHdf5 V} {group : TabularGroup V} {buf : TabularBuffer V}

/-- The chunks of a flush. -/
def flushChunks (lib : TabularHdf5 V) (buf : TabularBuffer V) :
    List (Chunk String FieldType (TabularCell V)) :=
  [secondsChunk lib buf.times, nanosecondsChunk lib buf.times] ++
    buf.columns.map fun c => (c.fill lib buf.rowCount).chunk buf.rowCount

variable {cs : List (TabularColumn V)}

theorem flushColumns_fits {nRows : Nat}
    (h : Fits group (cs.map fun c => (c.fill lib nRows).chunk nRows)) :
    flushColumns lib nRows group cs =
      ((appendAll lib.mismatch group (cs.map fun c => (c.fill lib nRows).chunk nRows)).1,
        cs.map (TabularColumn.fill lib nRows), true) := by
  induction cs generalizing group with
  | nil => rfl
  | cons c cs ih =>
    rw [map_cons] at h
    have hone := @appendChunk_fits _ _ _ _ _ lib.mismatch _ _ h.head
    simp only [flushColumns, map_cons, appendAll, hone, ih h.tail]

theorem chunkRows_columns (f : TabularColumn V → Chunk String FieldType (TabularCell V))
    (hf : ∀ c, (f c).key = c.name) (hnames : (cs.map (·.name)).Nodup) (name : String) :
    chunkRows name (cs.map f) =
      (cs.find? fun c => c.name == name).elim [] fun c => (f c).rows := by
  induction cs with
  | nil => rfl
  | cons c cs ih =>
    rw [map_cons, nodup_cons] at hnames
    rw [map_cons, chunkRows_cons, hf, ih hnames.2, List.find?_cons]
    by_cases hc : c.name = name
    · have hnone : cs.find? (fun c => c.name == name) = none := by
        rw [List.find?_eq_none]
        intro c' hc'
        have hne : c'.name ≠ name := fun he =>
          hnames.1 (mem_map.mpr ⟨c', hc', he.trans hc.symm⟩)
        simpa using hne
      simp [hc, hnone]
    · have hbeq : (c.name == name) = false := by simpa using hc
      simp [hc, hbeq]

variable {c : TabularColumn V}

theorem find_column (hnames : (cs.map (·.name)).Nodup) (hc : c ∈ cs) :
    cs.find? (fun c' => c'.name == c.name) = some c := by
  induction cs with
  | nil => cases hc
  | cons c' cs ih =>
    rw [map_cons, nodup_cons] at hnames
    rcases mem_cons.mp hc with rfl | hc
    · simp
    · have hne : c'.name ≠ c.name := fun he => hnames.1 (mem_map.mpr ⟨c, hc, he.symm⟩)
      rw [List.find?_cons_of_neg (by simpa using hne)]
      exact ih hnames.2 hc

theorem fillCells_samples (type : FieldType) (n : Nat) :
    (fillCells lib type n).filterMap (·.sample) = [] := by
  simp [fillCells]

theorem fillCells_stores (type : FieldType) (times : List TimestampEntry) :
    List.Forall₂ (StoresSample lib type) (fillCells lib type times.length) times := by
  induction times with
  | nil => exact List.Forall₂.nil
  | cons time times ih => exact List.Forall₂.cons (fun s hs => by cases hs) ih

variable {times : List TimestampEntry}

/-- **What a flush appends of a column**: a row for each timestamp, with the buffered samples. -/
theorem filled_rows {type : FieldType} {cells : List (TabularCell V)}
    (h : cells = [] ∨ List.Forall₂ (StoresSample lib type) cells times) :
    List.Forall₂ (StoresSample lib type)
        ((cells ++ fillCells lib type (times.length - cells.length)).take times.length) times ∧
      ((cells ++ fillCells lib type (times.length - cells.length)).take times.length).filterMap
        (·.sample) = cells.filterMap (·.sample) := by
  rcases h with rfl | h
  · have hfill : (([] : List (TabularCell V)) ++ fillCells lib type (times.length - 0)).take
        times.length = fillCells lib type times.length := by
      simp [fillCells]
    rw [length_nil, hfill]
    exact ⟨fillCells_stores _ _, fillCells_samples _ _⟩
  · have hrows : (cells ++ fillCells lib type (times.length - cells.length)).take times.length =
        cells := by
      simp [fillCells, ← h.length_eq]
    rw [hrows]
    exact ⟨h, rfl⟩

theorem resizeTimes_of_length {n : Nat} (h : times.length = n) :
    resizeTimes times n = times := by
  simp [resizeTimes, ← h]

theorem flushChunks_key {k : String} {c : Chunk String FieldType (TabularCell V)}
    (hc : c ∈ flushChunks lib buf) (hk : c.key = k) :
    k ∈ timeNames ∨ ∃ c ∈ buf.columns, c.name = k := by
  subst hk
  rcases mem_append.mp hc with hc | hc
  · left
    rcases mem_cons.mp hc with rfl | hc
    · exact mem_cons_self
    · rw [mem_singleton.mp hc]
      exact mem_cons_of_mem _ mem_cons_self
  · obtain ⟨c', hc', rfl⟩ := mem_map.mp hc
    exact Or.inr ⟨c', hc', rfl⟩

theorem flushChunks_rows (h : RoundSound lib group buf) (name : String) :
    chunkRows name (flushChunks lib buf) =
      (if name = "secondsPastEpoch" then (secondsChunk lib buf.times).rows else []) ++
      (if name = "nanoseconds" then (nanosecondsChunk lib buf.times).rows else []) ++
      (buf.columns.find? fun c => c.name == name).elim [] fun c =>
        ((c.fill lib buf.rowCount).chunk buf.rowCount).rows := by
  rw [flushChunks, chunkRows_append, chunkRows_columns _ (fun _ => rfl) h.names]
  congr 1
  rw [chunkRows_cons, chunkRows_cons, chunkRows_nil, append_nil]
  simp only [secondsChunk, nanosecondsChunk, eq_comm]

theorem find_timeName (h : RoundSound lib group buf) {name : String} (hname : name ∈ timeNames) :
    buf.columns.find? (fun c => c.name == name) = none := by
  rw [List.find?_eq_none]
  intro c hc
  have hne : c.name ≠ name := fun he => h.notTimes c hc (he ▸ hname)
  simpa using hne

theorem flushChunks_typed (h : RoundSound lib group buf) :
    ∃ type : String → FieldType, (∀ k ∈ timeNames, type k = .int64) ∧
      (∀ c ∈ buf.columns, type c.name = c.type) ∧ (∀ k d, group k = some d → d.type = type k) ∧
      ∀ c ∈ flushChunks lib buf, c.type = type c.key := by
  obtain ⟨type, htimes, hcolumns, hgroup⟩ := h.typed
  refine ⟨type, htimes, hcolumns, hgroup, fun c hc => ?_⟩
  rcases mem_append.mp hc with hc | hc
  · rcases mem_cons.mp hc with rfl | hc
    · exact (htimes _ (by simp [timeNames, secondsChunk])).symm
    · rw [mem_singleton.mp hc]
      exact (htimes _ (by simp [timeNames, nanosecondsChunk])).symm
  · obtain ⟨c', hc', rfl⟩ := mem_map.mp hc
    exact (hcolumns c' hc').symm

/-- The buffer after a flush. -/
def TabularBuffer.emptied (buf : TabularBuffer V) : TabularBuffer V :=
  { schemaFixed := true, columns := buf.columns.map fun c => { c with cells := [] } }

/-- The group after a flush. -/
def flushedGroup (lib : TabularHdf5 V) (buf : TabularBuffer V) (group : TabularGroup V) :
    TabularGroup V :=
  (appendAll lib.mismatch group (flushChunks lib buf)).1

theorem flush_of_typed {type : String → FieldType} (hrows : buf.rowCount ≠ 0)
    (hcolumns : buf.columns ≠ []) (hlength : buf.times.length = buf.rowCount)
    (hgroup : ∀ k d, group k = some d → d.type = type k)
    (hchunks : ∀ c ∈ flushChunks lib buf, c.type = type c.key) :
    buf.flush lib group = (flushedGroup lib buf group, buf.emptied, true) := by
  have hempty : buf.columns.isEmpty = false := by simpa using hcolumns
  rw [TabularBuffer.flush, if_neg hrows, hempty, resizeTimes_of_length hlength]
  have htimes : ∀ c ∈ [secondsChunk lib buf.times, nanosecondsChunk lib buf.times],
      c.type = type c.key := fun c hc => hchunks c (mem_append_left _ hc)
  have hok := (@appendAll_fits _ _ _ _ _ lib.mismatch _ _
    ⟨type, fun c hc => ⟨htimes c hc, fun d hd => hgroup _ d hd⟩⟩).1
  have hgroup' := @appendAll_typed _ _ _ _ _ lib.mismatch _ _ _ hgroup htimes
  rw [flushedGroup, flushChunks, appendAll_append, if_pos hok]
  simp only [Bool.false_eq_true, if_false]
  generalize appendAll lib.mismatch group
    [secondsChunk lib buf.times, nanosecondsChunk lib buf.times] = written at hok hgroup' ⊢
  obtain ⟨group', ok⟩ := written
  obtain rfl : ok = true := hok
  have hrest : flushColumns lib buf.rowCount group' buf.columns = _ := flushColumns_fits
    ⟨type, fun c hc => ⟨hchunks c (mem_append_right _ hc), fun d hd => hgroup' _ d hd⟩⟩
  simp only [hrest, TabularBuffer.emptied, map_map]
  rfl

theorem flush_eq (h : RoundSound lib group buf) (hrows : buf.rowCount ≠ 0)
    (hcolumns : buf.columns ≠ []) (hlength : buf.times.length = buf.rowCount) :
    buf.flush lib group = (flushedGroup lib buf group, buf.emptied, true) := by
  obtain ⟨type, -, -, hgroup, hchunks⟩ := flushChunks_typed h
  exact flush_of_typed hrows hcolumns hlength hgroup hchunks

theorem emptied_samples (buf : TabularBuffer V) (column : String) :
    buf.emptied.samples column = [] := by
  rw [TabularBuffer.samples, TabularBuffer.emptied, List.find?_map]
  cases buf.columns.find? _ <;> rfl

theorem emptied_hasColumn (buf : TabularBuffer V) (name : String) :
    buf.emptied.hasColumn name = buf.hasColumn name := by
  simp [TabularBuffer.hasColumn, TabularBuffer.emptied, any_map, Function.comp_def]

theorem flushedGroup_spec (h : RoundSound lib group buf) :
    (∀ name, rowsOf (flushedGroup lib buf group) name =
        rowsOf group name ++ chunkRows name (flushChunks lib buf)) ∧
      ∀ name, flushedGroup lib buf group name ≠ none ↔
        group name ≠ none ∨ ∃ c ∈ flushChunks lib buf, c.key = name := by
  obtain ⟨type, -, -, hgroup, hchunks⟩ := flushChunks_typed h
  exact (@appendAll_fits _ _ _ _ _ lib.mismatch _ _
    ⟨type, fun c hc => ⟨hchunks c hc, fun d hd => hgroup _ d hd⟩⟩).2

theorem flushedGroup_column (h : RoundSound lib group buf) (hc : c ∈ buf.columns) :
    rowsOf (flushedGroup lib buf group) c.name =
      rowsOf group c.name ++ ((c.fill lib buf.rowCount).chunk buf.rowCount).rows := by
  have hname := h.notTimes c hc
  have hs : c.name ≠ "secondsPastEpoch" := fun he => hname (by simp [he, timeNames])
  have hn : c.name ≠ "nanoseconds" := fun he => hname (by simp [he, timeNames])
  rw [(flushedGroup_spec h).1, flushChunks_rows h, find_column h.names hc, if_neg hs, if_neg hn]
  rfl

theorem RoundSound.rows (h : RoundSound lib group buf) (ht : TableAligned lib group times)
    (hlength : ∀ c ∈ buf.columns, (rowsOf group c.name).length = times.length)
    (hc : c ∈ buf.columns) :
    List.Forall₂ (StoresSample lib c.type) (rowsOf group c.name) times := by
  obtain ⟨type, -, hcolumns, hgroup⟩ := h.typed
  have hlen := hlength c hc
  cases hd : group c.name with
  | none =>
    have hnone : rowsOf group c.name = [] := by simp [rowsOf, hd]
    rw [hnone] at hlen ⊢
    obtain rfl := length_eq_zero_iff.mp hlen.symm
    exact List.Forall₂.nil
  | some d =>
    have hrows : rowsOf group c.name = d.rows := by simp [rowsOf, hd]
    rw [hrows, ← hcolumns c hc, ← hgroup _ d hd]
    exact ht.column _ d (h.notTimes c hc) hd

/-- **The table after a flush** has the timestamps of the round, too. -/
theorem flushedGroup_aligned (h : RoundSound lib group buf)
    (hlength : buf.times.length = buf.rowCount) (hround : ∀ c ∈ buf.columns,
      c.cells = [] ∨ List.Forall₂ (StoresSample lib c.type) c.cells buf.times)
    (ht : TableAligned lib group times)
    (hrows : ∀ c ∈ buf.columns, (rowsOf group c.name).length = times.length) :
    TableAligned lib (flushedGroup lib buf group) (times ++ buf.times) := by
  have hcolumn : ∀ c ∈ buf.columns, List.Forall₂ (StoresSample lib c.type)
      (rowsOf (flushedGroup lib buf group) c.name) (times ++ buf.times) := by
    intro c hc
    rw [flushedGroup_column h hc]
    have hnew := (filled_rows (hround c hc)).1
    rw [hlength] at hnew
    exact rel_append (h.rows ht hrows hc) hnew
  refine ⟨?_, ?_, fun name d hname hd => ?_⟩
  · rw [(flushedGroup_spec h).1, flushChunks_rows h, find_timeName h (by simp [timeNames]),
      ht.seconds]
    simp [secondsChunk]
  · rw [(flushedGroup_spec h).1, flushChunks_rows h, find_timeName h (by simp [timeNames]),
      ht.nanoseconds]
    simp [nanosecondsChunk]
  · obtain ⟨c, hc, rfl⟩ : ∃ c ∈ buf.columns, c.name = name := by
      rcases ((flushedGroup_spec h).2 name).mp (by simp [hd]) with hg | ⟨c, hc, hk⟩
      · obtain ⟨d₀, hd₀⟩ := Option.ne_none_iff_exists'.mp hg
        exact (h.known name d₀ hd₀).resolve_left hname
      · exact (flushChunks_key hc hk).resolve_left hname
    obtain ⟨type, -, hcolumns, hgroup, hchunks⟩ := flushChunks_typed h
    have htype := @appendAll_typed _ _ _ _ _ lib.mismatch _ _ _ hgroup hchunks c.name d hd
    have hd' : rowsOf (flushedGroup lib buf group) c.name = d.rows := by simp [rowsOf, hd]
    rw [htype, hcolumns c hc, ← hd']
    exact hcolumn c hc

theorem flushedGroup_samples (h : RoundSound lib group buf)
    (hlength : buf.times.length = buf.rowCount)
    (hround : ∀ c ∈ buf.columns,
      c.cells = [] ∨ List.Forall₂ (StoresSample lib c.type) c.cells buf.times) (column : String) :
    groupSamples (flushedGroup lib buf group) column =
      groupSamples group column ++ buf.samples column := by
  rw [groupSamples, (flushedGroup_spec h).1, filterMap_append, flushChunks_rows h]
  congr 1
  have htimes : ∀ name,
      (if column = name then (secondsChunk lib buf.times).rows else []).filterMap (·.sample) = [] ∧
      (if column = name then (nanosecondsChunk lib buf.times).rows else []).filterMap (·.sample) =
        [] := by
    intro name
    constructor <;> split <;> simp [secondsChunk, nanosecondsChunk, filterMap_map]
  rw [filterMap_append, filterMap_append, (htimes _).1, (htimes _).2,
    TabularBuffer.samples]
  cases hfind : buf.columns.find? fun c => c.name == column with
  | none => rfl
  | some c =>
    have hc := List.mem_of_find?_eq_some hfind
    have hnew := (filled_rows (hround c hc)).2
    rw [hlength] at hnew
    simpa [TabularColumn.chunk, TabularColumn.fill] using hnew

theorem flushedGroup_sound (h : RoundSound lib group buf)
    (hlength : buf.times.length = buf.rowCount)
    (hround : ∀ c ∈ buf.columns,
      c.cells = [] ∨ List.Forall₂ (StoresSample lib c.type) c.cells buf.times) :
    RoundSound lib (flushedGroup lib buf group) buf.emptied where
  names := by simpa [TabularBuffer.emptied, Function.comp_def] using h.names
  notTimes := by simpa [TabularBuffer.emptied] using h.notTimes
  fresh hf := by cases hf
  known name d hd := by
    have hcolumn : name ∈ timeNames ∨ ∃ c ∈ buf.columns, c.name = name := by
      rcases ((flushedGroup_spec h).2 name).mp (by simp [hd]) with hg | ⟨c, hc, hk⟩
      · obtain ⟨d₀, hd₀⟩ := Option.ne_none_iff_exists'.mp hg
        exact h.known name d₀ hd₀
      · exact flushChunks_key hc hk
    simpa [TabularBuffer.emptied] using hcolumn
  typed := by
    obtain ⟨type, htimes, hcolumns, hgroup, hchunks⟩ := flushChunks_typed h
    refine ⟨type, htimes, by simpa [TabularBuffer.emptied] using hcolumns, ?_⟩
    exact @appendAll_typed _ _ _ _ _ lib.mismatch _ _ _ hgroup hchunks
  table := by
    obtain ⟨times, ht, hrows⟩ := h.table
    refine ⟨times ++ buf.times, flushedGroup_aligned h hlength hround ht hrows, fun c' hc' => ?_⟩
    obtain ⟨c, hc, rfl⟩ := mem_map.mp hc'
    have hnew := (filled_rows (hround c hc)).1.length_eq
    rw [hlength] at hnew
    rw [flushedGroup_column h hc, length_append, length_append, hrows c hc, hlength]
    exact congrArg (times.length + ·) hnew
  round := by
    refine Or.inr ⟨rfl, fun c' hc' => Or.inl ?_⟩
    obtain ⟨c, -, rfl⟩ := mem_map.mp hc'
    rfl

/-- **A flush moves the round into the group.** -/
theorem RoundSound.flush (h : RoundSound lib group buf) (hrows : buf.rowCount ≠ 0) :
    ∃ group' buf', buf.flush lib group = (group', buf', true) ∧ RoundSound lib group' buf' ∧
      buf'.schemaFixed = true ∧ buf'.rowCount = 0 ∧
      (∀ c' ∈ buf'.columns, ∃ c ∈ buf.columns, c.name = c'.name ∧ c.type = c'.type) ∧
      (∀ name, buf'.hasColumn name = buf.hasColumn name) ∧
      ∀ column, groupSamples group' column = groupSamples group column ++ buf.samples column ∧
        buf'.samples column = [] := by
  by_cases hcolumns : buf.columns = []
  · -- no columns: the round is given up
    have hflush : buf.flush lib group =
        (group, { buf with schemaFixed := true, rowCount := 0 }, true) := by
      simp [TabularBuffer.flush, hrows, hcolumns]
    have hsound : RoundSound lib group { buf with schemaFixed := true, rowCount := 0 } :=
      ⟨h.names, h.notTimes, (by simp), h.known, h.typed, h.table,
        Or.inl ⟨rfl, hcolumns⟩⟩
    refine ⟨group, _, hflush, hsound, rfl, rfl, fun c hc => ⟨c, hc, rfl, rfl⟩, fun _ => rfl,
      fun column => ?_⟩
    simp [TabularBuffer.samples, hcolumns]
  · obtain ⟨hlength, hround⟩ := h.round.resolve_left fun hnone => hcolumns hnone.2
    refine ⟨_, _, flush_eq h hrows hcolumns hlength, flushedGroup_sound h hlength hround, rfl, rfl,
      fun c' hc' => ?_, emptied_hasColumn buf, fun column =>
        ⟨flushedGroup_samples h hlength hround column, emptied_samples buf column⟩⟩
    obtain ⟨c, hc, rfl⟩ := mem_map.mp hc'
    exact ⟨c, hc, rfl, rfl⟩

end Flush

end MldpDriver.Writer
