/-
# A flush that fails half way

A flush appends to `secondsPastEpoch`, to `nanoseconds` and to every column of the buffer, one after
the other.  Each append opens or creates the dataset, extends it and writes, and each of these may
throw.  Nothing is taken back then, and the buffer keeps the round for the next flush.
-/
import MldpDriver.Lib.TornAppend
import MldpDriver.Writer.TabularRounds

namespace MldpDriver.Writer

open Bus Lib.AppendTable Lib.TornAppend List

variable {V : Type}

/-! ## 1. The flush

`TabularBuffer.flushUnder` is the flush with a fault at any of the appends; without faults it is
the flush of `TabularBuffer.flush`. -/

/-- What happens at each append of a flush: the time datasets are 0 and 1, then the columns. -/
abbrev FlushFaults (V : Type) := Nat → Option (AppendFault (TabularCell V))

/-- The loop over the columns, up to an append that fails. -/
def flushColumnsUnder (lib : TabularHdf5 V) (faults : FlushFaults V) (nRows : Nat) :
    Nat → TabularGroup V → List (TabularColumn V) → TabularGroup V × List (TabularColumn V) × Bool
  | _, group, [] => (group, [], true)
  | i, group, c :: cs =>
    let c := c.fill lib nRows
    match appendUnder group (c.chunk nRows) (faults i) with
    | (group, true) =>
      let (group, cs, ok) := flushColumnsUnder lib faults nRows (i + 1) group cs
      (group, c :: cs, ok)
    | (group, false) => (group, c :: cs, false)

/-- `flushTabularBuffer`; `false` says that it threw. -/
def TabularBuffer.flushUnder (lib : TabularHdf5 V) (faults : FlushFaults V)
    (buf : TabularBuffer V) (group : TabularGroup V) : TabularGroup V × TabularBuffer V × Bool :=
  if buf.rowCount = 0 then (group, buf, true)
  else if buf.columns.isEmpty then (group, { buf with schemaFixed := true, rowCount := 0 }, true)
  else
    let times := resizeTimes buf.times buf.rowCount
    match appendAllUnder faults 0 group [secondsChunk lib times, nanosecondsChunk lib times] with
    | (group, false) => (group, { buf with schemaFixed := true, times }, false)
    | (group, true) =>
      match flushColumnsUnder lib faults buf.rowCount 2 group buf.columns with
      | (group, columns, false) => (group, { buf with schemaFixed := true, times, columns }, false)
      | (group, columns, true) =>
        (group,
          { schemaFixed := true, columns := columns.map fun c => { c with cells := [] } }, true)

/-! ## 2. Tables -/

/-- The datasets of the buffer, in the order of the flush. -/
def TabularBuffer.tableNames (buf : TabularBuffer V) : List String :=
  timeNames ++ buf.columns.map (·.name)

/-- **The group is a table**: it has the datasets of the buffer, and they have one length. -/
structure TableGroup (buf : TabularBuffer V) (group : TabularGroup V) : Prop where
  known : ∀ name, group name ≠ none → name ∈ buf.tableNames
  level : ∃ n, ∀ name ∈ buf.tableNames, (rowsOf group name).length = n

/-- The appends of the flush that extend their dataset name every dataset equally often. -/
def TabularBuffer.EvenlyFlushed (buf : TabularBuffer V) (faults : FlushFaults V) : Prop :=
  buf.rowCount = 0 ∨ buf.columns = [] ∨
    Evenly buf.tableNames (reach faults 0 buf.tableNames.length)

/-! ## 3. What a flush appends -/

section Flush

variable {lib : TabularHdf5 V} {faults : FlushFaults V} {group : TabularGroup V}
  {buf : TabularBuffer V}

/-- The chunks of a flush. -/
def roundChunks (lib : TabularHdf5 V) (buf : TabularBuffer V) :
    List (Chunk String FieldType (TabularCell V)) :=
  [secondsChunk lib (resizeTimes buf.times buf.rowCount),
    nanosecondsChunk lib (resizeTimes buf.times buf.rowCount)] ++
    buf.columns.map fun c => (c.fill lib buf.rowCount).chunk buf.rowCount

theorem roundChunks_keys : (roundChunks lib buf).map (·.key) = buf.tableNames := by
  simp [roundChunks, TabularBuffer.tableNames, timeNames, secondsChunk, nanosecondsChunk,
    TabularColumn.chunk, TabularColumn.fill, Function.comp_def]

theorem roundChunks_length {c : Chunk String FieldType (TabularCell V)}
    (hc : c ∈ roundChunks lib buf) : c.rows.length = buf.rowCount := by
  have htimes : (resizeTimes buf.times buf.rowCount).length = buf.rowCount := by
    simp only [resizeTimes, List.length_take, length_append, length_replicate]
    omega
  rcases mem_append.mp hc with hc | hc
  · rcases mem_cons.mp hc with rfl | hc
    · simpa [secondsChunk] using htimes
    · rw [mem_singleton.mp hc]
      simpa [nanosecondsChunk] using htimes
  · obtain ⟨c', -, rfl⟩ := mem_map.mp hc
    simp only [TabularColumn.chunk, TabularColumn.fill, fillCells, List.length_take,
      length_append, length_replicate]
    omega

theorem flushColumnsUnder_spec (nRows i : Nat) (group : TabularGroup V)
    (cs : List (TabularColumn V)) :
    (flushColumnsUnder lib faults nRows i group cs).1 =
        (appendAllUnder faults i group (cs.map fun c => (c.fill lib nRows).chunk nRows)).1 ∧
      (flushColumnsUnder lib faults nRows i group cs).2.1.map (·.name) = cs.map (·.name) := by
  induction cs generalizing i group with
  | nil => exact ⟨rfl, rfl⟩
  | cons c cs ih =>
    rw [map_cons, appendAllUnder, flushColumnsUnder]
    obtain ⟨group', ok⟩ := appendUnder group ((c.fill lib nRows).chunk nRows) (faults i)
    cases ok with
    | true => exact ⟨(ih (i + 1) group').1, by simpa [TabularColumn.fill] using (ih _ group').2⟩
    | false => exact ⟨rfl, by simp [TabularColumn.fill]⟩

/-- **A flush appends its chunks, up to the first that fails, and keeps the columns.** -/
theorem flushUnder_spec (hrows : buf.rowCount ≠ 0) (hcolumns : buf.columns ≠ []) :
    (buf.flushUnder lib faults group).1 =
        (appendAllUnder faults 0 group (roundChunks lib buf)).1 ∧
      (buf.flushUnder lib faults group).2.1.tableNames = buf.tableNames := by
  have hempty : buf.columns.isEmpty = false := by simpa using hcolumns
  rw [TabularBuffer.flushUnder, if_neg hrows, hempty, roundChunks, appendAllUnder_append]
  simp only [Bool.false_eq_true, if_false]
  generalize appendAllUnder faults 0 group
    [secondsChunk lib (resizeTimes buf.times buf.rowCount),
      nanosecondsChunk lib (resizeTimes buf.times buf.rowCount)] = written
  obtain ⟨group', ok⟩ := written
  cases ok with
  | false => exact ⟨rfl, rfl⟩
  | true =>
    obtain ⟨hgroup, hnames⟩ := @flushColumnsUnder_spec _ lib faults
      buf.rowCount 2 group' buf.columns
    simp only [if_true]
    generalize flushColumnsUnder lib faults buf.rowCount 2 group' buf.columns = rest
      at hgroup hnames ⊢
    obtain ⟨group'', columns, ok⟩ := rest
    cases ok with
    | true =>
      exact ⟨hgroup, by simpa [TabularBuffer.tableNames, Function.comp_def] using hnames⟩
    | false => exact ⟨hgroup, by simpa [TabularBuffer.tableNames] using hnames⟩

/-- **A table stays a table after a flush, whether it returns or throws, exactly when its appends
reach every dataset equally often**: with distinct names, when none does or all do.  Otherwise some
datasets have a row more, and the next flush puts its values beside other times. -/
theorem table_flushUnder_iff (lib : TabularHdf5 V) (faults : FlushFaults V)
    {buf : TabularBuffer V} {group : TabularGroup V} (h : TableGroup buf group) :
    TableGroup (buf.flushUnder lib faults group).2.1 (buf.flushUnder lib faults group).1 ↔
      buf.EvenlyFlushed faults := by
  by_cases hrows : buf.rowCount = 0
  · have hflush : buf.flushUnder lib faults group = (group, buf, true) := by
      rw [TabularBuffer.flushUnder, if_pos hrows]
    rw [hflush]
    exact iff_of_true h (.inl hrows)
  by_cases hcolumns : buf.columns = []
  · have hflush : buf.flushUnder lib faults group =
        (group, { buf with schemaFixed := true, rowCount := 0 }, true) := by
      simp [TabularBuffer.flushUnder, hrows, hcolumns]
    rw [hflush]
    exact iff_of_true ⟨h.known, h.level⟩ (.inr (.inl hcolumns))
  obtain ⟨hgroup, hnames⟩ := @flushUnder_spec _ lib faults group _ hrows
    hcolumns
  obtain ⟨n, hlevel⟩ := h.level
  have hlength : ∀ name ∈ buf.tableNames,
      (rowsOf (buf.flushUnder lib faults group).1 name).length = n + buf.rowCount *
        (buf.tableNames.take (reach faults 0 buf.tableNames.length)).count name := by
    intro name hname
    have hcount : (roundChunks lib buf).length = buf.tableNames.length := by
      rw [← @roundChunks_keys _ lib, length_map]
    rw [hgroup, length_appendAllUnder (fun _ hc => roundChunks_length hc), hlevel name hname,
      roundChunks_keys, hcount]
  constructor
  · rintro ⟨-, m, hm⟩
    refine .inr (.inr fun a ha b hb => ?_)
    rw [hnames] at hm
    have hab := (hlength a ha).symm.trans ((hm a ha).trans ((hm b hb).symm.trans (hlength b hb)))
    exact Nat.eq_of_mul_eq_mul_left (Nat.pos_of_ne_zero hrows) (Nat.add_left_cancel hab)
  · intro heven
    have heven := (heven.resolve_left hrows).resolve_left hcolumns
    refine ⟨fun name hname => ?_, ?_⟩
    · rw [hnames]
      by_contra hnot
      refine hname ?_
      rw [hgroup, appendAllUnder_of_notMem fun c hc hk => ?_]
      · exact Classical.byContradiction fun hsome => hnot (h.known name hsome)
      · rw [← @roundChunks_keys _ lib] at hnot
        exact hnot (hk ▸ mem_map_of_mem hc)
    · have hfirst : "secondsPastEpoch" ∈ buf.tableNames :=
        mem_append_left _ mem_cons_self
      refine ⟨(rowsOf (buf.flushUnder lib faults group).1 "secondsPastEpoch").length,
        fun name hname => ?_⟩
      rw [hnames] at hname
      rw [hlength name hname, hlength _ hfirst, heven name hname _ hfirst]

end Flush

/-! ## 4. One failure

`table_flushUnder_fails`: one failure, and from then on every value stands beside a wrong time. -/

/-- A round of one row with two columns. -/
def rowBuffer (time : Nat) (a b : Int) : TabularBuffer Int where
  columns := [⟨"a", .int64, [⟨a, some ⟨some ⟨time, 0⟩, .scalar a⟩⟩]⟩,
    ⟨"b", .int64, [⟨b, some ⟨some ⟨time, 0⟩, .scalar b⟩⟩]⟩]
  times := [⟨time, 0⟩]
  rowCount := 1
  roundFirstTs := time * 1000000000

theorem tableGroup_empty (buf : TabularBuffer V) : TableGroup buf (fun _ => none) where
  known := fun _ h => absurd rfl h
  level := ⟨0, fun _ _ => rfl⟩

theorem table_flushUnder_iff_row :
    TableGroup (rowBuffer 1 10 20) (fun _ => none) ∧
      TableGroup ((rowBuffer 1 10 20).flushUnder plainTabular (fun _ => none) fun _ => none).2.1
        ((rowBuffer 1 10 20).flushUnder plainTabular (fun _ => none) fun _ => none).1 :=
  ⟨tableGroup_empty _,
    (table_flushUnder_iff plainTabular (fun _ => none) (tableGroup_empty _)).mpr
      (.inr (.inr (by decide)))⟩

/-- The append to column "b" fails. -/
def lastFails : FlushFaults Int := fun i => if i = 3 then some .extending else none

/-- The group after the failing flush, the one after it, and the next round. -/
def tornGroups : TabularGroup Int × TabularGroup Int × TabularGroup Int :=
  let (torn, buf, _) := (rowBuffer 1 10 20).flushUnder plainTabular lastFails fun _ => none
  let (again, _, _) := buf.flushUnder plainTabular (fun _ => none) torn
  let (next, _, _) := (rowBuffer 2 11 21).flushUnder plainTabular (fun _ => none) again
  (torn, again, next)

/-- **One failing append**, and a later flush stores the value of time 2 beside time 1. -/
theorem table_flushUnder_fails :
    (TableGroup (rowBuffer 1 10 20) (fun _ => none) ∧
      ¬ TableGroup ((rowBuffer 1 10 20).flushUnder plainTabular lastFails fun _ => none).2.1
        ((rowBuffer 1 10 20).flushUnder plainTabular lastFails fun _ => none).1) ∧
    (rowsOf tornGroups.2.2 "secondsPastEpoch").map (·.value) = [1, 1, 2] ∧
    (rowsOf tornGroups.2.2 "b").map (·.value) = [20, 21] := by
  refine ⟨⟨tableGroup_empty _, fun h => ?_⟩, by decide +kernel, by decide +kernel⟩
  have heven := (table_flushUnder_iff plainTabular lastFails (tableGroup_empty _)).mp h
  exact absurd (heven.resolve_left (by decide)) (by decide)

end MldpDriver.Writer
