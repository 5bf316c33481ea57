/-
# The sliced and sharded window scan

A windowed scan of `mldp.time_series` asks the backend for one PV shard of one time slice at a
time.  `WindowBackendScanRecordBatchStream` does it as a stream: it prepares the shards of one
slice (`prepareNextSlice`), keeps several of them open, delivers their batches in order after
cutting them to the slice (`trim`), and moves on to the next slice when all are drained.

The backend takes whole seconds, so the request of a slice and the cut of its answer are
different intervals: the request is `[B, E]` with `B` and `E` truncated to seconds
(`sliceGroup`), the cut is by nanoseconds, half open except for the last slice of a window.

The stream is a state machine (`StreamState`, `nextStep`); `drain` runs it to its end.  The main
result of this module is what it delivers: `windowScan_eq` says that the run ends and returns, for
every number of shards kept open, the trimmed answers of the groups of `plannedGroups` in order.
Signed overflow in C++ is undefined, so a bound that leaves `int64_t` makes the run fail.
-/
import MldpDriver.Lib.Tiling
import MldpDriver.Query.Filter

namespace MldpDriver.Query

open List Option
open Lib (Binary64)
open Lib.Tiling (Piece evenPieces evenPiecesFrom evenPiece stepCount)
open Lib.Binary64 (toBinary64)

/-! ## 1. Samples and requests -/

/-- A row of `mldp.time_series`. -/
structure Sample where
  pv : String
  /-- Nanoseconds since the epoch. -/
  time : Int
  value : Cell
  columnType : String
  deriving DecidableEq

/-- The fields the decoder gives every long batch. -/
def timeSeriesFields : List (String × (Sample → Cell)) :=
  [("pv", fun s => .scalar (.string s.pv)), ("time", fun s => .scalar (.timestamp s.time)),
    ("value", fun s => s.value), ("column_type", fun s => .scalar (.string s.columnType))]

/-- An inclusive window `[begin, end]` in nanoseconds. -/
abbrev Window := Int × Int

def int64Min : Int := -2 ^ 63

def int64Max : Int := 2 ^ 63 - 1

/-- The result of a signed 64-bit operation; out of range the C++ behaviour is undefined. -/
def checked (n : Int) : Option Int := if int64Min ≤ n ∧ n ≤ int64Max then some n else none

structure WindowShardSpec where
  /-- Length of a time slice; 0 chooses one from the window. -/
  sliceNs : Int
  seriesPerShard : Nat

/-- The part of `plan::PhysicalTableScan` the window scan reads. -/
structure PhysicalTableScan where
  pushablePredicates : List Predicate
  windowShards : WindowShardSpec
  qualifyOutput : Bool
  tableAlias : String

/-- The PV names of the EQ and IN predicates, in order and with repetitions. -/
def requestedPvValues (predicates : List Predicate) : List String :=
  (predicates.filter fun p => p.column == "pv" && (p.op == .EQ || p.op == .IN)).flatMap fun p =>
    p.values.filterMap Literal.string?

/-- The pushed predicates without those on time and PV, which a shard replaces by its own. -/
def otherPredicates (predicates : List Predicate) : List Predicate :=
  predicates.filter fun p => !(p.column == "time" || p.column == "pv")

/-- The predicates of one backend request: a PV list and whole-second bounds. -/
def shardPredicates (others : List Predicate) (pvs : List String) (beginSeconds endSeconds : Int) :
    List Predicate :=
  others ++ [⟨"pv", .IN, pvs.map .string⟩, ⟨"time", .GTE, [.int64 beginSeconds]⟩,
    ⟨"time", .LTE, [.int64 endSeconds]⟩]

/-- The blocks of `seriesPerShard` names at the offsets `0, k, 2k, …` below the list's size. -/
def pvShards (seriesPerShard : Nat) (pvs : List String) : List (List String) :=
  (List.range ((pvs.length + seriesPerShard - 1) / seriesPerShard)).map fun m =>
    (pvs.drop (m * seriesPerShard)).take seriesPerShard

/-- `WindowBackendScanRecordBatchStream::Group`: one PV shard of one slice. -/
structure Group where
  index : Nat
  sliceIndex : Int
  seriesInShard : Nat
  beginSeconds : Int
  endSeconds : Int
  beginNs : Int
  endNs : Int
  finalSlice : Bool
  predicates : List Predicate

/-- The answers of the backend, one list of batches for each request.  The whole group is the
argument, so that two requests with equal predicates may be answered differently. -/
abbrev Answers := Group → List (RecordBatch Sample)

/-- The group of one PV shard of a slice; `shard` counts from 0. -/
def sliceGroup (scan : PhysicalTableScan) (window : Window) (slice : Piece Int)
    (pvs : List String) (shard : Nat) : Group :=
  { index := shard + 1
    sliceIndex := (slice.start - window.1).tdiv scan.windowShards.sliceNs + 1
    seriesInShard := pvs.length
    beginSeconds := slice.start.tdiv nsPerSecond
    endSeconds := slice.stop.tdiv nsPerSecond
    beginNs := slice.start
    endNs := slice.stop
    finalSlice := slice.last
    predicates := shardPredicates (otherPredicates scan.pushablePredicates) pvs
      (slice.start.tdiv nsPerSecond) (slice.stop.tdiv nsPerSecond) }

/-- The groups of one slice, one for each PV shard. -/
def sliceGroups (scan : PhysicalTableScan) (window : Window) (slice : Piece Int) : List Group :=
  (pvShards scan.windowShards.seriesPerShard
      (requestedPvValues scan.pushablePredicates)).zipIdx.map fun shard =>
    sliceGroup scan window slice shard.1 shard.2

/-- The bounds a delivered batch is cut to. -/
def trimPredicates (beginNs endNs : Int) (finalSlice : Bool) : List Predicate :=
  [⟨"time", .GTE, [.timestampNs beginNs]⟩,
    ⟨"time", if finalSlice then .LTE else .LT, [.timestampNs endNs]⟩]

/-- What `next()` does to a batch before it returns it. -/
def trim (scan : PhysicalTableScan) (group : Group) (batch : RecordBatch Sample) :
    RecordBatch Sample :=
  let filtered := applyFilter batch (trimPredicates group.beginNs group.endNs group.finalSlice)
  if scan.qualifyOutput then qualifyBatchColumns filtered scan.tableAlias else filtered

/-! ## 2. The stream -/

/-- The concurrency limits of a scan. -/
structure ScanLimits where
  /-- `queryable_->maxConcurrentStreams()`. -/
  maxConcurrentStreams : Nat
  /-- `context_.max_parallel_requests`; 0 is no limit. -/
  maxParallelRequests : Nat

/-- How many groups of a slice are started at once. -/
def ScanLimits.concurrency (limits : ScanLimits) (groups : Nat) : Nat :=
  let capability := max 1 limits.maxConcurrentStreams
  let requested :=
    if limits.maxParallelRequests = 0 then capability else min capability limits.maxParallelRequests
  min groups requested

/-- The stream's state.  `groups_` is cut at its two cursors: the groups from `group_index_` to
`next_group_to_start_` with what is left of their streams, and the groups not started. -/
structure StreamState where
  opened : List (Group × List (RecordBatch Sample))
  waiting : List Group
  window : Window
  sliceBegin : Int
  /-- The windows after the current one. -/
  later : List Window

/-- `slice_end_ns_`: the end of the window when less than a slice remains of it. -/
def sliceEnd (step : Int) (window : Window) (sliceBegin : Int) : Option Int := do
  let remaining ← checked (window.2 - sliceBegin)
  if remaining < step then some window.2 else checked (sliceBegin + step)

/-- `slice_begin_ns_` after a slice: one past the window after the final one. -/
def nextSliceBegin (window : Window) (sliceEnd : Int) : Option Int :=
  if sliceEnd = window.2 then checked (window.2 + 1) else some sliceEnd

/-- The second half of `prepareNextSlice`: the groups of the slice at `sliceBegin`, the first of
them started. -/
def prepareSlice (scan : PhysicalTableScan) (limits : ScanLimits) (answers : Answers)
    (window : Window) (sliceBegin : Int) (later : List Window) : Option StreamState := do
  let sliceEnd ← sliceEnd scan.windowShards.sliceNs window sliceBegin
  let groups := sliceGroups scan window ⟨sliceBegin, sliceEnd, sliceEnd == window.2⟩
  let started := limits.concurrency groups.length
  let next ← nextSliceBegin window sliceEnd
  some ⟨(groups.take started).map fun g => (g, answers g), groups.drop started, window, next, later⟩

/-- `prepareNextSlice`: skip to the next window while the current one is covered. -/
def prepareNextSlice (scan : PhysicalTableScan) (limits : ScanLimits) (answers : Answers)
    (window : Window) (sliceBegin : Int) : List Window → Option StreamState
  | [] =>
    if window.2 < sliceBegin then some ⟨[], [], window, sliceBegin, []⟩
    else prepareSlice scan limits answers window sliceBegin []
  | next :: rest =>
    if window.2 < sliceBegin then prepareNextSlice scan limits answers next next.1 rest
    else prepareSlice scan limits answers window sliceBegin (next :: rest)

/-- The outcome of one round of the loop of `next()`. -/
inductive Pull where
  /-- `nullptr`: the end of the stream. -/
  | eof
  /-- A group ended; the loop goes round. -/
  | skip (s : StreamState)
  | batch (b : RecordBatch Sample) (s : StreamState)
  /-- Arithmetic left `int64_t`. -/
  | fault

/-- One round of the loop of `next()`. -/
def nextStep (scan : PhysicalTableScan) (limits : ScanLimits) (answers : Answers)
    (s : StreamState) : Pull :=
  match s.opened with
  | [] => .eof
  | (_, []) :: rest =>
    -- the group is drained: start the next one that waits
    let opened := rest ++ (s.waiting.take 1).map fun g => (g, answers g)
    let waiting := s.waiting.drop 1
    if opened.isEmpty then
      match prepareNextSlice scan limits answers s.window s.sliceBegin s.later with
      | some s' => .skip s'
      | none => .fault
    else .skip { s with opened := opened, waiting := waiting }
  | (group, batch :: batches) :: rest =>
    .batch (trim scan group batch) { s with opened := (group, batches) :: rest }

/-- Run the stream to its end, at most `fuel` rounds. -/
def drain (scan : PhysicalTableScan) (limits : ScanLimits) (answers : Answers) :
    Nat → StreamState → Option (List (RecordBatch Sample))
  | 0, _ => none
  | fuel + 1, s =>
    match nextStep scan limits answers s with
    | .eof => some []
    | .skip s' => drain scan limits answers fuel s'
    | .batch b s' => (drain scan limits answers fuel s').map (b :: ·)
    | .fault => none

/-- The constructor: no window and no PV list are both refused. -/
def openStream (scan : PhysicalTableScan) (limits : ScanLimits) (answers : Answers)
    (windows : List Window) : Option StreamState :=
  match windows with
  | [] => none
  | window :: later =>
    if (requestedPvValues scan.pushablePredicates).isEmpty then none
    else prepareNextSlice scan limits answers window window.1 later

/-- A windowed scan over normalised windows: no window, no row. -/
def windowScan (scan : PhysicalTableScan) (limits : ScanLimits) (answers : Answers)
    (windows : List Window) (fuel : Nat) : Option (List (RecordBatch Sample)) :=
  if windows.isEmpty then some []
  else (openStream scan limits answers windows).bind (drain scan limits answers fuel)

/-! ## 3. What the stream delivers -/

/-- A window whose bounds are `int64_t` values in order, and on which the slice arithmetic stays
inside `int64_t`. -/
structure WindowOk (w : Window) : Prop where
  lower : int64Min ≤ w.1
  le : w.1 ≤ w.2
  length : w.2 - w.1 ≤ int64Max
  upper : w.2 < int64Max

/-- The groups of a window from slice `i` on, then those of the later windows. -/
def groupsFrom (scan : PhysicalTableScan) (window : Window) (i : Nat) (later : List Window) :
    List Group :=
  (evenPiecesFrom window.1 window.2 scan.windowShards.sliceNs i).flatMap (sliceGroups scan window)
    ++ later.flatMap fun w =>
      (evenPieces w.1 w.2 scan.windowShards.sliceNs).flatMap (sliceGroups scan w)

/-- All groups of a scan, in the order of windows, slices and shards. -/
def plannedGroups (scan : PhysicalTableScan) (windows : List Window) : List Group :=
  windows.flatMap fun w =>
    (evenPieces w.1 w.2 scan.windowShards.sliceNs).flatMap (sliceGroups scan w)

/-- The batches a group contributes. -/
def delivered (scan : PhysicalTableScan) (answers : Answers) (group : Group) :
    List (RecordBatch Sample) :=
  (answers group).map (trim scan group)

/-- `slice_begin_ns_` before slice `i`; past the last slice it is one past the window. -/
def sliceStart (step : Int) (w : Window) (i : Nat) : Int :=
  if i < stepCount (w.2 - w.1) step then w.1 + i * step else w.2 + 1

variable {scan : PhysicalTableScan}
variable {w : Window}
variable {later : List Window}
variable {i : Nat}

theorem groupsFrom_covered (h : stepCount (w.2 - w.1) scan.windowShards.sliceNs ≤ i) :
    groupsFrom scan w i later = plannedGroups scan later := by
  simp only [groupsFrom, Lib.Tiling.evenPiecesFrom_nil h, plannedGroups, flatMap_nil,
    nil_append]

theorem groupsFrom_slice (h : i < stepCount (w.2 - w.1) scan.windowShards.sliceNs) :
    groupsFrom scan w i later =
      sliceGroups scan w (evenPiece w.1 w.2 scan.windowShards.sliceNs i)
        ++ groupsFrom scan w (i + 1) later := by
  simp only [groupsFrom, Lib.Tiling.evenPiecesFrom_cons h, flatMap_cons, append_assoc]

theorem checked_eq {n : Int} (hlo : int64Min ≤ n) (hhi : n ≤ int64Max) : checked n = some n :=
  if_pos ⟨hlo, hhi⟩

theorem checked_some {n m : Int} (h : checked n = some m) : m = n ∧ n ≤ int64Max := by
  unfold checked at h
  split at h
  · rename_i hn
    exact ⟨(some.inj h).symm, hn.2⟩
  · simp at h

/-- Slice `i` of a window starts inside it. -/
theorem slice_start_le {step : Int} (hs : 0 < step) (hle : w.1 ≤ w.2)
    (hi : i < stepCount (w.2 - w.1) step) : w.1 + i * step ≤ w.2 := by
  rcases Lib.Tiling.lt_of_lt_stepCount hs hi with h0 | h0
  · subst h0; simpa using hle
  · omega

section Slice

variable {step : Int} {w : Window} (hw : WindowOk w) (hs : 0 < step) {i : Nat}
  (hi : i < stepCount (w.2 - w.1) step)

include hw hs hi

/-- Slice `i` ends where piece `i` of the cut of the window ends. -/
theorem sliceEnd_eq :
    sliceEnd step w (w.1 + i * step) = some (evenPiece w.1 w.2 step i).stop := by
  have hstart := slice_start_le hs hw.le hi
  have hlast := Lib.Tiling.succ_eq_stepCount_iff hs hi
  have hlo := hw.lower
  have hlen := hw.length
  have hhi := hw.upper
  have hmul : 0 ≤ (i : Int) * step := mul_nonneg (Int.natCast_nonneg i) (le_of_lt hs)
  have hsucc : (i + 1 : Int) * step = i * step + step := by ring
  rw [hsucc] at hlast
  have hrem : checked (w.2 - (w.1 + i * step)) = some (w.2 - (w.1 + i * step)) := by
    refine checked_eq ?_ ?_ <;> unfold int64Min int64Max at * <;> omega
  unfold sliceEnd evenPiece
  rw [hrem, bind_eq_bind, bind_some]
  split <;> split
  · rfl
  · rename_i h1 h2
    exact absurd (hlast.mpr (by omega)) h2
  · -- exactly a slice remains: both formulas give the end of the window
    rename_i h1 h2
    have := hlast.mp h2
    rw [checked_eq (by unfold int64Min at *; omega) (by unfold int64Max at *; omega)]
    simp only [Option.some.injEq]
    omega
  · rw [checked_eq (by unfold int64Min at *; omega) (by unfold int64Max at *; omega)]
    simp only [hsucc, Option.some.injEq]
    omega

omit hw in
/-- Slice `i` is the final one exactly when its end is the end of the window. -/
theorem stop_eq_iff : (evenPiece w.1 w.2 step i).stop = w.2 ↔
    i + 1 = stepCount (w.2 - w.1) step := by
  have hlast := Lib.Tiling.succ_eq_stepCount_iff hs hi
  unfold evenPiece
  split
  · simp [*]
  · simp only
    omega

omit hw in
theorem evenPiece_eq : (⟨w.1 + i * step, (evenPiece w.1 w.2 step i).stop,
    (evenPiece w.1 w.2 step i).stop == w.2⟩ : Piece Int) = evenPiece w.1 w.2 step i := by
  have hstop := stop_eq_iff hs hi
  by_cases h : i + 1 = stepCount (w.2 - w.1) step
  · simp [evenPiece, h]
  · have hne := fun hc => h (hstop.mp hc)
    have hf : ((evenPiece w.1 w.2 step i).stop == w.2) = false := beq_eq_false_iff_ne.mpr hne
    rw [hf]
    simp only [evenPiece, if_neg h]

theorem nextSliceBegin_eq :
    nextSliceBegin w (evenPiece w.1 w.2 step i).stop = some (sliceStart step w (i + 1)) := by
  have hstop := stop_eq_iff hs hi
  have hhi := hw.upper
  have hle := hw.le
  have hlo := hw.lower
  unfold nextSliceBegin sliceStart
  by_cases h : i + 1 = stepCount (w.2 - w.1) step
  · rw [if_pos (hstop.mpr h), if_neg (by omega)]
    refine checked_eq ?_ ?_ <;> unfold int64Min int64Max at * <;> omega
  · rw [if_neg (fun hc => h (hstop.mp hc)), if_pos (by omega)]
    simp only [evenPiece, if_neg h]
    push_cast
    rfl

end Slice

/-- **One slice of the loop**: the arithmetic of `prepareNextSlice` produces piece `i` of the cut
of the window. -/
theorem prepareSlice_eq (limits : ScanLimits) (answers : Answers) (hw : WindowOk w)
    (hs : 0 < scan.windowShards.sliceNs) (hi : i < stepCount (w.2 - w.1) scan.windowShards.sliceNs)
    (later : List Window) :
    let groups := sliceGroups scan w (evenPiece w.1 w.2 scan.windowShards.sliceNs i)
    prepareSlice scan limits answers w (w.1 + i * scan.windowShards.sliceNs) later =
      some ⟨(groups.take (limits.concurrency groups.length)).map fun g => (g, answers g),
        groups.drop (limits.concurrency groups.length), w,
        sliceStart scan.windowShards.sliceNs w (i + 1), later⟩ := by
  simp only [prepareSlice, sliceEnd_eq hw hs hi, bind_eq_bind, bind_some,
    nextSliceBegin_eq hw hs hi, evenPiece_eq hs hi]

theorem pvShards_ne_nil {k : Nat} (hk : 0 < k) {pvs : List String} (h : pvs ≠ []) :
    pvShards k pvs ≠ [] := by
  have hlen : 0 < pvs.length := length_pos_iff.mpr h
  have : 0 < (pvs.length + k - 1) / k := Nat.div_pos (by omega) hk
  simp only [pvShards, ne_eq, map_eq_nil_iff, range_eq_nil]
  omega

theorem sliceGroups_ne_nil (hk : 0 < scan.windowShards.seriesPerShard)
    (hpv : requestedPvValues scan.pushablePredicates ≠ []) (w : Window) (slice : Piece Int) :
    sliceGroups scan w slice ≠ [] := by
  simp only [sliceGroups, ne_eq, map_eq_nil_iff, zipIdx_eq_nil_iff]
  exact pvShards_ne_nil hk hpv

theorem ScanLimits.concurrency_pos (limits : ScanLimits) {groups : Nat} (h : 0 < groups) :
    0 < limits.concurrency groups := by
  simp only [ScanLimits.concurrency]
  split <;> omega

/-- `fut` are the groups the stream still has to prepare. -/
def Ahead (scan : PhysicalTableScan) (w : Window) (sliceBegin : Int) (later : List Window)
    (fut : List Group) : Prop :=
  ∃ i, sliceBegin = sliceStart scan.windowShards.sliceNs w i ∧ WindowOk w ∧
    (∀ v ∈ later, WindowOk v) ∧ fut = groupsFrom scan w i later

theorem sliceStart_zero (step : Int) (w : Window) : sliceStart step w 0 = w.1 := by
  unfold sliceStart
  rw [if_pos (Lib.Tiling.stepCount_pos _ _)]
  simp

theorem Ahead.start (hw : WindowOk w) (hl : ∀ v ∈ later, WindowOk v) :
    Ahead scan w w.1 later (plannedGroups scan (w :: later)) :=
  ⟨0, (sliceStart_zero _ _).symm, hw, hl, rfl⟩

variable {windows : List Window}

section Drain

variable {scan : PhysicalTableScan} (limits : ScanLimits) (answers : Answers)

/-- A group with its whole answer still to come. -/
abbrev fresh (g : Group) : Group × List (RecordBatch Sample) := (g, answers g)

variable (hs : 0 < scan.windowShards.sliceNs) (hk : 0 < scan.windowShards.seriesPerShard)
  (hpv : requestedPvValues scan.pushablePredicates ≠ [])

include hs hk hpv

omit hs hk hpv in
theorem prepareNextSlice_inside {sliceBegin : Int} (h : sliceBegin ≤ w.2) (later : List Window) :
    prepareNextSlice scan limits answers w sliceBegin later =
      prepareSlice scan limits answers w sliceBegin later := by
  cases later <;> simp only [prepareNextSlice, if_neg (not_lt.mpr h)]

omit hk hpv in
theorem prepareNextSlice_slice (hw : WindowOk w)
    (hi : i < stepCount (w.2 - w.1) scan.windowShards.sliceNs) (later : List Window) :
    let groups := sliceGroups scan w (evenPiece w.1 w.2 scan.windowShards.sliceNs i)
    prepareNextSlice scan limits answers w (sliceStart scan.windowShards.sliceNs w i) later =
      some ⟨(groups.take (limits.concurrency groups.length)).map (fresh answers),
        groups.drop (limits.concurrency groups.length), w,
        sliceStart scan.windowShards.sliceNs w (i + 1), later⟩ := by
  rw [sliceStart, if_pos hi, prepareNextSlice_inside _ _ (slice_start_le hs hw.le hi)]
  exact prepareSlice_eq limits answers hw hs hi later

/-- **The next slice is prepared**, whatever windows have to be skipped first: its groups are the
next ones ahead, at least one is started, and none is prepared only when none is ahead. -/
theorem prepareNextSlice_spec : ∀ (later : List Window) (w : Window) (sliceBegin : Int)
    (fut : List Group), Ahead scan w sliceBegin later fut →
    ∃ s gs fut', prepareNextSlice scan limits answers w sliceBegin later = some s ∧
      fut = gs ++ fut' ∧ Ahead scan s.window s.sliceBegin s.later fut' ∧
      s.opened = (gs.take (limits.concurrency gs.length)).map (fresh answers) ∧
      s.waiting = gs.drop (limits.concurrency gs.length) ∧ (gs = [] → fut' = []) := by
  intro later w _ fut hahead
  obtain ⟨i, rfl, hw, hl, rfl⟩ := hahead
  by_cases hi : i < stepCount (w.2 - w.1) scan.windowShards.sliceNs
  · exact ⟨_, _, groupsFrom scan w (i + 1) later,
      prepareNextSlice_slice limits answers hs hw hi later, groupsFrom_slice hi,
      ⟨i + 1, rfl, hw, hl, rfl⟩, rfl, rfl, fun h => absurd h (sliceGroups_ne_nil hk hpv _ _)⟩
  · -- the window is covered
    have hpast : w.2 < sliceStart scan.windowShards.sliceNs w i := by
      rw [sliceStart, if_neg hi]
      omega
    rw [groupsFrom_covered (not_lt.mp hi)]
    cases later with
    | nil =>
      have heof : prepareNextSlice scan limits answers w (sliceStart scan.windowShards.sliceNs w i) []
          = some ⟨[], [], w, sliceStart scan.windowShards.sliceNs w i, []⟩ := by
        simp only [prepareNextSlice, if_pos hpast]
      have hnone : groupsFrom scan w i [] = [] := groupsFrom_covered (not_lt.mp hi)
      exact ⟨_, [], [], heof, rfl, ⟨i, rfl, hw, hl, hnone.symm⟩, rfl, rfl, fun _ => rfl⟩
    | cons next rest =>
      have hstart : Ahead scan next next.1 rest _ :=
        Ahead.start (hl next mem_cons_self) fun v hv => hl v (mem_cons_of_mem _ hv)
      simp only [prepareNextSlice, if_pos hpast]
      exact prepareNextSlice_spec rest next next.1 _ hstart

/-- **The run from a state with a group open.**  What is left of that group comes first, then the
other groups in order, however many of them are started already. -/
theorem drain_opened : ∀ (work gs₁ gs₂ fut : List Group) (g : Group)
    (bs : List (RecordBatch Sample)) (s : StreamState), work = gs₁ ++ gs₂ ++ fut →
    s.opened = (g, bs) :: gs₁.map (fresh answers) → s.waiting = gs₂ →
    Ahead scan s.window s.sliceBegin s.later fut →
    ∃ fuel, drain scan limits answers fuel s =
      some (bs.map (trim scan g) ++ work.flatMap (delivered scan answers)) := by
  intro work
  induction hn : work.length using Nat.strong_induction_on generalizing work with
  | _ n ih =>
  intro gs₁ gs₂ fut g bs
  induction bs with
  | cons b bs ihb =>
    intro s hwork hop hwt hahead
    obtain ⟨fuel, hf⟩ := ihb { s with opened := (g, bs) :: gs₁.map (fresh answers) } hwork rfl
      hwt hahead
    exact ⟨fuel + 1, by simp [drain, nextStep, hop, hf]⟩
  | nil =>
    intro s hwork hop hwt hahead
    simp only [map_nil, nil_append]
    by_cases hrest : gs₁ ++ gs₂.take 1 = []
    · -- the slice is drained: prepare the next one
      obtain ⟨h1, h2⟩ := append_eq_nil_iff.mp hrest
      have h2' : gs₂ = [] := by
        cases gs₂ with
        | nil => rfl
        | cons a l => simp at h2
      subst h1 h2'
      obtain ⟨s', gs, fut', hprep, hsplit, hahead', hop', hwt', hnil⟩ :=
        prepareNextSlice_spec limits answers hs hk hpv s.later s.window s.sliceBegin fut hahead
      have hstep : nextStep scan limits answers s = .skip s' := by
        simp [nextStep, hop, hwt, hprep]
      simp only [nil_append] at hwork
      cases gs with
      | nil =>
        have hf' := hnil rfl
        subst hf'
        rw [nil_append] at hsplit
        refine ⟨2, ?_⟩
        simp only [drain, hstep]
        simp [nextStep, hop', hwork, hsplit]
      | cons g' gs' =>
        have hpos : 0 < limits.concurrency (g' :: gs').length :=
          limits.concurrency_pos (Nat.succ_pos _)
        obtain ⟨c, hc⟩ : ∃ c, limits.concurrency (g' :: gs').length = c + 1 :=
          ⟨_, (Nat.succ_pred (by omega)).symm⟩
        rw [hc] at hop' hwt'
        have hw' : work = g' :: (gs' ++ fut') := by rw [hwork, hsplit]; rfl
        obtain ⟨fuel, hf⟩ := ih (gs' ++ fut').length (by rw [← hn, hw']; simp) (gs' ++ fut') rfl
          (gs'.take c) (gs'.drop c) fut' g' (answers g') s'
          (by rw [take_append_drop]) (by simpa using hop') (by simpa using hwt') hahead'
        refine ⟨fuel + 1, ?_⟩
        simp only [drain, hstep, hf, hw', flatMap_cons, delivered]
    · -- another group of the slice is open, or opened now
      obtain ⟨g', gs', hg⟩ : ∃ g' gs', gs₁ ++ gs₂.take 1 = g' :: gs' := by
        cases h : gs₁ ++ gs₂.take 1 with
        | nil => exact absurd h hrest
        | cons a l => exact ⟨a, l, rfl⟩
      have hw' : work = g' :: (gs' ++ gs₂.drop 1 ++ fut) := by
        calc work = gs₁ ++ (gs₂.take 1 ++ gs₂.drop 1) ++ fut := by rw [take_append_drop, hwork]
          _ = (gs₁ ++ gs₂.take 1) ++ gs₂.drop 1 ++ fut := by simp only [append_assoc]
          _ = g' :: (gs' ++ gs₂.drop 1 ++ fut) := by rw [hg]; rfl
      have hopened : gs₁.map (fresh answers) ++ (gs₂.take 1).map (fresh answers) =
          (g', answers g') :: gs'.map (fresh answers) := by
        rw [← map_append, hg, map_cons]
      have hstep : nextStep scan limits answers s =
          .skip { s with opened := (g', answers g') :: gs'.map (fresh answers),
                         waiting := gs₂.drop 1 } := by
        simp only [nextStep, hop, hwt]
        rw [hopened]
        simp
      obtain ⟨fuel, hf⟩ := ih (gs' ++ gs₂.drop 1 ++ fut).length (by rw [← hn, hw']; simp) _ rfl
        gs' (gs₂.drop 1) fut g' (answers g')
        { s with opened := (g', answers g') :: gs'.map (fresh answers), waiting := gs₂.drop 1 }
        rfl rfl rfl hahead
      refine ⟨fuel + 1, ?_⟩
      simp only [drain, hstep, hf, hw', flatMap_cons, delivered]

/-- **What a windowed scan delivers.**  Over windows on which the arithmetic stays in range the
run ends, and its output is the trimmed answers of the planned groups in order, whatever the
limits on parallel requests. -/
theorem windowScan_eq (hw : ∀ w ∈ windows, WindowOk w) :
    ∃ fuel, windowScan scan limits answers windows fuel =
      some ((plannedGroups scan windows).flatMap (delivered scan answers)) := by
  cases windows with
  | nil => exact ⟨0, rfl⟩
  | cons w later =>
    have hahead : Ahead scan w w.1 later _ :=
      Ahead.start (hw w mem_cons_self) fun v hv => hw v (mem_cons_of_mem _ hv)
    obtain ⟨s, gs, fut, hprep, hsplit, hahead', hop, hwt, hnil⟩ :=
      prepareNextSlice_spec limits answers hs hk hpv later w w.1 _ hahead
    have hopen : openStream scan limits answers (w :: later) = some s := by
      simp only [openStream, List.isEmpty_iff, hpv, if_false, hprep]
    have hscan : ∀ fuel, windowScan scan limits answers (w :: later) fuel =
        drain scan limits answers fuel s := by
      intro fuel
      simp [windowScan, hopen]
    cases gs with
    | nil =>
      have hf' := hnil rfl
      subst hf'
      refine ⟨1, ?_⟩
      rw [hscan, hsplit]
      simp [drain, nextStep, hop]
    | cons g gs' =>
      have hpos : 0 < limits.concurrency (g :: gs').length :=
        limits.concurrency_pos (Nat.succ_pos _)
      obtain ⟨c, hc⟩ : ∃ c, limits.concurrency (g :: gs').length = c + 1 :=
        ⟨_, (Nat.succ_pred (by omega)).symm⟩
      rw [hc] at hop hwt
      obtain ⟨fuel, hf⟩ := drain_opened limits answers hs hk hpv (gs' ++ fut) (gs'.take c)
        (gs'.drop c) fut g (answers g) s (by rw [take_append_drop]) (by simpa using hop)
        (by simpa using hwt) hahead'
      refine ⟨fuel, ?_⟩
      rw [hscan, hf, hsplit]
      simp only [cons_append, flatMap_cons, delivered]

end Drain

/-! ## 4. The converse: a run that ends had no overflow -/

section Converse

variable {scan : PhysicalTableScan} {limits : ScanLimits} {answers : Answers}

theorem drain_succ : ∀ {fuel : Nat} {s : StreamState} {out : List (RecordBatch Sample)},
    drain scan limits answers fuel s = some out → drain scan limits answers (fuel + 1) s = some out
  | 0, _, _, h => by simp [drain] at h
  | fuel + 1, s, out, h => by
    simp only [drain] at h
    unfold drain
    cases hstep : nextStep scan limits answers s with
    | eof => simpa [hstep] using h
    | fault => simp [hstep] at h
    | skip s' =>
      rw [hstep] at h
      exact drain_succ h
    | batch b s' =>
      rw [hstep] at h
      obtain ⟨rest, hrest, rfl⟩ := map_eq_some_iff.mp h
      simp only [drain_succ hrest, map_some]

theorem drain_add {fuel : Nat} {s : StreamState} {out : List (RecordBatch Sample)}
    (h : drain scan limits answers fuel s = some out) (k : Nat) :
    drain scan limits answers (fuel + k) s = some out := by
  induction k with
  | zero => exact h
  | succ k ih => exact drain_succ ih

theorem windowScan_unique {m n : Nat} {a b : List (RecordBatch Sample)}
    (ha : windowScan scan limits answers windows m = some a)
    (hb : windowScan scan limits answers windows n = some b) : a = b := by
  unfold windowScan at ha hb
  split at ha
  · rename_i he
    rw [if_pos he] at hb
    exact (some.inj ha).symm.trans (some.inj hb)
  · rename_i he
    rw [if_neg he] at hb
    obtain ⟨s, hs, ha⟩ := bind_eq_some_iff.mp ha
    obtain ⟨s', hs', hb⟩ := bind_eq_some_iff.mp hb
    obtain rfl := some.inj (hs.symm.trans hs')
    have ha' := drain_add ha n
    have hb' := drain_add hb m
    rw [Nat.add_comm] at hb'
    exact some.inj (ha'.symm.trans hb')

/-- What is ahead of a position lies below the end of `int64_t`. -/
def InRangeAhead (w : Window) (sliceBegin : Int) (later : List Window) : Prop :=
  (sliceBegin ≤ w.2 → w.2 - sliceBegin ≤ int64Max ∧ w.2 < int64Max) ∧
    ∀ v ∈ later, v.2 - v.1 ≤ int64Max ∧ v.2 < int64Max

/-- No group is open only when nothing is ahead. -/
def StreamState.Idle (s : StreamState) : Prop :=
  s.opened = [] → s.window.2 < s.sliceBegin ∧ s.later = []

theorem sliceEnd_some {step : Int} {sliceBegin e : Int} (h : sliceEnd step w sliceBegin = some e) :
    w.2 - sliceBegin ≤ int64Max ∧ e ≤ w.2 := by
  unfold sliceEnd at h
  obtain ⟨r, hr, h⟩ := bind_eq_some_iff.mp h
  obtain ⟨rfl, hmax⟩ := checked_some hr
  split at h
  · obtain rfl := some.inj h
    exact ⟨hmax, le_refl _⟩
  · obtain ⟨rfl, -⟩ := checked_some h
    exact ⟨hmax, by omega⟩

theorem nextSliceBegin_some {e n : Int} (h : nextSliceBegin w e = some n) :
    (e = w.2 → w.2 < int64Max) ∧ (e ≠ w.2 → n = e) := by
  unfold nextSliceBegin at h
  split at h
  · have := (checked_some h).2
    exact ⟨fun _ => by omega, fun hne => absurd (by assumption) hne⟩
  · exact ⟨fun he => absurd he (by assumption), fun _ => (some.inj h).symm⟩

variable (hk : 0 < scan.windowShards.seriesPerShard)
  (hpv : requestedPvValues scan.pushablePredicates ≠ [])

include hk hpv

theorem prepareSlice_some {sliceBegin : Int} {s : StreamState}
    (h : prepareSlice scan limits answers w sliceBegin later = some s) :
    s.Idle ∧ (InRangeAhead s.window s.sliceBegin s.later → InRangeAhead w sliceBegin later) := by
  unfold prepareSlice at h
  obtain ⟨e, he, h⟩ := bind_eq_some_iff.mp h
  obtain ⟨n, hn, h⟩ := bind_eq_some_iff.mp h
  obtain rfl := some.inj h
  obtain ⟨hmax, hle⟩ := sliceEnd_some he
  obtain ⟨hlast, hnext⟩ := nextSliceBegin_some hn
  constructor
  · intro hop
    have hne := sliceGroups_ne_nil hk hpv w ⟨sliceBegin, e, e == w.2⟩
    have hpos := limits.concurrency_pos (length_pos_iff.mpr hne)
    rw [map_eq_nil_iff, take_eq_nil_iff] at hop
    rcases hop with h0 | h0
    · omega
    · exact absurd h0 hne
  · intro hs
    refine ⟨fun _ => ⟨hmax, ?_⟩, hs.2⟩
    rcases eq_or_ne e w.2 with heq | hne
    · exact hlast heq
    · have := (hs.1 (by simp only [hnext hne]; exact hle)).2
      exact this

theorem prepareNextSlice_some : ∀ {later : List Window} {w : Window} {sliceBegin : Int}
    {s : StreamState}, (∀ v ∈ later, v.1 ≤ v.2) →
    prepareNextSlice scan limits answers w sliceBegin later = some s →
    s.Idle ∧ (InRangeAhead s.window s.sliceBegin s.later → InRangeAhead w sliceBegin later) := by
  intro later w sliceBegin s hle h
  by_cases hpast : w.2 < sliceBegin
  · cases later with
    | nil =>
      rw [prepareNextSlice, if_pos hpast] at h
      obtain rfl := some.inj h
      exact ⟨fun _ => ⟨hpast, rfl⟩, id⟩
    | cons next rest =>
      rw [prepareNextSlice, if_pos hpast] at h
      obtain ⟨hidle, himp⟩ :=
        prepareNextSlice_some (fun v hv => hle v (mem_cons_of_mem _ hv)) h
      refine ⟨hidle, fun hs => ⟨fun hc => absurd hpast (not_lt.mpr hc), ?_⟩⟩
      intro v hv
      rcases mem_cons.mp hv with rfl | hv'
      · exact (himp hs).1 (hle v mem_cons_self)
      · exact (himp hs).2 v hv'
  · rw [prepareNextSlice_inside _ _ (not_lt.mp hpast)] at h
    exact prepareSlice_some hk hpv h

omit hk hpv in
theorem prepareNextSlice_later : ∀ {later : List Window} {w : Window} {sliceBegin : Int}
    {s : StreamState}, prepareNextSlice scan limits answers w sliceBegin later = some s →
    ∀ v ∈ s.later, v ∈ later := by
  intro later w sliceBegin s h
  by_cases hpast : w.2 < sliceBegin
  · cases later with
    | nil =>
      rw [prepareNextSlice, if_pos hpast] at h
      obtain rfl := some.inj h
      exact fun v hv => hv
    | cons next rest =>
      rw [prepareNextSlice, if_pos hpast] at h
      exact fun v hv => mem_cons_of_mem _ (prepareNextSlice_later h v hv)
  · rw [prepareNextSlice_inside _ _ (not_lt.mp hpast)] at h
    unfold prepareSlice at h
    obtain ⟨e, he, h⟩ := bind_eq_some_iff.mp h
    obtain ⟨n, hn, h⟩ := bind_eq_some_iff.mp h
    obtain rfl := some.inj h
    exact fun v hv => hv

/-- **A run that ends met no overflow.** -/
theorem drain_some_inRange : ∀ {fuel : Nat} {s : StreamState} {out : List (RecordBatch Sample)},
    (∀ v ∈ s.later, v.1 ≤ v.2) → s.Idle → drain scan limits answers fuel s = some out →
    InRangeAhead s.window s.sliceBegin s.later
  | 0, _, _, _, _, h => by simp [drain] at h
  | fuel + 1, s, out, hle, hidle, h => by
    simp only [drain, nextStep] at h
    cases hop : s.opened with
    | nil =>
      obtain ⟨hpast, hlater⟩ := hidle hop
      exact ⟨fun hc => absurd hpast (not_lt.mpr hc), by simp [hlater]⟩
    | cons p rest =>
      obtain ⟨g, bs⟩ := p
      cases bs with
      | cons b bs' =>
        rw [hop] at h
        obtain ⟨out', hout, -⟩ := map_eq_some_iff.mp h
        exact drain_some_inRange (s := { s with opened := (g, bs') :: rest }) hle
          (fun hc => by simp at hc) hout
      | nil =>
        simp only [hop] at h
        split at h
        · rename_i heq
          split at heq
          · split at heq <;> simp at heq
          · simp at heq
        · rename_i s' heq
          split at heq
          · rename_i hempty
            split at heq
            · rename_i s'' hprep
              obtain rfl := Pull.skip.inj heq
              obtain ⟨hidle', himp⟩ := prepareNextSlice_some hk hpv hle hprep
              exact himp (drain_some_inRange
                (fun v hv => hle v (prepareNextSlice_later hprep v hv)) hidle' h)
            · simp at heq
          · rename_i hne
            obtain rfl := Pull.skip.inj heq
            exact drain_some_inRange (s := ⟨rest ++ (s.waiting.take 1).map (fresh answers),
              s.waiting.drop 1, s.window, s.sliceBegin, s.later⟩) hle
              (fun hc => absurd (List.isEmpty_iff.mpr hc) hne) h
        · rename_i heq
          split at heq
          · split at heq <;> simp at heq
          · simp at heq
        · simp at h

/-- **A windowed scan that ends met no overflow.** -/
theorem windowScan_some_ok {fuel : Nat} {out : List (RecordBatch Sample)}
    (htyped : ∀ w ∈ windows, int64Min ≤ w.1 ∧ w.1 ≤ w.2)
    (h : windowScan scan limits answers windows fuel = some out) :
    ∀ w ∈ windows, WindowOk w := by
  cases windows with
  | nil => simp
  | cons w later =>
    simp only [windowScan, isEmpty_cons, Bool.false_eq_true, if_false] at h
    obtain ⟨s, hs, h⟩ := bind_eq_some_iff.mp h
    simp only [openStream, List.isEmpty_iff, hpv, if_false] at hs
    have hle : ∀ v ∈ later, v.1 ≤ v.2 := fun v hv => (htyped v (mem_cons_of_mem _ hv)).2
    obtain ⟨hidle, himp⟩ := prepareNextSlice_some hk hpv hle hs
    have hrange := himp (drain_some_inRange hk hpv
      (fun v hv => hle v (prepareNextSlice_later hs v hv)) hidle h)
    intro v hv
    obtain ⟨hlo, hvle⟩ := htyped v hv
    rcases mem_cons.mp hv with rfl | hv'
    · obtain ⟨h1, h2⟩ := hrange.1 hvle
      exact ⟨hlo, hvle, h1, h2⟩
    · obtain ⟨h1, h2⟩ := hrange.2 v hv'
      exact ⟨hlo, hvle, h1, h2⟩

end Converse

end MldpDriver.Query
