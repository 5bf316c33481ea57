/-
# The serial window fetch and the choice of the slice length

`fetchTimeSeriesWindows` is the materialised counterpart of the window stream: it walks the
windows, slices and shards in a loop and collects the trimmed answers.  The two paths repeat the
slicing in separate code and differ in two places.
-/
import MldpDriver.Query.WindowSamples

namespace MldpDriver.Query

open Lib.Tiling (Piece evenPieces evenPiecesFrom evenPiece stepCount)

/-! ## 1. The slice length

With an automatic slice length (`autoSliceNs`) the serial path chooses one for each window, the
stream chooses one from the first window for all (`streamingPlan`). -/

/-- `kSteps`, in nanoseconds. -/
def autoSliceSteps : List Int :=
  [5000000000, 10000000000, 30000000000, 60000000000, 300000000000, 600000000000, 1800000000000,
    3600000000000, 86400000000000]

/-- The smallest step that cuts a window in about ten, the largest step when none does. -/
def autoSliceNs (windowNs : Int) : Int :=
  let raw := max 5000000000 (windowNs.tdiv 10)
  (autoSliceSteps.find? fun step => decide (raw ≤ step)).getD 86400000000000

theorem mem_autoSliceSteps (windowNs : Int) : autoSliceNs windowNs ∈ autoSliceSteps := by
  simp only [autoSliceNs]
  cases h : autoSliceSteps.find? fun step => decide (max 5000000000 (windowNs.tdiv 10) ≤ step) with
  | none => simp [autoSliceSteps]
  | some step => exact List.mem_of_find?_eq_some h

theorem le_autoSliceNs (windowNs : Int) : 5000000000 ≤ autoSliceNs windowNs := by
  have hall : ∀ step ∈ autoSliceSteps, (5000000000 : Int) ≤ step := by decide
  exact hall _ (mem_autoSliceSteps windowNs)

/-! ## 2. Where the windows come from -/

/-- The window clause of a scan: two epoch seconds, or the normalised rows of a subquery. -/
inductive WindowInput where
  | literal (beginSeconds endSeconds : Int)
  | subquery (windows : List Window)

/-- The windows both paths scan. -/
def WindowInput.windows : WindowInput → Option (List Window)
  | literal b e => do
    let first ← checked (b * nsPerSecond)
    let last ← checked (e * nsPerSecond)
    some [(first, last)]
  | subquery ws => some ws

/-- The given slice length, or one chosen from the length of a window. -/
def windowSliceNs (sliceNs : Int) (w : Window) : Option Int :=
  if sliceNs = 0 then (checked (w.2 - w.1)).map autoSliceNs else some sliceNs

/-- The slice length of the stream: the given one, or one chosen from the first window. -/
def streamingSliceNs (sliceNs : Int) : WindowInput → Option Int
  | .literal b e =>
    if sliceNs = 0 then do
      let seconds ← checked (e - b)
      let ns ← checked (seconds * nsPerSecond)
      some (autoSliceNs ns)
    else some sliceNs
  | .subquery [] => some sliceNs
  | .subquery (w :: _) => windowSliceNs sliceNs w

/-- The scan with the slice length filled in. -/
def withSliceNs (scan : PhysicalTableScan) (sliceNs : Int) : PhysicalTableScan :=
  { scan with windowShards := { scan.windowShards with sliceNs } }

/-- The window branch of `makeStreamingPlan`, run to its end. -/
def streamingPlan (scan : PhysicalTableScan) (limits : ScanLimits) (answers : Answers)
    (input : WindowInput) (fuel : Nat) : Option (List (RecordBatch Sample)) := do
  let windows ← input.windows
  let sliceNs ← streamingSliceNs scan.windowShards.sliceNs input
  windowScan (withSliceNs scan sliceNs) limits answers windows fuel

/-! ## 3. The serial loop

The last slice of a window has NO upper bound in the serial path (`shardBounds`); the stream
bounds it by the window's end. -/

/-- The bounds the serial path cuts a batch to: none above on the final slice. -/
def shardBounds (slice : Piece Int) : List Predicate :=
  ⟨"time", .GTE, [.timestampNs slice.start]⟩ ::
    if slice.last then [] else [⟨"time", .LT, [.timestampNs slice.stop]⟩]

/-- What the serial path does to a batch before it collects it. -/
def bound (scan : PhysicalTableScan) (localPredicates : List Predicate) (slice : Piece Int)
    (batch : RecordBatch Sample) : RecordBatch Sample :=
  let bounded := applyFilter (applyFilter batch (shardBounds slice)) localPredicates
  if scan.qualifyOutput then qualifyBatchColumns bounded scan.tableAlias else bounded

/-- The batches of one slice: one request for each PV shard. -/
def fetchSlice (scan : PhysicalTableScan) (execute : Execute) (localPredicates : List Predicate)
    (slice : Piece Int) : List (RecordBatch Sample) :=
  (pvShards scan.windowShards.seriesPerShard (requestedPvValues scan.pushablePredicates)).flatMap
    fun pvs => (execute (shardPredicates (otherPredicates scan.pushablePredicates) pvs
      (slice.start.tdiv nsPerSecond) (slice.stop.tdiv nsPerSecond))).map
        (bound scan localPredicates slice)

/-- The slice loop of one window; `none` on overflow or when the fuel runs out. -/
def fetchSlices (scan : PhysicalTableScan) (execute : Execute) (localPredicates : List Predicate)
    (sliceNs : Int) (window : Window) : Nat → Int → Option (List (RecordBatch Sample))
  | 0, _ => none
  | fuel + 1, sliceBegin =>
    if window.2 < sliceBegin then some []
    else do
      let sliceEnd ← sliceEnd sliceNs window sliceBegin
      let batches := fetchSlice scan execute localPredicates
        ⟨sliceBegin, sliceEnd, sliceEnd == window.2⟩
      if sliceEnd = window.2 then some batches
      else (fetchSlices scan execute localPredicates sliceNs window fuel sliceEnd).map (batches ++ ·)

/-- One window: its slice length, then its slices.  Every slice is at least a nanosecond. -/
def fetchWindow (scan : PhysicalTableScan) (execute : Execute) (localPredicates : List Predicate)
    (window : Window) : Option (List (RecordBatch Sample)) := do
  let sliceNs ← windowSliceNs scan.windowShards.sliceNs window
  fetchSlices scan execute localPredicates sliceNs window ((window.2 - window.1).toNat + 1) window.1

/-- `fetchTimeSeriesWindows`, as the scan operator calls it: no window, no row; a PV list is
required. -/
def fetchTimeSeriesWindows (scan : PhysicalTableScan) (execute : Execute)
    (localPredicates : List Predicate) (input : WindowInput) :
    Option (List (RecordBatch Sample)) := do
  let windows ← input.windows
  if windows.isEmpty then some []
  else if (requestedPvValues scan.pushablePredicates).isEmpty then none
  else (windows.mapM (fetchWindow scan execute localPredicates)).map List.flatten

/-! ## 4. What the serial loop collects

`fetchTimeSeriesWindows_eq` is the specification lemma of the loop: on windows whose arithmetic
stays in range it returns the batches of `fetchedBatches`. -/

/-- The slice length the serial path uses for a window. -/
def serialSliceNs (sliceNs : Int) (w : Window) : Int :=
  if sliceNs = 0 then autoSliceNs (w.2 - w.1) else sliceNs

/-- The batches of a window, slice by slice. -/
def fetchedBatches (scan : PhysicalTableScan) (execute : Execute) (localPredicates : List Predicate)
    (w : Window) : List (RecordBatch Sample) :=
  (evenPieces w.1 w.2 (serialSliceNs scan.windowShards.sliceNs w)).flatMap
    (fetchSlice scan execute localPredicates)

theorem serialSliceNs_pos {sliceNs : Int} (h : 0 ≤ sliceNs) (w : Window) :
    0 < serialSliceNs sliceNs w := by
  unfold serialSliceNs
  split
  · have := le_autoSliceNs (w.2 - w.1)
    omega
  · omega

section Fetch

variable {scan : PhysicalTableScan} {execute : Execute} {localPredicates : List Predicate}

/-- The loop from slice `i` on collects the slices from `i` on. -/
theorem fetchSlices_eq {step : Int} {w : Window} (hw : WindowOk w) (hs : 0 < step) :
    ∀ (k i fuel : Nat), i + k + 1 = stepCount (w.2 - w.1) step → k < fuel →
      fetchSlices scan execute localPredicates step w fuel (w.1 + i * step) =
        some ((evenPiecesFrom w.1 w.2 step i).flatMap (fetchSlice scan execute localPredicates))
  | k, i, 0, _, hf => absurd hf (Nat.not_lt_zero _)
  | k, i, fuel + 1, hk, hf => by
    have hi : i < stepCount (w.2 - w.1) step := by omega
    have hstart := slice_start_le hs hw.le hi
    have hstop := stop_eq_iff hs hi
    simp only [fetchSlices, if_neg (not_lt.mpr hstart), sliceEnd_eq hw hs hi, Option.bind_eq_bind,
      Option.bind_some, evenPiece_eq hs hi]
    rw [Lib.Tiling.evenPiecesFrom_cons hi, List.flatMap_cons]
    cases k with
    | zero =>
      rw [if_pos (hstop.mpr (by omega)), Lib.Tiling.evenPiecesFrom_nil (by omega)]
      simp
    | succ k =>
      have hne : i + 1 ≠ stepCount (w.2 - w.1) step := by omega
      have hnext : (evenPiece w.1 w.2 step i).stop = w.1 + ((i + 1 : Nat) : Int) * step := by
        simp only [evenPiece, if_neg hne]
        push_cast
        rfl
      rw [if_neg fun h => hne (hstop.mp h), hnext,
        fetchSlices_eq hw hs k (i + 1) fuel (by omega) (by omega), Option.map_some]

theorem stepCount_le {len step : Int} (hl : 0 ≤ len) (hs : 0 < step) :
    stepCount len step ≤ len.toNat + 1 := by
  unfold stepCount
  have : (len - 1) / step ≤ len := by
    rcases eq_or_lt_of_le hl with h0 | h0
    · subst h0
      have : (0 - 1 : Int) / step < 0 := Int.ediv_neg_of_neg_of_pos (by decide) hs
      omega
    · have := Int.ediv_le_self step (show 0 ≤ len - 1 by omega)
      omega
  omega

theorem windowSliceNs_eq {w : Window} (hw : WindowOk w) (sliceNs : Int) :
    windowSliceNs sliceNs w = some (serialSliceNs sliceNs w) := by
  have hle := hw.le
  have hchecked : checked (w.2 - w.1) = some (w.2 - w.1) :=
    checked_eq (by unfold int64Min; omega) hw.length
  unfold windowSliceNs serialSliceNs
  rw [hchecked]
  split <;> rfl

theorem fetchWindow_eq {w : Window} (hw : WindowOk w) (hs : 0 ≤ scan.windowShards.sliceNs) :
    fetchWindow scan execute localPredicates w =
      some (fetchedBatches scan execute localPredicates w) := by
  have hle := hw.le
  have hpos := serialSliceNs_pos hs w
  have hcount := stepCount_le (show 0 ≤ w.2 - w.1 by omega) hpos
  have hcpos := Lib.Tiling.stepCount_pos (w.2 - w.1) (serialSliceNs scan.windowShards.sliceNs w)
  have hstart : w.1 = w.1 + ((0 : Nat) : Int) * serialSliceNs scan.windowShards.sliceNs w := by simp
  unfold fetchWindow fetchedBatches evenPieces
  rw [windowSliceNs_eq hw, Option.bind_eq_bind, Option.bind_some]
  conv_lhs => rw [hstart]
  exact fetchSlices_eq hw hpos
    (stepCount (w.2 - w.1) (serialSliceNs scan.windowShards.sliceNs w) - 1) 0 _ (by omega) (by omega)

theorem mapM_fetchWindow {windows : List Window} (hw : ∀ w ∈ windows, WindowOk w)
    (hs : 0 ≤ scan.windowShards.sliceNs) :
    windows.mapM (fetchWindow scan execute localPredicates) =
      some (windows.map (fetchedBatches scan execute localPredicates)) := by
  induction windows with
  | nil => rfl
  | cons w ws ih =>
    rw [List.mapM_cons, fetchWindow_eq (hw w List.mem_cons_self) hs,
      ih fun v hv => hw v (List.mem_cons_of_mem _ hv)]
    rfl

/-- **What the serial fetch returns**, over windows on which the arithmetic stays in range. -/
theorem fetchTimeSeriesWindows_eq {input : WindowInput} {windows : List Window}
    (hin : input.windows = some windows) (hw : ∀ w ∈ windows, WindowOk w)
    (hs : 0 ≤ scan.windowShards.sliceNs)
    (hpv : requestedPvValues scan.pushablePredicates ≠ []) :
    fetchTimeSeriesWindows scan execute localPredicates input =
      some (windows.flatMap (fetchedBatches scan execute localPredicates)) := by
  simp only [fetchTimeSeriesWindows, hin, Option.bind_eq_bind, Option.bind_some,
    List.isEmpty_iff, hpv, if_false]
  split
  · rename_i h
    subst h
    rfl
  · rw [mapM_fetchWindow hw hs, Option.map_some, List.flatMap_def]

end Fetch

end MldpDriver.Query
