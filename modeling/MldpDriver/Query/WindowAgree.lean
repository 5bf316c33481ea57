/-
# The serial fetch and the stream return the same rows

Both paths ask the backend for the same thing slice by slice and cut what it answers.  They
agree exactly when (`paths_agree_iff`)

* no stored sample of a requested PV lies after a window's end (`PathsSame.bounded`): the serial
  path does not bound the last slice above, so what the backend returns beyond the window stays;
* at a window's start the two slice lengths ask for the same last second, or the samples there
  are not before the first requested second (`PathsSame.sameRequest`): with an automatic slice
  length the two paths cut the later windows differently;
* the position after a window's end does not overflow (`PathsSame.arithmetic`): only the stream
  computes it.
-/
import MldpDriver.Query.WindowFetch
import MldpDriver.Query.WindowFlat

namespace MldpDriver.Query

open List
open Lib.Tiling (Piece Cut evenPieces evenPiece stepCount)
open Lib.Binary64 (toBinary64 toBinary64_mono)

/-! ## 1. Statement -/

/-- Both paths throw that a window requires a PV predicate. -/
def BothRefuse (scan : PhysicalTableScan) (input : WindowInput) : Prop :=
  ∃ windows, input.windows = some windows ∧ windows ≠ [] ∧
    requestedPvValues scan.pushablePredicates = []

/-- **The two paths agree**: they refuse the scan alike, or with every backend that keeps its
promise over the store both return, and the same rows, each as often. -/
def PathsAgree (scan : PhysicalTableScan) (limits : ScanLimits) (input : WindowInput)
    (store : List Sample) : Prop :=
  BothRefuse scan input ∨ ∀ execute, ConformsQuery store execute → ∃ fuel serial streamed,
    fetchTimeSeriesWindows scan execute [] input = some serial ∧
      streamingPlan scan limits (fun g => execute g.predicates) input fuel = some streamed ∧
      (batchRows serial).Perm (batchRows streamed)

/-- The slice length of the stream, when the arithmetic stays in range. -/
def streamSliceNs (sliceNs : Int) : List Window → Int
  | [] => sliceNs
  | w :: _ => serialSliceNs sliceNs w

/-- The last second the first slice of a window asks for. -/
def firstEndSeconds (step : Int) (w : Window) : Int :=
  (evenPiece w.1 w.2 step 0).stop.tdiv nsPerSecond

/-- **When the two paths agree**, as a condition on their inputs.  `bounded` is what the last slice
of the fetch does not check, and `sameRequest` matters only at the start of a window, where all
other samples are cut away. -/
structure PathsSame (scan : PhysicalTableScan) (windows : List Window) (store : List Sample) :
    Prop where
  /-- Neither a window's length nor one past its end leaves `int64_t`. -/
  arithmetic : ∀ w ∈ windows, w.2 - w.1 ≤ int64Max ∧ w.2 < int64Max
  /-- No sample of a requested PV rounds past the end of a window. -/
  bounded : ∀ x ∈ store, x.pv ∈ requestedPvValues scan.pushablePredicates →
    ∀ w ∈ windows, toBinary64 x.time ≤ toBinary64 w.2
  /-- A sample that rounds to a window's start is asked for alike by both first slices. -/
  sameRequest : ∀ x ∈ store, x.pv ∈ requestedPvValues scan.pushablePredicates →
    ∀ w ∈ windows, toBinary64 x.time = toBinary64 w.1 →
      firstEndSeconds (streamSliceNs scan.windowShards.sliceNs windows) w =
          firstEndSeconds (serialSliceNs scan.windowShards.sliceNs w) w ∨
        w.1.tdiv nsPerSecond * nsPerSecond ≤ x.time

/-! ## 2. The rows of the two paths

The proof counts a sample window by window: of each cut exactly one slice keeps it, and what
the backend answers to that slice depends on the requested seconds alone (`secondsRows`). -/

section Rows

variable (scan : PhysicalTableScan) (execute : Execute)

/-- What the backend answers to the request of a shard for the seconds `[b, e]`. -/
def shardRows (b e : Int) (pvs : List String) : List Sample :=
  batchRows (execute (shardPredicates (otherPredicates scan.pushablePredicates) pvs b e))

/-- What the backend answers to the requests for the seconds `[b, e]`, over all shards. -/
def secondsRows (b e : Int) : List Sample :=
  (pvShards scan.windowShards.seriesPerShard (requestedPvValues scan.pushablePredicates)).flatMap
    (shardRows scan execute b e)

/-- What the backend answers for a slice. -/
def sliceRows (p : Piece Int) : List Sample :=
  secondsRows scan execute (p.start.tdiv nsPerSecond) (p.stop.tdiv nsPerSecond)

/-- The rows of a window in the stream. -/
def streamRows (step : Int) (w : Window) : List Sample :=
  (evenPieces w.1 w.2 step).flatMap fun p =>
    (sliceRows scan execute p).filter fun x => p.keeps toBinary64 x.time

/-- The rows of a window in the serial path. -/
def serialRows (step : Int) (w : Window) : List Sample :=
  (evenPieces w.1 w.2 step).flatMap fun p =>
    (sliceRows scan execute p).filter fun x => p.keepsFrom toBinary64 x.time

variable {scan execute} {store : List Sample} (hc : ConformsQuery store execute)

include hc

/-- Filtering the batches of all shards of a slice filters the slice's rows. -/
theorem filter_sliceRows (p : Piece Int) (keep : Sample → Bool)
    (cut : RecordBatch Sample → RecordBatch Sample)
    (hcut : ∀ b, b.fields = timeSeriesFields → (cut b).rows = b.rows.filter keep) :
    batchRows ((pvShards scan.windowShards.seriesPerShard
        (requestedPvValues scan.pushablePredicates)).flatMap fun pvs =>
      (execute (shardPredicates (otherPredicates scan.pushablePredicates) pvs
        (p.start.tdiv nsPerSecond) (p.stop.tdiv nsPerSecond))).map cut) =
      (sliceRows scan execute p).filter keep := by
  simp only [batchRows, sliceRows, secondsRows, shardRows, flatMap_assoc,
    filter_flatMap]
  refine flatMap_congr fun pvs _ => ?_
  rw [flatMap_map]
  refine flatMap_congr fun b hb => hcut b ?_
  exact (hc _ _ (requestOf_shardPredicates _ _ _ _)).1 b hb

omit hc in
/-- **A batch of the serial path keeps the samples not before its slice**, and those of a slice
that is not the last one end before the next. -/
theorem bound_rows (scan : PhysicalTableScan) (p : Piece Int) {batch : RecordBatch Sample}
    (h : batch.fields = timeSeriesFields) :
    (bound scan [] p batch).rows = batch.rows.filter fun x => p.keepsFrom toBinary64 x.time := by
  have hfield : predicateField batch "time" = some fun s => .scalar (.timestamp s.time) := by
    rw [← predicateField_time batch.rows, ← h]
  have hpass : ∀ x : Sample, rowPasses batch (shardBounds p) x = p.keepsFrom toBinary64 x.time := by
    intro x
    have hge := predicateTruth_time hfield x p.start .GTE (by simp)
    have hlt := predicateTruth_time hfield x p.stop .LT (by simp)
    cases hl : p.last <;>
      simp [rowPasses, shardBounds, hl, hge, hlt, compareNumeric, Piece.keepsFrom]
  have hrows : (applyFilter (applyFilter batch (shardBounds p)) []).rows =
      batch.rows.filter fun x => p.keepsFrom toBinary64 x.time := by
    rw [applyFilter_rows, applyFilter_rows]
    have : ∀ l : List Sample, l.filter (rowPasses (applyFilter batch (shardBounds p)) []) = l :=
      fun l => filter_eq_self.mpr fun _ _ => rfl
    rw [this]
    exact filter_congr fun x _ => hpass x
  unfold bound
  simp only
  split
  · rw [qualifyBatchColumns_rows, hrows]
  · exact hrows

omit hc in
theorem batchRows_flatMap {α : Type} (l : List α) (f : α → List (RecordBatch Sample)) :
    batchRows (l.flatMap f) = l.flatMap fun a => batchRows (f a) := by
  simp only [batchRows, flatMap_assoc]

theorem fetched_rows (windows : List Window) :
    batchRows (windows.flatMap (fetchedBatches scan execute [])) =
      windows.flatMap fun w =>
        serialRows scan execute (serialSliceNs scan.windowShards.sliceNs w) w := by
  rw [batchRows_flatMap]
  refine flatMap_congr fun w _ => ?_
  unfold fetchedBatches serialRows
  rw [batchRows_flatMap]
  exact flatMap_congr fun p _ =>
    filter_sliceRows hc p _ _ fun b hb => bound_rows scan p hb

omit hc in
theorem flatMap_zipIdx_fst {α β : Type} (l : List α) (f : α → List β) :
    l.zipIdx.flatMap (fun q => f q.1) = l.flatMap f := by
  conv_rhs => rw [← zipIdx_map_fst 0 l, flatMap_map]

theorem streamed_rows (step : Int) (windows : List Window) :
    batchRows ((plannedGroups (withSliceNs scan step) windows).flatMap
        (delivered (withSliceNs scan step) fun g => execute g.predicates)) =
      windows.flatMap fun w => streamRows scan execute step w := by
  simp only [plannedGroups, flatMap_assoc]
  rw [batchRows_flatMap]
  refine flatMap_congr fun w _ => ?_
  unfold streamRows
  rw [batchRows_flatMap]
  refine flatMap_congr fun p _ => ?_
  have hgroup : ∀ q : List String × Nat,
      batchRows (delivered (withSliceNs scan step) (fun g => execute g.predicates)
        (sliceGroup (withSliceNs scan step) w p q.1 q.2)) =
      (shardRows scan execute (p.start.tdiv nsPerSecond) (p.stop.tdiv nsPerSecond) q.1).filter
          fun x => p.keeps toBinary64 x.time := by
    intro q
    have hpiece : (sliceGroup (withSliceNs scan step) w p q.1 q.2).piece = p := rfl
    have hpred : (sliceGroup (withSliceNs scan step) w p q.1 q.2).predicates =
        shardPredicates (otherPredicates scan.pushablePredicates) q.1
          (p.start.tdiv nsPerSecond) (p.stop.tdiv nsPerSecond) := rfl
    rw [delivered_rows ((conforms_of_query hc).fields (withSliceNs scan step) w p q.1 q.2),
      hpiece, hpred, shardRows]
  have hshards : pvShards (withSliceNs scan step).windowShards.seriesPerShard
        (requestedPvValues (withSliceNs scan step).pushablePredicates) =
      pvShards scan.windowShards.seriesPerShard (requestedPvValues scan.pushablePredicates) := rfl
  have hfst := flatMap_zipIdx_fst (pvShards scan.windowShards.seriesPerShard
    (requestedPvValues scan.pushablePredicates)) fun pvs =>
      (shardRows scan execute (p.start.tdiv nsPerSecond) (p.stop.tdiv nsPerSecond) pvs).filter
        fun x => p.keeps toBinary64 x.time
  rw [batchRows_flatMap, sliceGroups, flatMap_map, hshards, sliceRows, secondsRows,
    filter_flatMap]
  rw [← hfst]
  exact flatMap_congr fun q _ => hgroup q

end Rows

/-! ## 3. Counting a sample in one window -/

variable {x : Sample}
variable {b e : Int}

/-- A cut keeps the answer of the one slice that keeps the sample. -/
theorem Cut.count_filter {ps : List (Piece Int)} (h : Cut b e ps) (rows : Piece Int → List Sample)
    (hb : toBinary64 b ≤ toBinary64 x.time) (he : toBinary64 x.time ≤ toBinary64 e) :
    ∃ p ∈ ps, p.keeps toBinary64 x.time = true ∧
      (ps.flatMap fun p => (rows p).filter fun x => p.keeps toBinary64 x.time).count x =
        (rows p).count x := by
  obtain ⟨p, hp, hk⟩ := h.keeps_some toBinary64_mono hb he
  have hone := h.countP_keeps toBinary64_mono x.time
  rw [if_pos ⟨hb, he⟩] at hone
  refine ⟨p, hp, hk, ?_⟩
  have hpart : ∀ q ∈ ps, ((rows q).filter fun x => q.keeps toBinary64 x.time).count x =
      if q.keeps toBinary64 x.time then (rows p).count x else 0 := by
    intro q hq
    split
    · rename_i hkq
      rw [List.count_filter (p := fun y : Sample => q.keeps toBinary64 y.time) hkq,
        eq_of_countP_eq_one hone hq hkq hp hk]
    · rename_i hkq
      exact count_eq_zero.mpr fun hm => hkq (mem_filter.mp hm).2
  rw [count_flatMap_ite hpart, hone, Nat.one_mul]

theorem Cut.count_filter_before {ps : List (Piece Int)} (h : Cut b e ps)
    (rows : Piece Int → List Sample) (hb : toBinary64 x.time < toBinary64 b) :
    (ps.flatMap fun p => (rows p).filter fun x => p.keeps toBinary64 x.time).count x = 0 := by
  refine count_eq_zero.mpr fun hm => ?_
  obtain ⟨p, hp, hm⟩ := mem_flatMap.mp hm
  have := (h.keeps_bounds toBinary64_mono hp (mem_filter.mp hm).2).1
  omega

variable {step : Int}
variable {execute : Execute}

/-- The serial path keeps what the stream keeps of a sample that is not past the window. -/
theorem serial_count_eq {scan : PhysicalTableScan} {w : Window} (hw : w.1 ≤ w.2) (hs : 0 < step)
    (hx : toBinary64 x.time ≤ toBinary64 w.2) :
    (serialRows scan execute step w).count x = (streamRows scan execute step w).count x := by
  have hcut := Lib.Tiling.evenPieces_cut hw hs
  unfold serialRows streamRows
  rw [count_flatMap, count_flatMap]
  refine congrArg List.sum (map_congr_left fun p hp => ?_)
  simp only [Function.comp]
  have hkeep := hcut.keepsFrom_eq hp hx
  by_cases hk : p.keeps toBinary64 x.time = true
  · rw [List.count_filter (p := fun y : Sample => p.keeps toBinary64 y.time) hk,
      List.count_filter (p := fun y : Sample => p.keepsFrom toBinary64 y.time) (hkeep.trans hk)]
  · rw [count_filter_of_not (k := fun y : Sample => p.keepsFrom toBinary64 y.time) (by rwa [hkeep]),
      count_filter_of_not (k := fun y : Sample => p.keeps toBinary64 y.time) hk]

/-- A sample at the rounded start of a window is kept by the first slice: five seconds are far
more than the rounding of a timestamp. -/
theorem keeps_first {w : Window} (hw : WindowOk w) (hs : 5000000000 ≤ step) {t : Int}
    (ht : toBinary64 t = toBinary64 w.1) {p : Piece Int} (hp : p ∈ evenPieces w.1 w.2 step)
    (hk : p.keeps toBinary64 t = true) : p = evenPiece w.1 w.2 step 0 := by
  simp only [evenPieces, Lib.Tiling.evenPiecesFrom, mem_map, mem_range'_1] at hp
  obtain ⟨i, ⟨-, hi⟩, rfl⟩ := hp
  rcases Nat.eq_zero_or_pos i with rfl | hpos
  · rfl
  exfalso
  have hstart : (evenPiece w.1 w.2 step i).start = w.1 + i * step := by
    unfold evenPiece
    split <;> rfl
  have hle := slice_start_le (show 0 < step by omega) hw.le (show i < _ by omega)
  have hmul : (1 : Int) * step ≤ i * step :=
    Int.mul_le_mul_of_nonneg_right (by omega) (by omega)
  have hlt : toBinary64 w.1 < toBinary64 (w.1 + i * step) := by
    have hlo := hw.lower
    have hhi := hw.upper
    unfold int64Min int64Max at *
    exact Lib.Binary64.toBinary64_lt_of_add_lt (by omega) (by omega) (by omega)
  simp only [Piece.keeps, hstart, Bool.and_eq_true, decide_eq_true_eq] at hk
  omega

theorem first_stop {w : Window} (hs : 0 < step) :
    (evenPiece w.1 w.2 step 0).start = w.1 ∧
      ((evenPiece w.1 w.2 step 0).stop = w.2 ∧ w.2 ≤ w.1 + step ∨
        (evenPiece w.1 w.2 step 0).stop = w.1 + step ∧ w.1 + step < w.2) := by
  have hlast := Lib.Tiling.succ_eq_stepCount_iff hs (Lib.Tiling.stepCount_pos (w.2 - w.1) step)
  simp only [Nat.cast_zero, zero_add, one_mul] at hlast
  unfold evenPiece
  split
  · rename_i h
    refine ⟨by simp, Or.inl ⟨rfl, ?_⟩⟩
    have := hlast.mp (by simpa using h)
    omega
  · rename_i h
    refine ⟨by simp, Or.inr ⟨by simp, ?_⟩⟩
    have : ¬ w.2 - w.1 ≤ step := fun hc => h (by simpa using hlast.mpr hc)
    omega

theorem long_of_firstEnd_ne {s₁ s₂ : Int} {w : Window} (h₁ : 5000000000 ≤ s₁)
    (h₂ : 5000000000 ≤ s₂) (hne : firstEndSeconds s₁ w ≠ firstEndSeconds s₂ w) :
    w.1 + 5000000000 < w.2 := by
  by_contra hshort
  have hstop : ∀ s : Int, 5000000000 ≤ s → (evenPiece w.1 w.2 s 0).stop = w.2 := by
    intro s hs
    rcases (first_stop (show 0 < s by omega)).2 with ⟨h, -⟩ | ⟨-, h⟩
    · exact h
    · omega
  exact hne (by unfold firstEndSeconds; rw [hstop s₁ h₁, hstop s₂ h₂])

/-! ## 4. One window, two slice lengths -/

section Window

variable {scan : PhysicalTableScan} {execute : Execute} {store : List Sample}

theorem count_secondsRows (hc : ConformsQuery store execute) (hb : b * nsPerSecond ≤ x.time)
    (he : x.time ≤ e * nsPerSecond) :
    (secondsRows scan execute b e).count x = shardCount scan x.pv * store.count x := by
  refine count_flatMap_ite fun pvs _ => ?_
  have hans := hc _ _ (requestOf_shardPredicates (otherPredicates scan.pushablePredicates) pvs b e)
  have hcov : (Request.mk pvs b e).covers x.time = true := by
    simp [Request.covers, hb, he]
  rw [shardRows, hans.count_covered hcov]
  simp

theorem mem_secondsRows (hc : ConformsQuery store execute)
    (hk : 0 < scan.windowShards.seriesPerShard) (hx : x ∈ secondsRows scan execute b e) :
    x ∈ store ∧ x.pv ∈ requestedPvValues scan.pushablePredicates := by
  obtain ⟨pvs, hpvs, hx⟩ := mem_flatMap.mp hx
  have hans := hc _ _ (requestOf_shardPredicates (otherPredicates scan.pushablePredicates) pvs b e)
  obtain ⟨hs, hpv⟩ := hans.mem hx
  refine ⟨hs, (countP_pvShards_pos_iff hk).mp (countP_pos_iff.mpr ⟨pvs, hpvs, ?_⟩)⟩
  simpa using hpv

/-- A sample at the rounded start of a window comes from the first slice's request. -/
theorem count_streamRows_first {w : Window} (hw : WindowOk w) (hs : 5000000000 ≤ step)
    (hx : toBinary64 x.time = toBinary64 w.1) :
    (streamRows scan execute step w).count x =
      (secondsRows scan execute (w.1.tdiv nsPerSecond) (firstEndSeconds step w)).count x := by
  have hpos : 0 < step := by omega
  have hle : toBinary64 w.1 ≤ toBinary64 w.2 := toBinary64_mono hw.le
  obtain ⟨p, hp, hk, hcount⟩ := Cut.count_filter (Lib.Tiling.evenPieces_cut hw.le hpos)
    (sliceRows scan execute) (le_of_eq hx.symm) (hx ▸ hle)
  have hfirst := keeps_first hw hs hx hp hk
  subst hfirst
  rw [streamRows, hcount, sliceRows, (first_stop hpos).1, firstEndSeconds]

theorem lt_tdiv_mul (n : Int) : n - nsPerSecond < n.tdiv nsPerSecond * nsPerSecond := by
  have h := Int.mul_tdiv_add_tmod n nsPerSecond
  have hlt := Int.tmod_lt_of_pos n (show 0 < nsPerSecond by decide)
  have hmul : nsPerSecond * n.tdiv nsPerSecond = n.tdiv nsPerSecond * nsPerSecond := by ring
  omega

theorem le_firstEnd {w : Window} (hw : WindowOk w) (hs : 5000000000 ≤ step)
    (hlong : w.1 + 5000000000 < w.2) {t : Int} (ht : toBinary64 t = toBinary64 w.1) :
    t ≤ firstEndSeconds step w * nsPerSecond := by
  have hstop : w.1 + 5000000000 ≤ (evenPiece w.1 w.2 step 0).stop := by
    rcases (first_stop (show 0 < step by omega) (w := w)).2 with ⟨h, -⟩ | ⟨h, -⟩ <;> omega
  have hnear : t < w.1 + 4000000000 := by
    by_contra hge
    have hmono := toBinary64_mono (not_lt.mp hge)
    have hlo := hw.lower
    have hhi := hw.upper
    unfold int64Min int64Max at *
    have hlt : toBinary64 w.1 < toBinary64 (w.1 + 4000000000) :=
      Lib.Binary64.toBinary64_lt_of_add_lt (by omega) (by omega) (by omega)
    omega
  have hsec := lt_tdiv_mul (evenPiece w.1 w.2 step 0).stop
  unfold firstEndSeconds
  have hns : nsPerSecond = 1000000000 := rfl
  omega

/-- **The two paths keep the same copies of a sample in a window**, when it does not lie past the
window and either the slices are the same, or it does not lie past the window's start and is
asked for alike there. -/
theorem window_agree (hc : ConformsQuery store execute) {w : Window} (hw : WindowOk w)
    (hx : toBinary64 x.time ≤ toBinary64 w.2) {s₁ s₂ : Int}
    (hs : s₁ = s₂ ∧ 0 < s₁ ∨ 5000000000 ≤ s₁ ∧ 5000000000 ≤ s₂ ∧ toBinary64 x.time ≤ toBinary64 w.1)
    (hsame : toBinary64 x.time = toBinary64 w.1 →
      firstEndSeconds s₁ w = firstEndSeconds s₂ w ∨ w.1.tdiv nsPerSecond * nsPerSecond ≤ x.time) :
    (serialRows scan execute s₂ w).count x = (streamRows scan execute s₁ w).count x := by
  rcases hs with ⟨rfl, hpos⟩ | ⟨h₁, h₂, hle⟩
  · exact serial_count_eq hw.le hpos hx
  rw [serial_count_eq hw.le (by omega) hx]
  rcases lt_or_eq_of_le hle with hlt | heq
  · unfold streamRows
    rw [Cut.count_filter_before (Lib.Tiling.evenPieces_cut hw.le (by omega)) _ hlt,
      Cut.count_filter_before (Lib.Tiling.evenPieces_cut hw.le (by omega)) _ hlt]
  · rw [count_streamRows_first hw h₁ heq, count_streamRows_first hw h₂ heq]
    by_cases hend : firstEndSeconds s₁ w = firstEndSeconds s₂ w
    · rw [hend]
    · have hlong := long_of_firstEnd_ne h₁ h₂ hend
      have hb := (hsame heq).resolve_left hend
      rw [count_secondsRows hc hb (le_firstEnd hw h₂ hlong heq),
        count_secondsRows hc hb (le_firstEnd hw h₁ hlong heq)]

end Window

/-! ## 5. The two paths over all windows -/

theorem eq_of_sum_map_eq {α : Type} {f g : α → Nat} : ∀ {l : List α}, l.Nodup →
    (l.map f).sum = (l.map g).sum → ∀ {a}, a ∈ l → (∀ b ∈ l, b ≠ a → f b = g b) → f a = g a
  | [], _, _, _, ha, _ => absurd ha (by simp)
  | c :: l, hnd, hsum, a, ha, hne => by
    obtain ⟨hc, hnd'⟩ := nodup_cons.mp hnd
    simp only [map_cons, sum_cons] at hsum
    rcases mem_cons.mp ha with rfl | ha'
    · have hrest : (l.map f).sum = (l.map g).sum :=
        congrArg List.sum (map_congr_left fun b hb =>
          hne b (mem_cons_of_mem _ hb) fun heq => hc (heq ▸ hb))
      omega
    · have hhead : f c = g c := hne c mem_cons_self fun heq => hc (heq ▸ ha')
      exact eq_of_sum_map_eq hnd' (by omega) ha' fun b hb => hne b (mem_cons_of_mem _ hb)

theorem imp_of_countP_eq {α : Type} {p q : α → Bool} {l : List α}
    (himp : ∀ a ∈ l, p a = true → q a = true) (heq : l.countP p = l.countP q) :
    ∀ a ∈ l, q a = true → p a = true := by
  induction l with
  | nil => simp
  | cons c l ih =>
    have hle : l.countP p ≤ l.countP q :=
      countP_mono_left fun a ha => himp a (mem_cons_of_mem _ ha)
    have hc := himp c mem_cons_self
    rw [countP_cons, countP_cons] at heq
    have htail : l.countP p = l.countP q := by split at heq <;> split at heq <;> simp_all
    intro a ha hqa
    rcases mem_cons.mp ha with rfl | ha'
    · by_contra hpa
      rw [if_neg hpa, if_pos hqa] at heq
      omega
    · exact ih (fun b hb => himp b (mem_cons_of_mem _ hb)) htail a ha' hqa

section Paths

variable {scan : PhysicalTableScan} {limits : ScanLimits} {input : WindowInput}
  {windows : List Window} {store : List Sample}

theorem literal_windows (h : (WindowInput.literal b e).windows = some windows) :
    windows = [(b * nsPerSecond, e * nsPerSecond)] := by
  simp only [WindowInput.windows, Option.bind_eq_bind] at h
  obtain ⟨first, hf, h⟩ := Option.bind_eq_some_iff.mp h
  obtain ⟨last, hl, h⟩ := Option.bind_eq_some_iff.mp h
  obtain ⟨rfl, -⟩ := checked_some hf
  obtain ⟨rfl, -⟩ := checked_some hl
  exact (Option.some.inj h).symm

theorem streamingSliceNs_eq (hin : input.windows = some windows)
    (hw : ∀ w ∈ windows, WindowOk w) (sliceNs : Int) :
    streamingSliceNs sliceNs input = some (streamSliceNs sliceNs windows) := by
  cases input with
  | subquery ws =>
    obtain rfl := Option.some.inj hin
    cases ws with
    | nil => rfl
    | cons w later => exact windowSliceNs_eq (hw w mem_cons_self) sliceNs
  | literal b e =>
    obtain rfl := literal_windows hin
    have hok := hw _ (mem_singleton_self _)
    have hle : b * nsPerSecond ≤ e * nsPerSecond := hok.le
    have hlen : e * nsPerSecond - b * nsPerSecond ≤ int64Max := hok.length
    have hns : nsPerSecond = 1000000000 := rfl
    have hmul : (e - b) * nsPerSecond = e * nsPerSecond - b * nsPerSecond := by ring
    have h1 : checked (e - b) = some (e - b) := by
      rw [hns] at hle hlen
      refine checked_eq ?_ ?_ <;> unfold int64Min int64Max at * <;> omega
    have h2 : checked (e * nsPerSecond - b * nsPerSecond) =
        some (e * nsPerSecond - b * nsPerSecond) :=
      checked_eq (by unfold int64Min; omega) hlen
    simp only [streamSliceNs, serialSliceNs, streamingSliceNs]
    split
    · simp only [h1, hmul, h2, Option.bind_eq_bind, Option.bind_some]
    · rfl

/-- Of a window after the first, only its rounded start can hold a sample that does not lie past
the first window: there the slice lengths may differ. -/
theorem slices_related (hn : Normalized windows) (hs : 0 ≤ scan.windowShards.sliceNs) {t : Int}
    (hb : ∀ w ∈ windows, toBinary64 t ≤ toBinary64 w.2) {w : Window} (hw : w ∈ windows) :
    streamSliceNs scan.windowShards.sliceNs windows = serialSliceNs scan.windowShards.sliceNs w ∧
        0 < streamSliceNs scan.windowShards.sliceNs windows ∨
      5000000000 ≤ streamSliceNs scan.windowShards.sliceNs windows ∧
        5000000000 ≤ serialSliceNs scan.windowShards.sliceNs w ∧ toBinary64 t ≤ toBinary64 w.1 := by
  cases windows with
  | nil => simp at hw
  | cons first later =>
    have hpos := serialSliceNs_pos hs first
    rcases mem_cons.mp hw with rfl | hw'
    · exact Or.inl ⟨rfl, hpos⟩
    by_cases hz : scan.windowShards.sliceNs = 0
    · right
      have hlt := rel_of_pairwise_cons hn.disjoint hw'
      refine ⟨?_, ?_, le_trans (hb first mem_cons_self) (toBinary64_mono (le_of_lt hlt))⟩
      · simpa [streamSliceNs, serialSliceNs, hz] using le_autoSliceNs _
      · simpa [serialSliceNs, hz] using le_autoSliceNs _
    · left
      refine ⟨?_, hpos⟩
      simp [streamSliceNs, serialSliceNs, hz]

theorem streamSliceNs_nonneg (hs : 0 ≤ scan.windowShards.sliceNs) (hne : windows ≠ []) :
    0 < streamSliceNs scan.windowShards.sliceNs windows := by
  cases windows with
  | nil => exact absurd rfl hne
  | cons w later => exact serialSliceNs_pos hs w

/-- **Both paths return, in range**: the serial path the rows of `serialRows`, the stream those of
`streamRows`. -/
theorem paths_return (limits : ScanLimits) (hin : input.windows = some windows)
    (hw : ∀ w ∈ windows, WindowOk w) (hs : 0 ≤ scan.windowShards.sliceNs)
    (hk : 0 < scan.windowShards.seriesPerShard)
    (hpv : requestedPvValues scan.pushablePredicates ≠ []) (hc : ConformsQuery store execute) :
    ∃ fuel serial streamed, fetchTimeSeriesWindows scan execute [] input = some serial ∧
      streamingPlan scan limits (fun g => execute g.predicates) input fuel = some streamed ∧
      batchRows serial = (windows.flatMap fun w =>
        serialRows scan execute (serialSliceNs scan.windowShards.sliceNs w) w) ∧
      batchRows streamed = windows.flatMap fun w =>
        streamRows scan execute (streamSliceNs scan.windowShards.sliceNs windows) w := by
  have hserial : fetchTimeSeriesWindows scan execute [] input =
      some (windows.flatMap (fetchedBatches scan execute [])) :=
    fetchTimeSeriesWindows_eq hin hw hs hpv
  have hplan : ∀ fuel, streamingPlan scan limits (fun g => execute g.predicates) input fuel =
      windowScan (withSliceNs scan (streamSliceNs scan.windowShards.sliceNs windows)) limits
        (fun g => execute g.predicates) windows fuel := by
    intro fuel
    simp only [streamingPlan, hin, streamingSliceNs_eq hin hw, Option.bind_eq_bind,
      Option.bind_some]
  rcases eq_or_ne windows [] with rfl | hne
  · exact ⟨0, _, [], hserial, by rw [hplan]; rfl, fetched_rows hc [], rfl⟩
  have hs' : 0 < (withSliceNs scan
      (streamSliceNs scan.windowShards.sliceNs windows)).windowShards.sliceNs :=
    streamSliceNs_nonneg hs hne
  obtain ⟨fuel, hrun⟩ := windowScan_eq limits (fun g => execute g.predicates) hs' hk hpv hw
  exact ⟨fuel, _, _, hserial, by rw [hplan]; exact hrun, fetched_rows hc windows,
    streamed_rows hc _ windows⟩

/-- A backend that returns more than it is asked for only when asked for the seconds `[b, e]`. -/
def eagerAt (store : List Sample) (b e : Int) : Execute :=
  answerWith store fun r y => r.covers y.time || (r.beginSeconds == b && r.endSeconds == e)

theorem eagerAt_conforms (store : List Sample) (b e : Int) :
    ConformsQuery store (eagerAt store b e) :=
  answerWith_conforms fun r y hcov => by simp [hcov]

theorem count_eagerAt (hb : ¬ b * nsPerSecond ≤ x.time) (e' : Int) :
    (secondsRows scan (eagerAt store b e) b e').count x =
      shardCount scan x.pv * if e' = e then store.count x else 0 := by
  refine count_flatMap_ite fun pvs _ => ?_
  rw [shardRows, eagerAt, count_answerWith (requestOf_shardPredicates _ pvs _ _)]
  by_cases he : e' = e <;> simp [Request.covers, hb, he]

/-! ## 6. The equivalence -/

section Agree

variable (hn : ∀ windows, input.windows = some windows → Normalized windows)
  (hs : 0 ≤ scan.windowShards.sliceNs) (hk : 0 < scan.windowShards.seriesPerShard)
  (hpv : requestedPvValues scan.pushablePredicates ≠ []) (hin : input.windows = some windows)

include hn hs hk hpv hin

theorem PathsSame.pathsAgree (h : PathsSame scan windows store) :
    PathsAgree scan limits input store := by
  refine Or.inr fun execute hc => ?_
  have hnorm := hn windows hin
  have hw : ∀ w ∈ windows, WindowOk w := fun w hw =>
    ⟨(hnorm.typed w hw).1, hnorm.le hw, (h.arithmetic w hw).1, (h.arithmetic w hw).2⟩
  obtain ⟨fuel, serial, streamed, hserial, hstream, hrows, hrows'⟩ :=
    paths_return limits hin hw hs hk hpv hc
  refine ⟨fuel, serial, streamed, hserial, hstream, perm_iff_count.mpr fun x => ?_⟩
  rw [hrows, hrows', count_flatMap, count_flatMap]
  refine congrArg List.sum (map_congr_left fun w hwm => ?_)
  simp only [Function.comp]
  by_cases hx : x ∈ store ∧ x.pv ∈ requestedPvValues scan.pushablePredicates
  · exact window_agree hc (hw w hwm) (h.bounded x hx.1 hx.2 w hwm)
      (slices_related hnorm hs (h.bounded x hx.1 hx.2) hwm) (h.sameRequest x hx.1 hx.2 w hwm)
  · -- a sample the backend has no reason to return is on neither side
    have hserial0 : x ∉ serialRows scan execute (serialSliceNs scan.windowShards.sliceNs w) w :=
      fun hm => by
        obtain ⟨p, -, hm⟩ := mem_flatMap.mp hm
        exact hx (mem_secondsRows hc hk (mem_filter.mp hm).1)
    have hstream0 : x ∉ streamRows scan execute
        (streamSliceNs scan.windowShards.sliceNs windows) w := fun hm => by
      obtain ⟨p, -, hm⟩ := mem_flatMap.mp hm
      exact hx (mem_secondsRows hc hk (mem_filter.mp hm).1)
    rw [count_eq_zero.mpr hserial0, count_eq_zero.mpr hstream0]

variable (h : PathsAgree scan limits input store)

include h

omit hs in
theorem PathsAgree.windowOk : ∀ w ∈ windows, WindowOk w := by
  rcases h with ⟨ws, -, -, hnil⟩ | h
  · exact absurd hnil hpv
  obtain ⟨fuel, -, streamed, -, hrun, -⟩ := h _ (exactAnswers_conforms store)
  simp only [streamingPlan, hin, Option.bind_eq_bind, Option.bind_some] at hrun
  obtain ⟨step, -, hrun⟩ := Option.bind_eq_some_iff.mp hrun
  have hnorm := hn windows hin
  have hk' : 0 < (withSliceNs scan step).windowShards.seriesPerShard := hk
  have hpv' : requestedPvValues (withSliceNs scan step).pushablePredicates ≠ [] := hpv
  exact windowScan_some_ok hk' hpv' (fun w hw => ⟨(hnorm.typed w hw).1, hnorm.le hw⟩) hrun

/-- They return each sample as often, with every backend that keeps its promise. -/
theorem PathsAgree.count (hc : ConformsQuery store execute) (x : Sample) :
    (windows.map fun w => (serialRows scan execute
        (serialSliceNs scan.windowShards.sliceNs w) w).count x).sum =
      (windows.map fun w => (streamRows scan execute
        (streamSliceNs scan.windowShards.sliceNs windows) w).count x).sum := by
  have hw := PathsAgree.windowOk hn hk hpv hin h
  obtain ⟨fuel, serial, streamed, hserial, hstream, hrows, hrows'⟩ :=
    paths_return limits hin hw hs hk hpv hc
  rcases h with ⟨ws, -, -, hnil⟩ | h
  · exact absurd hnil hpv
  obtain ⟨fuel', serial', streamed', hserial', hstream', hperm⟩ := h execute hc
  obtain rfl := Option.some.inj (hserial.symm.trans hserial')
  have heq : streamed = streamed' := by
    simp only [streamingPlan, hin, streamingSliceNs_eq hin hw, Option.bind_eq_bind,
      Option.bind_some] at hstream hstream'
    exact windowScan_unique hstream hstream'
  subst heq
  have hcount := hperm.count_eq x
  rw [hrows, hrows', count_flatMap, count_flatMap] at hcount
  exact hcount

/-- With a backend that returns all it stores, a sample past a window stays in the serial path
only. -/
theorem PathsAgree.bounded (hx : x ∈ store)
    (hreq : x.pv ∈ requestedPvValues scan.pushablePredicates) :
    ∀ w ∈ windows, toBinary64 x.time ≤ toBinary64 w.2 := by
  have hw := PathsAgree.windowOk hn hk hpv hin h
  have hc := allAnswers_conforms store
  have hall : ∀ b e, (secondsRows scan (allAnswers store) b e).count x =
      shardCount scan x.pv * store.count x := fun b e =>
    count_flatMap_ite fun pvs _ =>
      count_answerWith (requestOf_shardPredicates (otherPredicates scan.pushablePredicates) pvs b e) x
  have hpos : 0 < shardCount scan x.pv * store.count x :=
    Nat.mul_pos ((countP_pvShards_pos_iff hk).mpr hreq) (count_pos_iff.mpr hx)
  -- what each path keeps of one slice, for a test of the slice
  have hslice : ∀ (test : Piece Int → Int → Bool) (p : Piece Int),
      ((sliceRows scan (allAnswers store) p).filter fun y => test p y.time).count x =
        if test p x.time then shardCount scan x.pv * store.count x else 0 := by
    intro test p
    split
    · rename_i ht
      rw [List.count_filter (p := fun y : Sample => test p y.time) ht, sliceRows, hall]
    · rename_i ht
      exact count_filter_of_not ht
  have hserial : ∀ w ∈ windows, (serialRows scan (allAnswers store)
      (serialSliceNs scan.windowShards.sliceNs w) w).count x =
        if decide (toBinary64 w.1 ≤ toBinary64 x.time) then shardCount scan x.pv * store.count x
        else 0 := by
    intro w hwm
    unfold serialRows
    rw [count_flatMap_ite (fun p _ => hslice (Piece.keepsFrom toBinary64) p),
      (Lib.Tiling.evenPieces_cut (hw w hwm).le (serialSliceNs_pos hs w)).countP_keepsFrom
        toBinary64_mono]
    split <;> simp [*]
  have hstream : ∀ w ∈ windows, (streamRows scan (allAnswers store)
      (streamSliceNs scan.windowShards.sliceNs windows) w).count x =
        if roundsInto w x.time then shardCount scan x.pv * store.count x else 0 := by
    intro w hwm
    have hpos := streamSliceNs_nonneg hs (ne_nil_of_mem hwm)
    unfold streamRows
    rw [count_flatMap_ite (fun p _ => hslice (Piece.keeps toBinary64) p),
      (Lib.Tiling.evenPieces_cut (hw w hwm).le hpos).countP_keeps toBinary64_mono]
    simp only [roundsInto, Bool.and_eq_true, decide_eq_true_eq]
    split <;> simp
  have hsum := PathsAgree.count hn hs hk hpv hin h hc x
  rw [map_congr_left hserial, map_congr_left hstream,
    sum_map_ite_const windows (fun w => decide (toBinary64 w.1 ≤ toBinary64 x.time)),
    sum_map_ite_const windows (fun w => roundsInto w x.time)] at hsum
  have hcount := Nat.eq_of_mul_eq_mul_right hpos hsum
  intro w hwm
  by_contra hgt
  have hstart : toBinary64 w.1 ≤ toBinary64 x.time :=
    le_trans (toBinary64_mono (hw w hwm).le) (le_of_lt (not_le.mp hgt))
  have himp := imp_of_countP_eq (p := fun w => roundsInto w x.time)
    (q := fun w => decide (toBinary64 w.1 ≤ toBinary64 x.time))
    (fun v _ hv => by
      simp only [roundsInto, Bool.and_eq_true] at hv
      exact hv.1) hcount.symm w hwm (by simpa using hstart)
  simp only [roundsInto, Bool.and_eq_true, decide_eq_true_eq] at himp
  exact hgt himp.2

/-- With a backend that returns more only for the stream's first request of a window, a sample at
the window's rounded start but before its first second is returned by the stream only. -/
theorem PathsAgree.sameRequest (hx : x ∈ store)
    (hreq : x.pv ∈ requestedPvValues scan.pushablePredicates) {w : Window} (hw : w ∈ windows)
    (ht : toBinary64 x.time = toBinary64 w.1) :
    firstEndSeconds (streamSliceNs scan.windowShards.sliceNs windows) w =
        firstEndSeconds (serialSliceNs scan.windowShards.sliceNs w) w ∨
      w.1.tdiv nsPerSecond * nsPerSecond ≤ x.time := by
  by_contra hnot
  rw [not_or] at hnot
  obtain ⟨hend, hbefore⟩ := hnot
  have hok := PathsAgree.windowOk hn hk hpv hin h
  have hbound := PathsAgree.bounded hn hs hk hpv hin h hx hreq
  have hnorm := hn windows hin
  have hrel := fun v (hv : v ∈ windows) => @slices_related scan windows hnorm hs x.time hbound v hv
  -- the window is not the first one, and it is long
  obtain ⟨hs₁, hs₂, -⟩ := (hrel w hw).resolve_left fun heq => hend (by rw [heq.1])
  have hlong := long_of_firstEnd_ne hs₁ hs₂ hend
  have hc := eagerAt_conforms store (w.1.tdiv nsPerSecond)
    (firstEndSeconds (streamSliceNs scan.windowShards.sliceNs windows) w)
  have hsum := PathsAgree.count hn hs hk hpv hin h hc x
  have hothers : ∀ v ∈ windows, v ≠ w →
      (serialRows scan (eagerAt store (w.1.tdiv nsPerSecond)
          (firstEndSeconds (streamSliceNs scan.windowShards.sliceNs windows) w))
        (serialSliceNs scan.windowShards.sliceNs v) v).count x =
      (streamRows scan (eagerAt store (w.1.tdiv nsPerSecond)
          (firstEndSeconds (streamSliceNs scan.windowShards.sliceNs windows) w))
        (streamSliceNs scan.windowShards.sliceNs windows) v).count x := by
    intro v hv hne
    refine window_agree hc (hok v hv) (hbound v hv) (hrel v hv) fun htv => ?_
    have hlo := (hok w hw).lower
    have hhi := (hok w hw).upper
    have hlov := (hok v hv).lower
    have hhiv := (hok v hv).upper
    have : Std.Symm fun a b : Window => a.2 < b.1 ∨ b.2 < a.1 := ⟨fun _ _ hab => hab.symm⟩
    have hpair : windows.Pairwise fun a b => a.2 < b.1 ∨ b.2 < a.1 :=
      hnorm.disjoint.imp fun hab => Or.inl hab
    unfold int64Min int64Max at *
    rcases hpair.forall hv hw hne with hvw | hwv
    · -- an earlier window that ends at the same rounded time is short
      left
      by_contra hendv
      obtain ⟨hv₁, hv₂, -⟩ := (hrel v hv).resolve_left fun heq => hendv (by rw [heq.1])
      have hlongv := long_of_firstEnd_ne hv₁ hv₂ hendv
      have hlt : toBinary64 v.1 < toBinary64 v.2 :=
        Lib.Binary64.toBinary64_lt_of_add_lt (by omega) (by omega) (by omega)
      have hle := toBinary64_mono (le_of_lt hvw)
      omega
    · -- a later window starts after this long one
      have hlt : toBinary64 w.1 < toBinary64 w.2 :=
        Lib.Binary64.toBinary64_lt_of_add_lt (by omega) (by omega) (by omega)
      have hle := toBinary64_mono (le_of_lt hwv)
      omega
  have hthis := eq_of_sum_map_eq hnorm.nodup hsum hw hothers
  -- in this window the stream has the sample and the serial path does not
  rw [serial_count_eq (hok w hw).le (by omega) (hbound w hw),
    count_streamRows_first (hok w hw) hs₂ ht, count_streamRows_first (hok w hw) hs₁ ht] at hthis
  rw [count_eagerAt hbefore, count_eagerAt hbefore, if_neg (Ne.symm hend), if_pos rfl,
    Nat.mul_zero] at hthis
  have hpos : 0 < shardCount scan x.pv * store.count x :=
    Nat.mul_pos ((countP_pvShards_pos_iff hk).mpr hreq) (count_pos_iff.mpr hx)
  omega

end Agree

/-- **The serial fetch and the stream return the same rows exactly under `PathsSame`**: for every
window clause, slice length given or automatic, shard size, PV list, stored content and limit on
parallel requests.  Without it a row beyond a window's end is in one result only, or a row near a
window's start, or the stream fails where the fetch does not. -/
theorem paths_agree_iff (hn : ∀ windows, input.windows = some windows → Normalized windows)
    (hs : 0 ≤ scan.windowShards.sliceNs) (hk : 0 < scan.windowShards.seriesPerShard) :
    PathsAgree scan limits input store ↔ ∃ windows, input.windows = some windows ∧
      (windows = [] ∨ requestedPvValues scan.pushablePredicates = [] ∨
        PathsSame scan windows store) := by
  constructor
  · intro h
    have hreturns : ∃ windows, input.windows = some windows := by
      rcases h with ⟨ws, hin, -, -⟩ | h
      · exact ⟨ws, hin⟩
      · obtain ⟨fuel, serial, -, hserial, -, -⟩ := h _ (exactAnswers_conforms store)
        obtain ⟨ws, hin, -⟩ := Option.bind_eq_some_iff.mp hserial
        exact ⟨ws, hin⟩
    obtain ⟨windows, hin⟩ := hreturns
    refine ⟨windows, hin, ?_⟩
    by_cases hpv : requestedPvValues scan.pushablePredicates = []
    · exact Or.inr (Or.inl hpv)
    refine Or.inr (Or.inr ⟨fun w hw => ?_, fun x hx hreq => ?_, fun x hx hreq w hw ht => ?_⟩)
    · have hok := PathsAgree.windowOk hn hk hpv hin h w hw
      exact ⟨hok.length, hok.upper⟩
    · exact PathsAgree.bounded hn hs hk hpv hin h hx hreq
    · exact PathsAgree.sameRequest hn hs hk hpv hin h hx hreq hw ht
  · rintro ⟨windows, hin, hcase⟩
    by_cases hne : windows = []
    · -- no window: no row on either side
      subst hne
      refine Or.inr fun execute _ => ⟨0, [], [], ?_, ?_, List.Perm.refl _⟩
      · simp [fetchTimeSeriesWindows, hin]
      · cases input with
        | literal b e => exact absurd (literal_windows hin) (by simp)
        | subquery ws =>
          obtain rfl := Option.some.inj hin
          rfl
    by_cases hpv : requestedPvValues scan.pushablePredicates = []
    · exact Or.inl ⟨windows, hin, hne, hpv⟩
    · exact ((hcase.resolve_left hne).resolve_left hpv).pathsAgree hn hs hk hpv hin

end Paths

/-! ## 7. Two scans

No sample of a requested PV may lie behind the end of any window.  The first scan keeps to that, the
second does not. -/

/-- Samples of three PVs in the first of two windows, and one behind both of a PV that is not asked
for: both paths return the three, from two shards and slices of two seconds. -/
theorem paths_agree_iff_inside :
    PathsAgree threePvScan ⟨4, 0⟩ (.subquery [(0, 3000000000), (10000000000, 14000000000)])
      [sampleOf "A" 1200000000, sampleOf "B" 2250000000, sampleOf "C" 3000000000,
        sampleOf "D" 20000000000] := by
  refine (paths_agree_iff (fun windows hin => ?_) (by decide) (by decide)).mpr
    ⟨_, rfl, Or.inr (Or.inr ⟨by decide, by decide, by decide⟩)⟩
  obtain rfl := Option.some.inj hin
  exact ⟨by decide, by decide⟩

theorem normalized_literal (h : int64Min ≤ b * nsPerSecond ∧
    b * nsPerSecond ≤ e * nsPerSecond ∧ e * nsPerSecond ≤ int64Max) :
    ∀ windows, (WindowInput.literal b e).windows = some windows → Normalized windows :=
  fun windows hin => by
    rw [literal_windows hin]
    exact normalized_singleton h

/-- **A sample after the window stays in the serial path**: the window is `[0 s, 2 s]`, the backend
answers its last request with the sample at 2.5 s as well. -/
theorem paths_disagree_after :
    ¬ PathsAgree tenSecondScan ⟨4, 0⟩ (.literal 0 2) [sampleAt 2500000000] := by
  intro h
  have hbound := PathsAgree.bounded (normalized_literal (by decide)) (by decide) (by decide)
    (by decide) rfl h (mem_singleton_self _) (by decide) (0, 2000000000) (by decide)
  revert hbound
  decide

end MldpDriver.Query
