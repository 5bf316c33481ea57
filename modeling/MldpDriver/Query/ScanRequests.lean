/-
# Scans of the two time-series tables as lists of requests

`mldp.time_series` delivers the rows of its requests; `mldp.time_series_table` is the same scan
under a pivot with one column a PV.  Without a window clause the requests are those of the pushed
conjuncts (`executeStream`), with one they are the PV shards of the time slices, whose conjuncts on
`pv` and `time` replace the pushed ones (`prepareNextSlice`).
-/
import MldpDriver.Lib.Answers
import MldpDriver.Query.MLDPQueryClient
import MldpDriver.Query.WideTableScan

namespace MldpDriver.Query

open Lib.Answers List
open Lib.Tiling (Piece evenPieces)
open Lib.Binary64 (toBinary64)
open Pivot (LongRow LongBatch WideBatch pivotLongStreamWithSpill expectedLabels Rejected streamRows)

/-! ## 1. The scans -/

inductive Table where
  | time_series
  | time_series_table

/-- A window clause: the normalised windows, the length of a slice and the size of a PV shard. -/
structure WindowClause where
  windows : List Window
  shards : WindowShardSpec
  normalized : Normalized windows
  slice_pos : 0 < shards.sliceNs
  shard_pos : 0 < shards.seriesPerShard

/-- A scan with its pushed conjuncts on `pv` and `time`. -/
structure TableScan where
  table : Table
  conjuncts : List ScanConjunct
  window : Option WindowClause
  /-- `context.series_per_shard`, for the scan without windows. -/
  seriesPerShard : Nat
  limits : ScanLimits

def WindowClause.scan (w : WindowClause) (cs : List ScanConjunct) : PhysicalTableScan :=
  { pushablePredicates := predicatesOf cs
    windowShards := w.shards
    qualifyOutput := false
    tableAlias := "" }

/-- The stream a group opens: no sharding below a shard. -/
def windowAnswers (backend : Backend) : Answers := fun group =>
  match executeStream backend 0 group.predicates with
  | .ok batches => batches
  | .error _ => []

/-- The long batches of a scan. -/
def TableScan.Delivers (scan : TableScan) (backend : Backend)
    (batches : List (RecordBatch Sample)) : Prop :=
  match scan.window with
  | none => executeStream backend scan.seriesPerShard (predicatesOf scan.conjuncts) = .ok batches
  | some w => ∃ fuel, windowScan (w.scan scan.conjuncts) scan.limits (windowAnswers backend)
      w.windows fuel = some batches

/-- A sample as a row under the pivot; the type of a value is that of the active union child. -/
def longRow (x : Sample) : LongRow (Cell × String) :=
  ⟨some x.time, some x.pv, some (x.value, x.columnType)⟩

/-- All long batches have the one union type. -/
def longBatch (batch : RecordBatch Sample) : LongBatch String (Cell × String) :=
  ⟨"dense_union", batch.rows.map longRow⟩

inductive ScanResult where
  | long (batches : List (RecordBatch Sample))
  | wide (batches : List (WideBatch String (Cell × String)))

/-- What a scan of either table returns. -/
def TableScan.Runs (scan : TableScan) (backend : Backend) (result : ScanResult) : Prop :=
  ∃ batches, scan.Delivers backend batches ∧
    match scan.table with
    | .time_series => result = .long batches
    | .time_series_table => ∃ out,
        pivotLongStreamWithSpill Prod.snd (requestedPvValues (predicatesOf scan.conjuncts))
          (batches.map longBatch) = .ok out ∧ result = .wide out

/-- A sample is in a result: as a row, or as the cell of its time and PV. -/
def ScanResult.Shows (x : Sample) : ScanResult → Prop
  | .long batches => x ∈ batchRows batches
  | .wide out => ∃ b ∈ out, ∃ w ∈ b.rows, w.time = x.time ∧
      ∃ k : Nat, (b.columns.map Prod.fst)[k]? = some x.pv ∧
        w.cells[k]? = some (some (x.value, x.columnType))

/-- A wide result has a column for the PV. -/
def ScanResult.HasColumn (pv : String) : ScanResult → Prop
  | .long _ => False
  | .wide out => ∃ b ∈ out, pv ∈ b.columns.map Prod.fst

/-! ## 2. The fetches of a scan

`delivers_iff` reads all of these scans as one list of fetches: requests, and the rows kept of each
answer.  `correct_iff` then says what it takes for a scan to be right with every backend that keeps
a promise: nothing about shards, streams or the pivot is left in it. -/

/-- The request of a list of conjuncts; the patterns are checked on the answer. -/
def requestFetch (cs : List ScanConjunct) : Fetch QuerySpec Sample :=
  ⟨specOf cs, fun x => patternsHold cs x.pv⟩

/-- The conjuncts of one PV shard of a slice: whole seconds. -/
def sliceConjuncts (slice : Piece Int) (pvs : List String) : List ScanConjunct :=
  [.pvIn pvs, .timeFrom (slice.start.tdiv nsPerSecond), .timeTo (slice.stop.tdiv nsPerSecond)]

/-- The request of one PV shard of a slice; the answer is cut to the slice. -/
def sliceFetch (slice : Piece Int) (pvs : List String) : Fetch QuerySpec Sample :=
  ⟨specOf (sliceConjuncts slice pvs), fun x => slice.keeps toBinary64 x.time⟩

def WindowClause.fetches (w : WindowClause) (cs : List ScanConjunct) :
    List (Fetch QuerySpec Sample) :=
  w.windows.flatMap fun window =>
    (evenPieces window.1 window.2 w.shards.sliceNs).flatMap fun slice =>
      (pvShards w.shards.seriesPerShard (listedNames cs)).map (sliceFetch slice)

/-- The requests of a scan, with what is kept of each answer. -/
def TableScan.fetches (scan : TableScan) : List (Fetch QuerySpec Sample) :=
  match scan.window with
  | none => (requestConjuncts scan.seriesPerShard scan.conjuncts).map requestFetch
  | some w => w.fetches scan.conjuncts

/-- A windowed scan needs a PV list, and windows inside which the slice arithmetic stays. -/
def TableScan.Runnable (scan : TableScan) : Prop :=
  ∀ w ∈ scan.window, (w.windows = [] ∨ listedNames scan.conjuncts ≠ []) ∧
    ∀ v ∈ w.windows, v.2 - v.1 ≤ int64Max ∧ v.2 < int64Max

/-- The rows of an answer. -/
abbrev answerRows (backend : Backend) (spec : QuerySpec) : List Sample := batchRows (backend spec)

theorem batchRows_keepPatterns (cs : List ScanConjunct) (batches : List (RecordBatch Sample)) :
    batchRows (batches.map (keepPatterns cs)) =
      (batchRows batches).filter fun x => patternsHold cs x.pv := by
  simp [batchRows, flatMap_map, filter_flatMap, keepPatterns]

theorem otherPredicates_eq (cs : List ScanConjunct) : otherPredicates (predicatesOf cs) = [] := by
  simp only [otherPredicates, filter_eq_nil_iff, mem_map, forall_exists_index, and_imp]
  rintro p c - rfl
  cases c <;> simp [ScanConjunct.toPredicate]

theorem patternsHold_slice (slice : Piece Int) (pvs : List String) (pv : String) :
    patternsHold (sliceConjuncts slice pvs) pv = true := by
  simp [patternsHold, sliceConjuncts, ScanConjunct.isPattern]

theorem windowAnswers_sliceGroup (backend : Backend) (w : WindowClause) (cs : List ScanConjunct)
    (window : Window) (slice : Piece Int) (pvs : List String) (shard : Nat) :
    windowAnswers backend (sliceGroup (w.scan cs) window slice pvs shard) =
      backend (specOf (sliceConjuncts slice pvs)) := by
  have hpredicates : (sliceGroup (w.scan cs) window slice pvs shard).predicates =
      predicatesOf (sliceConjuncts slice pvs) := by
    simp only [sliceGroup, WindowClause.scan, otherPredicates_eq]
    rfl
  have hkeep : keepPatterns (sliceConjuncts slice pvs) = id := by
    funext batch
    simp [keepPatterns, patternsHold_slice]
  have hrequests : requestConjuncts 0 (sliceConjuncts slice pvs) = [sliceConjuncts slice pvs] := by
    simp [requestConjuncts]
  simp [windowAnswers, hpredicates, executeStream_eq, hrequests, hkeep]

section Delivers

variable {backend : Backend} (hfields : ∀ spec, ∀ b ∈ backend spec, b.fields = timeSeriesFields)

include hfields

theorem planned_rows (w : WindowClause) (cs : List ScanConjunct) :
    batchRows ((plannedGroups (w.scan cs) w.windows).flatMap
        (delivered (w.scan cs) (windowAnswers backend))) =
      fetched (answerRows backend) (w.fetches cs) := by
  have hgroup : ∀ (window : Window) (slice : Piece Int) (pvs : List String) (shard : Nat),
      batchRows (delivered (w.scan cs) (windowAnswers backend)
        (sliceGroup (w.scan cs) window slice pvs shard)) =
      (answerRows backend (sliceFetch slice pvs).request).filter (sliceFetch slice pvs).keep := by
    intro window slice pvs shard
    have hanswer := windowAnswers_sliceGroup backend w cs window slice pvs shard
    rw [delivered_rows (by rw [hanswer]; exact hfields _), hanswer]
    rfl
  have hslice : ∀ (window : Window) (slice : Piece Int),
      (sliceGroups (w.scan cs) window slice).flatMap (fun g =>
        batchRows (delivered (w.scan cs) (windowAnswers backend) g)) =
      fetched (answerRows backend)
        ((pvShards w.shards.seriesPerShard (listedNames cs)).map (sliceFetch slice)) := by
    intro window slice
    have hnames : requestedPvValues (w.scan cs).pushablePredicates = listedNames cs :=
      requestedPvValues_eq cs
    have hshards : (w.scan cs).windowShards = w.shards := rfl
    simp only [sliceGroups, hnames, hshards, flatMap_map, hgroup, fetched]
    rw [← flatMap_map (f := Prod.fst)
      (g := fun pvs => (answerRows backend (sliceFetch slice pvs).request).filter
        (sliceFetch slice pvs).keep), zipIdx_map_fst]
  simp only [plannedGroups, flatMap_assoc, batchRows] at hslice ⊢
  simp only [hslice, WindowClause.fetches, fetched, flatMap_assoc]
  rfl

omit hfields in
theorem request_rows (backend : Backend) (requests : List (List ScanConjunct)) :
    batchRows (requests.flatMap fun cs => (backend (specOf cs)).map (keepPatterns cs)) =
      fetched (answerRows backend) (requests.map requestFetch) := by
  have hone : ∀ cs, batchRows ((backend (specOf cs)).map (keepPatterns cs)) =
      (answerRows backend (requestFetch cs).request).filter (requestFetch cs).keep := fun cs =>
    batchRows_keepPatterns cs _
  rw [fetched, flatMap_map, ← funext hone]
  simp only [batchRows, flatMap_assoc]

section Windows

variable (w : WindowClause) (cs : List ScanConjunct) (limits : ScanLimits)

theorem windowScan_runs (hpv : listedNames cs ≠ []) :
    ((∃ batches fuel, windowScan (w.scan cs) limits (windowAnswers backend) w.windows fuel =
        some batches) ↔ ∀ v ∈ w.windows, v.2 - v.1 ≤ int64Max ∧ v.2 < int64Max) ∧
      ∀ batches fuel, windowScan (w.scan cs) limits (windowAnswers backend) w.windows fuel =
        some batches → batchRows batches = fetched (answerRows backend) (w.fetches cs) := by
  have hnames : requestedPvValues (w.scan cs).pushablePredicates ≠ [] := by
    rw [show requestedPvValues (w.scan cs).pushablePredicates = listedNames cs from
      requestedPvValues_eq cs]
    exact hpv
  have htyped : ∀ v ∈ w.windows, int64Min ≤ v.1 ∧ v.1 ≤ v.2 := fun v hv =>
    ⟨(w.normalized.typed v hv).1, (w.normalized.typed v hv).2.1⟩
  have hok : ∀ batches fuel, windowScan (w.scan cs) limits (windowAnswers backend) w.windows fuel =
      some batches → ∀ v ∈ w.windows, WindowOk v := fun _ _ h =>
    windowScan_some_ok w.shard_pos hnames htyped h
  refine ⟨⟨?_, fun h => ?_⟩, fun batches fuel h => ?_⟩
  · rintro ⟨batches, fuel, h⟩ v hv
    exact ⟨(hok _ _ h v hv).length, (hok _ _ h v hv).upper⟩
  · obtain ⟨fuel, hrun⟩ := windowScan_eq limits (windowAnswers backend) w.slice_pos w.shard_pos
      hnames fun v hv => ⟨(htyped v hv).1, (htyped v hv).2, (h v hv).1, (h v hv).2⟩
    exact ⟨_, fuel, hrun⟩
  · obtain ⟨fuel', hrun⟩ := windowScan_eq limits (windowAnswers backend) w.slice_pos w.shard_pos
      hnames (hok _ _ h)
    obtain rfl := windowScan_unique h hrun
    exact planned_rows hfields w cs

omit hfields in
theorem windowScan_none (hempty : w.windows = []) (fuel : Nat) :
    windowScan (w.scan cs) limits (windowAnswers backend) w.windows fuel = some [] := by
  simp [windowScan, hempty]

omit hfields in
theorem windowScan_refused (hne : w.windows ≠ []) (hpv : listedNames cs = []) (fuel : Nat) :
    windowScan (w.scan cs) limits (windowAnswers backend) w.windows fuel = none := by
  have hnames : requestedPvValues (w.scan cs).pushablePredicates = [] := by
    rw [← hpv]
    exact requestedPvValues_eq cs
  cases hcons : w.windows with
  | nil => exact absurd hcons hne
  | cons v later => simp [windowScan, openStream, hnames]

end Windows

/-- **A scan is its fetches.**  It delivers something exactly when it can run, and then the rows its
fetches keep. -/
theorem delivers_iff (scan : TableScan) :
    ((∃ batches, scan.Delivers backend batches) ↔ scan.Runnable) ∧
      ∀ batches, scan.Delivers backend batches →
        batchRows batches = fetched (answerRows backend) scan.fetches := by
  cases hw : scan.window with
  | none =>
    simp only [TableScan.Delivers, TableScan.Runnable, TableScan.fetches, hw, executeStream_eq]
    refine ⟨by simp, fun batches h => ?_⟩
    obtain rfl := Except.ok.inj h
    exact request_rows backend _
  | some w =>
    simp only [TableScan.Delivers, TableScan.Runnable, TableScan.fetches, hw, Option.mem_some_iff,
      forall_eq']
    by_cases hempty : w.windows = []
    · refine ⟨iff_of_true ⟨[], 0, windowScan_none w _ _ hempty 0⟩ ⟨Or.inl hempty, by simp [hempty]⟩,
        ?_⟩
      rintro batches ⟨fuel, h⟩
      rw [windowScan_none w _ _ hempty] at h
      obtain rfl := Option.some.inj h
      simp [WindowClause.fetches, hempty, fetched, batchRows]
    · by_cases hpv : listedNames scan.conjuncts = []
      · simp [windowScan_refused w _ _ hempty hpv, hempty, hpv]
      · obtain ⟨hruns, hrows⟩ := windowScan_runs hfields w scan.conjuncts scan.limits hpv
        refine ⟨hruns.trans (by simp [hpv]), ?_⟩
        rintro batches ⟨fuel, h⟩
        exact hrows batches fuel h

end Delivers

/-! ## 3. The pivot over a scan -/

abbrev PivotRow := LongRow (Cell × String)

theorem streamRows_longBatch (batches : List (RecordBatch Sample)) :
    streamRows (batches.map longBatch) = (batchRows batches).map longRow := by
  simp [streamRows, longBatch, batchRows, flatMap_map, map_flatMap]

theorem longRow_injective {x y : Sample} (h : longRow x = longRow y) : x = y := by
  cases x
  cases y
  simp only [longRow, LongRow.mk.injEq, Option.some.injEq, Prod.mk.injEq] at h
  obtain ⟨rfl, rfl, rfl, rfl⟩ := h
  rfl

theorem rejected_subperm {labels : List String} {rows more : List PivotRow}
    (h : Rejected Prod.snd labels rows) (hsub : rows.Subperm more) :
    Rejected Prod.snd labels more := by
  have hmem : ∀ {r}, r ∈ rows → r ∈ more := fun hr => hsub.subset hr
  cases h with
  | nullTime r hr ht => exact .nullTime r (hmem hr) ht
  | nullPv r hr hp => exact .nullPv r (hmem hr) hp
  | unrequested r hr pv hpv hne hnot => exact .unrequested r (hmem hr) pv hpv hne hnot
  | mixed r r' hr hr' hpv hclash => exact .mixed r r' (hmem hr) (hmem hr') hpv hclash
  | duplicate hdup =>
    refine .duplicate fun hpair => hdup ?_
    obtain ⟨l, hperm, hsub⟩ := hsub
    exact hperm.pairwise_iff (fun hab ht => (hab ht.symm).symm) |>.mp (hpair.sublist hsub)

theorem pivot_ok_iff {batches : List (RecordBatch Sample)} (labels : List String)
    (hmax : ∀ x ∈ batchRows batches, x.time ≤ int64Max) :
    ((∃ out, pivotLongStreamWithSpill Prod.snd labels (batches.map longBatch) = .ok out) ↔
        ¬ Rejected Prod.snd labels ((batchRows batches).map longRow)) ∧
      ∀ out, pivotLongStreamWithSpill Prod.snd labels (batches.map longBatch) = .ok out →
        Pivot.IsPivot Prod.snd labels ((batchRows batches).map longRow) out := by
  have htimes : ∀ r ∈ streamRows (batches.map longBatch), ∀ t, r.time = some t → t ≤ 2 ^ 63 - 1 := by
    rw [streamRows_longBatch]
    intro r hr t ht
    obtain ⟨x, hx, rfl⟩ := mem_map.mp hr
    obtain rfl := Option.some.inj ht
    exact hmax x hx
  have houtcome := @Pivot.pivotLongStreamWithSpill_outcome _ _ _ Prod.snd "dense_union"
    (batches.map longBatch) (by simp [longBatch]) htimes labels
  rw [streamRows_longBatch] at houtcome
  rcases houtcome with ⟨out, hout, hpivot, hgood⟩ | ⟨⟨e, he⟩, hbad⟩
  · exact ⟨⟨fun _ => hgood, fun _ => ⟨out, hout⟩⟩, fun out' hout' =>
      Except.ok.inj (hout.symm.trans hout') ▸ hpivot⟩
  · exact ⟨⟨fun ⟨out, hout⟩ => by simp [he] at hout, fun hgood => absurd hbad hgood⟩,
      fun out hout => by simp [he] at hout⟩

section Shows

variable {labels : List String} {rows : List Sample}
  {out : List (WideBatch String (Cell × String))}
  (h : Pivot.IsPivot Prod.snd labels (rows.map longRow) out)

include h

theorem isPivot_row_of_time {x : Sample} (hx : x ∈ rows) :
    ∃ b ∈ out, ∃ w ∈ b.rows, w.time = x.time := by
  have htime := (h.times x.time).mpr ⟨longRow x, mem_map_of_mem hx, rfl⟩
  obtain ⟨w, hw, ht⟩ := mem_map.mp htime
  obtain ⟨b, hb, hw⟩ := mem_flatMap.mp hw
  exact ⟨b, hb, w, hw, ht⟩

/-- **A cell of the pivot is a sample of the scan**, and the other way round. -/
theorem isPivot_shows_iff (hok : ¬ Rejected Prod.snd labels (rows.map longRow)) {x : Sample} :
    ScanResult.Shows x (.wide out) ↔ x ∈ rows := by
  constructor
  · rintro ⟨b, hb, w, hw, ht, k, hlabel, hcell⟩
    have hw' : w ∈ out.flatMap (·.rows) := mem_flatMap.mpr ⟨b, hb, hw⟩
    rw [h.labels b hb] at hlabel
    obtain ⟨hsome, hnone⟩ := h.cells w hw' k x.pv hlabel
    by_cases hrow : ∃ y ∈ rows, y.time = w.time ∧ y.pv = x.pv
    · obtain ⟨y, hy, hyt, hyp⟩ := hrow
      have hval := hsome (longRow y) (mem_map_of_mem hy) (by simp [longRow, hyt])
        (by simp [longRow, hyp])
      rw [hcell] at hval
      have hyx : longRow y = longRow x := by
        simp only [longRow, LongRow.mk.injEq, hyt, ht, hyp, true_and]
        exact (Option.some.inj hval).symm
      rwa [← longRow_injective hyx]
    · rw [hnone ?_] at hcell
      · simp at hcell
      · intro r hr hrt hrp
        obtain ⟨y, hy, rfl⟩ := mem_map.mp hr
        exact hrow ⟨y, hy, Option.some.inj hrt, Option.some.inj hrp⟩
  · intro hx
    obtain ⟨b, hb, w, hw, ht⟩ := isPivot_row_of_time h hx
    have hlabel : x.pv ∈ expectedLabels labels (rows.map longRow) := by
      unfold expectedLabels
      split
      · rw [mem_eraseDups, mem_filterMap]
        exact ⟨longRow x, mem_map_of_mem hx, rfl⟩
      · rename_i hne
        by_contra hnot
        exact hok (.unrequested (longRow x) (mem_map_of_mem hx) x.pv rfl hne hnot)
    obtain ⟨k, hk⟩ := mem_iff_getElem?.mp hlabel
    refine ⟨b, hb, w, hw, ht, k, by rw [h.labels b hb]; exact hk, ?_⟩
    exact (h.cells w (mem_flatMap.mpr ⟨b, hb, hw⟩) k x.pv hk).1 (longRow x)
      (mem_map_of_mem hx) (by simp [longRow, ht]) rfl

end Shows

theorem pivot_empty (labels : List String) {batches : List (RecordBatch Sample)}
    (h : batchRows batches = []) :
    pivotLongStreamWithSpill Prod.snd labels (batches.map longBatch) = .ok [] := by
  have hrows : ∀ b ∈ batches, b.rows = [] := fun b hb => flatMap_eq_nil_iff.mp h b hb
  have hskip : ∀ s : Pivot.PivotState String (Cell × String),
      (batches.map longBatch).foldlM (Pivot.ingestBatch Prod.snd labels) s = .ok s := by
    intro s
    induction batches with
    | nil => rfl
    | cons b batches ih =>
      have hb : (longBatch b).rows = [] := by simp [longBatch, hrows b mem_cons_self]
      rw [map_cons, foldlM_cons]
      simp only [Pivot.ingestBatch, hb, isEmpty_nil, if_true]
      exact ih (by simpa [batchRows, hrows b mem_cons_self] using h)
        fun c hc => hrows c (mem_cons_of_mem _ hc)
  simp [pivotLongStreamWithSpill, hskip, bind, Except.bind]

/-! ## 4. What it takes for a scan to be right -/

/-- What the backend stores: buckets of samples with 64-bit times. -/
structure Archive where
  buckets : List (List Sample)
  times : ∀ bucket ∈ buckets, ∀ x ∈ bucket, x.time ≤ int64Max

/-- A stored sample. -/
def Archive.Stores (archive : Archive) (x : Sample) : Prop := ∃ bucket ∈ archive.buckets, x ∈ bucket

/-- The backend keeps its promise on every request. -/
structure Promised (bounds : Bounds QuerySpec Sample) (archive : Archive) (backend : Backend) :
    Prop where
  fields : ∀ spec, ∀ b ∈ backend spec, b.fields = timeSeriesFields
  kept : bounds.Kept archive.buckets (answerRows backend)

/-- **A result is right**: it shows every stored sample of `low`, only stored samples of `high`, and
only columns of `column`. -/
structure Answered (archive : Archive) (low high : Sample → Prop) (column : String → Prop)
    (result : ScanResult) : Prop where
  all : ∀ x, archive.Stores x → low x → result.Shows x
  only : ∀ x, result.Shows x → archive.Stores x ∧ high x
  columns : ∀ pv, result.HasColumn pv → column pv

/-- A scan is right with every backend that keeps its promise: it returns a result, without an
error, and the result is right. -/
def TableScan.Correct (scan : TableScan) (bounds : Bounds QuerySpec Sample) (archive : Archive)
    (low high : Sample → Prop) (column : String → Prop) : Prop :=
  ∀ backend, Promised bounds archive backend → ∃ result, scan.Runs backend result ∧
    Answered archive low high column result

/-- The wide table adds: the rows that may be delivered have a pivot, and its columns are right. -/
def TableScan.Pivots (scan : TableScan) (rows : List Sample) (column : String → Prop) : Prop :=
  scan.table = .time_series_table →
    ¬ Rejected Prod.snd (listedNames scan.conjuncts) (rows.map longRow) ∧
      (rows ≠ [] → ∀ pv ∈ expectedLabels (listedNames scan.conjuncts) (rows.map longRow), column pv)

section Correct

variable {scan : TableScan} {bounds : Bounds QuerySpec Sample} {archive : Archive}
  {low high : Sample → Prop} {column : String → Prop}

/-- A backend with the given answers. -/
def backendOf (answer : QuerySpec → List Sample) : Backend := fun spec =>
  [⟨timeSeriesFields, answer spec⟩]

variable {answer : QuerySpec → List Sample}

theorem backendOf_promised (h : bounds.Kept archive.buckets answer) :
    Promised bounds archive (backendOf answer) := by
  have hrows : answerRows (backendOf answer) = answer := by
    funext spec
    simp [answerRows, batchRows, backendOf]
  exact ⟨by simp [backendOf], by rwa [hrows]⟩

variable {fetches : List (Fetch QuerySpec Sample)}

theorem fetched_stored (h : bounds.Kept archive.buckets answer) {x : Sample}
    (hx : x ∈ fetched answer fetches) :
    archive.Stores x := by
  obtain ⟨f, -, -, bucket, hb, hx, -⟩ := mem_deliverable.mp (h.le_deliverable hx)
  exact ⟨bucket, hb, hx⟩

theorem fetched_times (h : bounds.Kept archive.buckets answer) :
    ∀ x ∈ fetched answer fetches, x.time ≤ int64Max := by
  intro x hx
  obtain ⟨bucket, hb, hx⟩ := fetched_stored h hx
  exact archive.times bucket hb x hx

theorem runs_shows {backend : Backend} (hp : Promised bounds archive backend) {result : ScanResult}
    (h : scan.Runs backend result) :
    (∀ x, result.Shows x ↔ x ∈ fetched (answerRows backend) scan.fetches) ∧
      (scan.table = .time_series_table →
        ¬ Rejected Prod.snd (listedNames scan.conjuncts)
          ((fetched (answerRows backend) scan.fetches).map longRow)) ∧
      ∀ pv, result.HasColumn pv ↔ scan.table = .time_series_table ∧
        fetched (answerRows backend) scan.fetches ≠ [] ∧
        pv ∈ expectedLabels (listedNames scan.conjuncts)
          ((fetched (answerRows backend) scan.fetches).map longRow) := by
  obtain ⟨batches, hdel, hres⟩ := h
  have hrows := (delivers_iff hp.fields scan).2 batches hdel
  rw [← hrows]
  cases ht : scan.table with
  | time_series =>
    simp only [ht] at hres
    subst hres
    simp [ScanResult.Shows, ScanResult.HasColumn]
  | time_series_table =>
    simp only [ht, requestedPvValues_eq] at hres
    obtain ⟨out, hout, rfl⟩ := hres
    have htimes : ∀ x ∈ batchRows batches, x.time ≤ int64Max := by
      rw [hrows]
      exact fetched_times hp.kept
    obtain ⟨hok, hpivot⟩ := pivot_ok_iff (listedNames scan.conjuncts) htimes
    have hnot := hok.mp ⟨out, hout⟩
    have hpivot := hpivot out hout
    refine ⟨fun x => isPivot_shows_iff hpivot hnot, fun _ => hnot, fun pv => ?_⟩
    simp only [ScanResult.HasColumn, true_and]
    constructor
    · rintro ⟨b, hb, hpv⟩
      refine ⟨fun hempty => ?_, by rwa [← hpivot.labels b hb]⟩
      rw [pivot_empty _ hempty] at hout
      obtain rfl := Except.ok.inj hout
      simp at hb
    · rintro ⟨hne, hpv⟩
      obtain ⟨x, hx⟩ := exists_mem_of_ne_nil _ hne
      obtain ⟨b, hb, -⟩ := isPivot_row_of_time hpivot hx
      exact ⟨b, hb, by rwa [hpivot.labels b hb]⟩

theorem runs_of_pivots {backend : Backend} (hp : Promised bounds archive backend)
    (hrun : scan.Runnable)
    (hpivots : scan.Pivots (bounds.deliverable archive.buckets scan.fetches) column) :
    ∃ result, scan.Runs backend result := by
  obtain ⟨batches, hdel⟩ := (delivers_iff hp.fields scan).1.mpr hrun
  have hrows := (delivers_iff hp.fields scan).2 batches hdel
  cases ht : scan.table with
  | time_series => exact ⟨.long batches, batches, hdel, by simp only [ht]⟩
  | time_series_table =>
    have htimes : ∀ x ∈ batchRows batches, x.time ≤ int64Max := by
      rw [hrows]
      exact fetched_times hp.kept
    have hnot : ¬ Rejected Prod.snd (listedNames scan.conjuncts)
        ((batchRows batches).map longRow) := by
      rw [hrows]
      exact fun hrej => (hpivots ht).1
        (rejected_subperm hrej ((hp.kept.subperm _).map fun _ _ => longRow_injective))
    obtain ⟨out, hout⟩ := (pivot_ok_iff _ htimes).1.mpr hnot
    exact ⟨.wide out, batches, hdel, by simp only [ht, requestedPvValues_eq]; exact ⟨out, hout, rfl⟩⟩

theorem mem_expectedLabels_mono {labels : List String} {rows more : List Sample}
    (hsub : ∀ x ∈ rows, x ∈ more) {pv : String}
    (h : pv ∈ expectedLabels labels (rows.map longRow)) :
    pv ∈ expectedLabels labels (more.map longRow) := by
  unfold expectedLabels at h ⊢
  split
  · rename_i hnil
    rw [if_pos hnil, mem_eraseDups, mem_filterMap] at h
    obtain ⟨r, hr, hpv⟩ := h
    obtain ⟨x, hx, rfl⟩ := mem_map.mp hr
    rw [mem_eraseDups, mem_filterMap]
    exact ⟨longRow x, mem_map_of_mem (hsub x hx), hpv⟩
  · rename_i hnil
    rwa [if_neg hnil] at h

/-- **When a scan is right with every backend**: it can run, its requests ask for all that has to be
shown, nothing else may come back, and the rows that may come back have a pivot. -/
theorem correct_iff (scan : TableScan) (bounds : Bounds QuerySpec Sample) (archive : Archive)
    (low high : Sample → Prop) (column : String → Prop) :
    scan.Correct bounds archive low high column ↔
      scan.Runnable ∧
      (∀ x, archive.Stores x → low x → x ∈ bounds.required archive.buckets scan.fetches) ∧
      (∀ x ∈ bounds.deliverable archive.buckets scan.fetches, high x) ∧
      scan.Pivots (bounds.deliverable archive.buckets scan.fetches) column := by
  constructor
  · intro h
    have hanswer : ∀ answer, answerRows (backendOf answer) = answer := fun answer => by
      funext spec
      simp [answerRows, batchRows, backendOf]
    have hleast := backendOf_promised (least_kept bounds archive.buckets)
    have hgreatest := backendOf_promised (greatest_kept bounds archive.buckets)
    obtain ⟨r, hr, hleastAnswer⟩ := h _ hleast
    obtain ⟨r', hr', hgreatestAnswer⟩ := h _ hgreatest
    obtain ⟨hshows, -, -⟩ := runs_shows hleast hr
    obtain ⟨hshows', hpivot, hcolumns⟩ := runs_shows hgreatest hr'
    rw [hanswer] at hshows hshows' hpivot
    simp only [hanswer] at hcolumns
    refine ⟨?_, fun x hx hlow => (hshows x).mp (hleastAnswer.all x hx hlow),
      fun x hx => (hgreatestAnswer.only x ((hshows' x).mpr hx)).2,
      fun ht => ⟨hpivot ht, fun hne pv hpv =>
        hgreatestAnswer.columns pv ((hcolumns pv).mpr ⟨ht, hne, hpv⟩)⟩⟩
    obtain ⟨batches, hdel, -⟩ := hr
    exact (delivers_iff hleast.fields scan).1.mp ⟨batches, hdel⟩
  · rintro ⟨hrun, hlow, hhigh, hpivots⟩ backend hp
    obtain ⟨result, hresult⟩ := runs_of_pivots hp hrun hpivots
    obtain ⟨hshows, -, hcolumns⟩ := runs_shows hp hresult
    refine ⟨result, hresult, fun x hx hl => ?_, fun x hx => ?_, fun pv hpv => ?_⟩
    · exact (hshows x).mpr (hp.kept.required_le (hlow x hx hl))
    · have hmem := (hshows x).mp hx
      exact ⟨fetched_stored hp.kept hmem, hhigh x (hp.kept.le_deliverable hmem)⟩
    · obtain ⟨ht, hne, hpv⟩ := (hcolumns pv).mp hpv
      have hsub : ∀ x ∈ fetched (answerRows backend) scan.fetches,
          x ∈ bounds.deliverable archive.buckets scan.fetches := fun x hx =>
        hp.kept.le_deliverable hx
      obtain ⟨x, hx⟩ := exists_mem_of_ne_nil _ hne
      exact (hpivots ht).2 (ne_nil_of_mem (hsub x hx)) pv (mem_expectedLabels_mono hsub hpv)

end Correct

/-! ## 5. The PVs and the times of a scan's fetches -/

/-- Whole seconds a request asks for, and the times kept of its answer. -/
structure TimeRange where
  beginSeconds : Int
  endSeconds : Int
  keep : Int → Bool

/-- The seconds of a slice, and the slice. -/
def sliceRange (slice : Piece Int) : TimeRange :=
  ⟨slice.start.tdiv nsPerSecond, slice.stop.tdiv nsPerSecond, slice.keeps toBinary64⟩

/-- The time ranges of a scan: the one of its bounds, or those of its slices. -/
def TableScan.ranges (scan : TableScan) : List TimeRange :=
  match scan.window with
  | none => [⟨(lastRange scan.conjuncts).1, (lastRange scan.conjuncts).2, fun _ => true⟩]
  | some w => w.windows.flatMap fun window =>
      (evenPieces window.1 window.2 w.shards.sliceNs).map sliceRange

/-- The PVs a scan returns rows of: those of its selector that match every pattern, or with windows
those it lists. -/
def TableScan.requestedPv (scan : TableScan) (pv : String) : Bool :=
  match scan.window with
  | none => (selectorOf scan.conjuncts).selects pv && patternsHold scan.conjuncts pv
  | some _ => (listedNames scan.conjuncts).contains pv

theorem selectorOf_ne_nil {cs : List ScanConjunct} (h : listedNames cs ≠ []) (pv : String) :
    (selectorOf cs).selects pv = (listedNames cs).contains pv := by
  rw [selectorOf, if_neg (by simpa using h), PvSelector.selects, contains_eq_mem,
    contains_eq_mem]
  exact decide_eq_decide.mpr mem_eraseDups

theorem listedNames_shardConjuncts (cs : List ScanConjunct) (shard : List String) :
    listedNames (shardConjuncts cs shard) = shard := by
  have hnone : (cs.filter fun c => !c.isList).flatMap (·.names) = [] := by
    refine flatMap_eq_nil_iff.mpr fun c hc => names_eq_nil ?_
    simpa using (mem_filter.mp hc).2
  rw [listedNames, shardConjuncts, flatMap_append, hnone]
  simp [ScanConjunct.names]

theorem lastRange_shardConjuncts (cs : List ScanConjunct) (shard : List String) :
    lastRange (shardConjuncts cs shard) = lastRange cs := by
  have hfilter : ∀ (range : Int × Int), (cs.filter fun c => !c.isList).foldl ScanConjunct.bound range =
      cs.foldl ScanConjunct.bound range := by
    induction cs with
    | nil => intro range; rfl
    | cons c cs ih =>
      intro range
      rw [filter_cons]
      cases hc : c.isList with
      | false => exact ih _
      | true =>
        have hskip : c.bound range = range := by cases c <;> first | rfl | cases hc
        rw [foldl_cons, hskip]
        exact ih range
  simp [lastRange, shardConjuncts, foldl_append, hfilter, ScanConjunct.bound]

theorem patternsHold_shardConjuncts (cs : List ScanConjunct) (shard : List String) (pv : String) :
    patternsHold (shardConjuncts cs shard) pv = patternsHold cs pv := by
  have hfilter : (shardConjuncts cs shard).filter (·.isPattern) = cs.filter (·.isPattern) := by
    rw [shardConjuncts, filter_append, filter_filter]
    have hone : [ScanConjunct.pvIn shard].filter (·.isPattern) = [] := rfl
    rw [hone, append_nil]
    refine filter_congr fun c _ => ?_
    cases c <;> rfl
  simp [patternsHold, hfilter]

theorem exists_shard_iff {k : Nat} (hk : 0 < k) {pvs : List String} {pv : String} :
    (∃ shard ∈ pvShards k pvs, pv ∈ shard) ↔ pv ∈ pvs := by
  rw [← countP_pvShards_pos_iff hk, countP_pos_iff]
  simp

theorem pvShards_nonempty {k : Nat} (hk : 0 < k) {pvs shard : List String}
    (h : shard ∈ pvShards k pvs) : shard ≠ [] := by
  obtain ⟨m, hm, rfl⟩ := mem_map.mp h
  rw [mem_range, Nat.lt_div_iff_mul_lt hk] at hm
  have hcomm := Nat.mul_comm m k
  have hlen : m * k < pvs.length := by omega
  intro hnil
  have := congrArg List.length hnil
  simp only [List.length_take, length_drop, length_nil] at this
  omega

section Factor

variable {scan : TableScan} {x : Sample} {asks : Nat → Nat → Prop}

/-- A request that selects the PV, keeps the sample and asks for seconds of a kind. -/
def TableScan.Fetches (scan : TableScan) (asks : Nat → Nat → Prop) (x : Sample) : Prop :=
  ∃ f ∈ scan.fetches, f.keep x = true ∧ f.request.pvSelector.selects x.pv = true ∧
    asks f.request.beginTime f.request.endTime

/-- A time range of the scan that keeps the time and asks for seconds of a kind. -/
def TableScan.Spans (scan : TableScan) (asks : Nat → Nat → Prop) (t : Int) : Prop :=
  ∃ r ∈ scan.ranges, r.keep t = true ∧ asks (epochSeconds r.beginSeconds) (epochSeconds r.endSeconds)

theorem requestConjuncts_iff (k : Nat) (cs : List ScanConjunct) :
    (∃ request ∈ requestConjuncts k cs, patternsHold request x.pv = true ∧
        (selectorOf request).selects x.pv = true ∧
          asks (specOf request).beginTime (specOf request).endTime) ↔
      (selectorOf cs).selects x.pv = true ∧ patternsHold cs x.pv = true ∧
        asks (specOf cs).beginTime (specOf cs).endTime := by
  unfold requestConjuncts
  split
  · rename_i hk
    have hpos : 0 < k := Nat.pos_of_ne_zero hk.1
    have hne : listedNames cs ≠ [] := by
      intro hnil
      simp [hnil] at hk
    have hshard : ∀ shard ∈ pvShards k (listedNames cs).eraseDups,
        (selectorOf (shardConjuncts cs shard)).selects x.pv = shard.contains x.pv := by
      intro shard hshard
      have hnames := listedNames_shardConjuncts cs shard
      rw [selectorOf_ne_nil (by rw [hnames]; exact pvShards_nonempty hpos hshard), hnames]
    have hlisted : (selectorOf cs).selects x.pv = true ↔
        ∃ shard ∈ pvShards k (listedNames cs).eraseDups, x.pv ∈ shard := by
      rw [selectorOf_ne_nil hne, exists_shard_iff hpos, mem_eraseDups, contains_iff_mem]
    rw [hlisted]
    simp only [mem_map, specOf, lastRange_shardConjuncts, exists_exists_and_eq_and,
      patternsHold_shardConjuncts]
    constructor
    · rintro ⟨shard, hs, hpat, hsel, hasks⟩
      rw [hshard shard hs, contains_iff_mem] at hsel
      exact ⟨⟨shard, hs, hsel⟩, hpat, hasks⟩
    · rintro ⟨⟨shard, hs, hmem⟩, hpat, hasks⟩
      exact ⟨shard, hs, hpat, by rw [hshard shard hs, contains_iff_mem]; exact hmem, hasks⟩
  · simp only [mem_singleton, exists_eq_left]
    exact ⟨fun ⟨h1, h2, h3⟩ => ⟨h2, h1, h3⟩, fun ⟨h1, h2, h3⟩ => ⟨h2, h1, h3⟩⟩

/-- **A scan fetches the requested PVs at the times of its ranges**, however it is cut into shards
and slices. -/
theorem fetches_iff :
    scan.Fetches asks x ↔ scan.requestedPv x.pv = true ∧ scan.Spans asks x.time := by
  unfold TableScan.Fetches TableScan.Spans TableScan.fetches TableScan.ranges TableScan.requestedPv
  cases hw : scan.window with
  | none =>
    simp only [mem_map, exists_exists_and_eq_and, mem_singleton, exists_eq_left,
      true_and, Bool.and_eq_true]
    exact (requestConjuncts_iff scan.seriesPerShard scan.conjuncts).trans (and_assoc).symm
  | some w =>
    have hslice : ∀ (slice : Piece Int) (pvs : List String), pvs ≠ [] →
        ((specOf (sliceConjuncts slice pvs)).pvSelector.selects x.pv = true ↔ x.pv ∈ pvs) := by
      intro slice pvs hne
      have hnames : listedNames (sliceConjuncts slice pvs) = pvs := by
        simp [listedNames, sliceConjuncts, ScanConjunct.names]
      rw [specOf, selectorOf_ne_nil (by rwa [hnames]), hnames, contains_iff_mem]
    simp only [WindowClause.fetches, mem_flatMap, mem_map, contains_iff_mem,
      ← @exists_shard_iff _ w.shard_pos (listedNames scan.conjuncts)]
    constructor
    · rintro ⟨_, ⟨window, hwin, slice, hs, pvs, hp, rfl⟩, hkeep, hsel, hasks⟩
      have hmem := (hslice slice pvs (pvShards_nonempty w.shard_pos hp)).mp hsel
      exact ⟨⟨pvs, hp, hmem⟩, sliceRange slice, ⟨window, hwin, slice, hs, rfl⟩, hkeep, hasks⟩
    · rintro ⟨⟨pvs, hp, hmem⟩, _, ⟨window, hwin, slice, hs, rfl⟩, hkeep, hasks⟩
      exact ⟨sliceFetch slice pvs, ⟨window, hwin, slice, hs, pvs, hp, rfl⟩, hkeep,
        (hslice slice pvs (ne_nil_of_mem hmem)).mpr hmem, hasks⟩

end Factor

end MldpDriver.Query
