/-
# Conjuncts on pv

A WHERE clause may hold any number of conjuncts on `pv`: `=`, `IN`, `PREFIX`, `CONTAINS` and `LIKE`.
They are pushed, and a request takes either a list of names or one pattern:

* all `=` and `IN` conjuncts become ONE list, the union of their names, and no row is checked
  against them afterwards;
* next to a list no pattern is pushed.  `mldp.time_series` checks every pattern on the rows,
  `mldp.pv_stats` checks none; it also ignores every pattern but the first;
* the windowed scan replaces the conjuncts by the names of a shard and checks nothing.
-/
import MldpDriver.Query.TimeConjuncts

namespace MldpDriver.Query

open Lib.Answers List

/-! ## 1. What is asked -/

/-- Every conjunct on `pv` holds. -/
def pvHolds (cs : List ScanConjunct) (pv : String) : Bool :=
  (cs.filter fun c => !c.isTime).all (·.holds pv 0)

/-- **The backend's promise for a selector**: every sample of the selected PVs in the range, and
besides these at most other samples of the selected PVs. -/
def pvBounds : Bounds QuerySpec Sample where
  lower spec x := spec.pvSelector.selects x.pv && inSeconds spec.beginTime spec.endTime x.time
  upper spec _ x := spec.pvSelector.selects x.pv
  le := by
    intro spec bucket x _ h
    rw [Bool.and_eq_true] at h
    exact h.1

/-- Some request that keeps the time asks for its second. -/
def TableScan.asksTime (scan : TableScan) (t : Int) : Prop :=
  scan.Spans (fun b e => inSeconds b e t = true) t

/-- A query of one of the three tables, and what the backend stores. -/
inductive PvQuery where
  | samples (scan : TableScan) (archive : Archive)
  | pvStats (conjuncts : List ScanConjunct) (seriesPerShard : Nat) (store : List PvStats)

/-- **The rows of the PVs that satisfy every conjunct**: with every backend that keeps its promise,
every stored row of such a PV comes back (a sample, when its second is asked for), and no row and no
wide column of another PV does. -/
def PvQuery.Correct : PvQuery → Prop
  | samples scan archive => scan.Correct pvBounds archive
      (fun x => pvHolds scan.conjuncts x.pv = true ∧ scan.asksTime x.time)
      (fun x => pvHolds scan.conjuncts x.pv = true)
      fun pv => pvHolds scan.conjuncts pv = true
  | pvStats cs seriesPerShard store => ∀ backend : PvSelector → List PvStats,
      (∀ selector, (backend selector).Perm (store.filter fun s => selector.selects s.pvName)) →
      ∃ rows, executePvStats backend seriesPerShard (predicatesOf cs) = .ok rows ∧
        ∀ s, s ∈ rows ↔ s ∈ store ∧ pvHolds cs s.pvName = true

/-! ## 2. Nothing is lost -/

variable {cs : List ScanConjunct}
variable {pv : String}

theorem holds_of_pvHolds (h : pvHolds cs pv = true) {c : ScanConjunct} (hc : c ∈ cs)
    (ht : c.isTime = false) : c.holds pv 0 = true := by
  rw [pvHolds, all_eq_true] at h
  exact h c (mem_filter.mpr ⟨hc, by simp [ht]⟩)

theorem patternsHold_of_pvHolds (h : pvHolds cs pv = true) :
    patternsHold cs pv = true := by
  rw [patternsHold, all_eq_true]
  intro c hc
  obtain ⟨hc, hp⟩ := mem_filter.mp hc
  exact holds_of_pvHolds h hc (by cases c <;> first | rfl | cases hp)

theorem listed_of_pvHolds (h : pvHolds cs pv = true) (hne : listedNames cs ≠ []) :
    pv ∈ listedNames cs := by
  obtain ⟨name, hname⟩ := exists_mem_of_ne_nil _ hne
  obtain ⟨c, hc, hname⟩ := mem_flatMap.mp hname
  refine mem_flatMap.mpr ⟨c, hc, ?_⟩
  cases c with
  | pvEq n =>
    have hn := holds_of_pvHolds h hc rfl
    simp only [ScanConjunct.holds, beq_iff_eq] at hn
    simp [ScanConjunct.names, hn]
  | pvIn names =>
    have hn := holds_of_pvHolds h hc rfl
    simpa [ScanConjunct.holds, ScanConjunct.names] using hn
  | pvPattern op text => simp [ScanConjunct.names] at hname
  | timeFrom s => simp [ScanConjunct.names] at hname
  | timeTo s => simp [ScanConjunct.names] at hname

/-- **The selector of a request loses no PV**, whatever the mix of lists and patterns. -/
theorem selects_of_pvHolds (h : pvHolds cs pv = true) :
    (selectorOf cs).selects pv = true := by
  by_cases hne : listedNames cs = []
  · rw [selectorOf, if_pos (by simpa using hne)]
    cases hfind : cs.find? (·.isPattern) with
    | none => rfl
    | some c =>
      have hc := List.mem_of_find?_eq_some hfind
      have hp := List.find?_some hfind
      cases c with
      | pvPattern op text => exact holds_of_pvHolds h hc rfl
      | _ => cases hp
  · rw [selectorOf_ne_nil hne, contains_iff_mem]
    exact listed_of_pvHolds h hne

theorem requestedPv_of_holds {scan : TableScan} (hrun : scan.Runnable)
    (h : pvHolds scan.conjuncts pv = true) {t : Int} (ht : scan.asksTime t) :
    scan.requestedPv pv = true := by
  unfold TableScan.requestedPv
  cases hw : scan.window with
  | none => simp [selects_of_pvHolds h, patternsHold_of_pvHolds h]
  | some w =>
    rcases (hrun w hw).1 with hempty | hne
    · obtain ⟨r, hr, -⟩ := ht
      simp [TableScan.ranges, hw, hempty] at hr
    · simpa using listed_of_pvHolds h hne

/-! ## 3. When nothing else comes back -/

/-- The condition for a scan of samples. -/
structure PvsExact (scan : TableScan) (archive : Archive) : Prop where
  /-- A windowed scan has a PV list and windows inside `int64_t`. -/
  runnable : scan.Runnable
  /-- The PVs the request names (the union of the lists cut to the patterns, without a list every
  pattern, with windows the union alone) satisfy every conjunct, as far as a sample of theirs is
  kept. -/
  pvs : ∀ x, archive.Stores x → scan.requestedPv x.pv = true →
    scan.Spans (fun _ _ => True) x.time → pvHolds scan.conjuncts x.pv = true
  /-- For the wide table, the kept samples have a pivot, and the listed names that become its
  columns satisfy every conjunct. -/
  pivots : scan.Pivots (pvBounds.deliverable archive.buckets scan.fetches)
    fun pv => pvHolds scan.conjuncts pv = true

/-- The condition for each table.  For `mldp.pv_stats`, where no row is checked, the selector that
is sent must choose only PVs that satisfy all conjuncts. -/
def PvQuery.Exact : PvQuery → Prop
  | samples scan archive => PvsExact scan archive
  | pvStats cs _ store =>
      ∀ s ∈ store, (selectorOf cs).selects s.pvName = true → pvHolds cs s.pvName = true

theorem mem_required_pvs {scan : TableScan} {archive : Archive} {x : Sample} :
    x ∈ pvBounds.required archive.buckets scan.fetches ↔
      archive.Stores x ∧ scan.requestedPv x.pv = true ∧ scan.asksTime x.time :=
  mem_required_times

theorem mem_deliverable_pvs {scan : TableScan} {archive : Archive} {x : Sample} :
    x ∈ pvBounds.deliverable archive.buckets scan.fetches ↔
      archive.Stores x ∧ scan.requestedPv x.pv = true ∧ scan.Spans (fun _ _ => True) x.time := by
  rw [mem_deliverable, ← fetches_iff]
  simp only [pvBounds]
  constructor
  · rintro ⟨f, hf, hk, bucket, hb, hx, hsel⟩
    exact ⟨⟨bucket, hb, hx⟩, f, hf, hk, hsel, trivial⟩
  · rintro ⟨⟨bucket, hb, hx⟩, f, hf, hk, hsel, -⟩
    exact ⟨f, hf, hk, bucket, hb, hx, hsel⟩

theorem samples_iff (scan : TableScan) (archive : Archive) :
    (PvQuery.samples scan archive).Correct ↔ PvsExact scan archive := by
  simp only [PvQuery.Correct]
  rw [correct_iff]
  constructor
  · rintro ⟨hrun, -, hhigh, hpivots⟩
    exact ⟨hrun, fun x hx hpv hspans => hhigh x (mem_deliverable_pvs.mpr ⟨hx, hpv, hspans⟩), hpivots⟩
  · intro h
    refine ⟨h.runnable, fun x hx hw => ?_, fun x hx => ?_, h.pivots⟩
    · exact mem_required_pvs.mpr ⟨hx, requestedPv_of_holds h.runnable hw.1 hw.2, hw.2⟩
    · obtain ⟨hx, hpv, hspans⟩ := mem_deliverable_pvs.mp hx
      exact h.pvs x hx hpv hspans

theorem pvStats_rows {backend : PvSelector → List PvStats} {store : List PvStats}
    (hb : ∀ selector, (backend selector).Perm (store.filter fun s => selector.selects s.pvName))
    (seriesPerShard : Nat) (cs : List ScanConjunct) :
    ∃ rows, executePvStats backend seriesPerShard (predicatesOf cs) = .ok rows ∧
      ∀ s, s ∈ rows ↔ s ∈ store ∧ (selectorOf cs).selects s.pvName = true := by
  have hmem : ∀ selector s, s ∈ backend selector ↔ s ∈ store ∧ selector.selects s.pvName = true := by
    intro selector s
    rw [(hb selector).mem_iff, mem_filter]
  simp only [executePvStats, requestedPvs_eq, pvNamePatternFor_eq, bind, Except.bind,
    eraseDups_isEmpty]
  by_cases hne : listedNames cs = []
  · simp only [hne, isEmpty_nil, if_true]
    refine ⟨_, rfl, fun s => ?_⟩
    rw [hmem, selectorOf, if_pos (by simpa using hne)]
  · simp only [isEmpty_eq_false_iff.mpr hne, Bool.false_eq_true, if_false]
    refine ⟨_, rfl, fun s => ?_⟩
    have hpos : 0 < (listedNames cs).eraseDups.length := by
      rw [length_pos_iff]
      intro hnil
      have := eraseDups_isEmpty (listedNames cs)
      rw [hnil] at this
      exact hne (List.isEmpty_iff.mp this.symm)
    have hsize : 0 < (if seriesPerShard = 0 then (listedNames cs).eraseDups.length
        else min (listedNames cs).eraseDups.length seriesPerShard) := by
      split <;> omega
    have hshard := @exists_shard_iff _ hsize (listedNames cs).eraseDups s.pvName
    rw [mem_eraseDups] at hshard
    rw [selectorOf_ne_nil hne, contains_iff_mem, ← hshard, mem_flatMap]
    simp only [hmem, PvSelector.selects, contains_iff_mem]
    constructor
    · rintro ⟨shard, hs, hstore, hpv⟩
      exact ⟨hstore, shard, hs, hpv⟩
    · rintro ⟨hstore, shard, hs, hpv⟩
      exact ⟨shard, hs, hstore, hpv⟩

theorem pvStats_iff (cs : List ScanConjunct) (seriesPerShard : Nat) (store : List PvStats) :
    (PvQuery.pvStats cs seriesPerShard store).Correct ↔
      (PvQuery.pvStats cs seriesPerShard store).Exact := by
  simp only [PvQuery.Correct, PvQuery.Exact]
  constructor
  · intro h s hs hsel
    have hb : ∀ selector : PvSelector, (store.filter fun s => selector.selects s.pvName).Perm
        (store.filter fun s => selector.selects s.pvName) := fun _ => List.Perm.refl _
    obtain ⟨rows, hrun, hrows⟩ := h _ hb
    obtain ⟨rows', hrun', hrows'⟩ := pvStats_rows hb seriesPerShard cs
    obtain rfl := Except.ok.inj (hrun.symm.trans hrun')
    exact ((hrows s).mp ((hrows' s).mpr ⟨hs, hsel⟩)).2
  · intro h backend hb
    obtain ⟨rows, hrun, hrows⟩ := pvStats_rows hb seriesPerShard cs
    refine ⟨rows, hrun, fun s => (hrows s).trans ?_⟩
    constructor
    · rintro ⟨hs, hsel⟩
      exact ⟨hs, h s hs hsel⟩
    · rintro ⟨hs, hholds⟩
      exact ⟨hs, selects_of_pvHolds hholds⟩

/-- **When a query returns just the PVs that satisfy every conjunct**, over the three tables, with
or without windows and for every sharding.  Nothing is ever lost (`requestedPv_of_holds`); what
must be excluded are the rows and wide columns of requested PVs that fail a conjunct nobody checks.
-/
theorem pvConjuncts_iff (query : PvQuery) : query.Correct ↔ query.Exact := by
  cases query with
  | samples scan archive => exact samples_iff scan archive
  | pvStats cs seriesPerShard store => exact pvStats_iff cs seriesPerShard store

/-- `pv IN ('A', 'B') AND pv PREFIX 'A'`. -/
def listAndPrefix : TableScan :=
  { table := .time_series
    conjuncts := [.pvIn ["A", "B"], .pvPattern .PREFIX "A"]
    window := none
    seriesPerShard := 0
    limits := ⟨1, 0⟩ }

/-- One bucket of `A` and one of `B`. -/
def bucketEach : Archive where
  buckets := [[sampleOf "A" 4000000000], [sampleOf "B" 4000000000]]
  times := by decide

/-- A pattern beside a list is applied to the rows, so `B` does not come back. -/
theorem pvConjuncts_iff_listAndPrefix : (PvQuery.samples listAndPrefix bucketEach).Correct := by
  refine (pvConjuncts_iff (.samples listAndPrefix bucketEach)).mpr
    ⟨?_, ?_, ?_⟩
  · intro w hw
    cases hw
  · rintro x ⟨bucket, hb, hx⟩ hpv -
    rcases mem_cons.mp hb with rfl | hb
    · obtain rfl := mem_singleton.mp hx
      decide
    · obtain rfl := mem_singleton.mp hb
      obtain rfl := mem_singleton.mp hx
      exact absurd hpv (by decide)
  · intro h
    cases h

/-! ## 4. Two lists -/

/-- `pv = 'A' AND pv = 'B'`. -/
def twoNames : TableScan :=
  { table := .time_series
    conjuncts := [.pvEq "A", .pvEq "B"]
    window := none
    seriesPerShard := 0
    limits := ⟨1, 0⟩ }

/-- **Two lists are joined, not intersected**: a row of `A` comes back although it fails
`pv = 'B'`. -/
theorem twoNames_not_correct :
    ¬ (PvQuery.samples twoNames (oneSample 4000000000 (by decide))).Correct := by
  rw [samples_iff]
  intro h
  have hspans : twoNames.Spans (fun _ _ => True) (sampleAt 4000000000).time :=
    ⟨_, mem_singleton_self _, rfl, trivial⟩
  have hholds := h.pvs (sampleAt 4000000000) ⟨[sampleAt 4000000000], by simp [oneSample], by simp⟩
    (by decide) hspans
  revert hholds
  decide

end MldpDriver.Query
