/-
# The windowed scan against the flat scan

A windowed scan should return what a flat scan over the windows returns: every stored sample of the
requested PVs whose time lies in a window, once.  It does so under four conditions on the windows,
the slice length, the PV list and the stored times (`SlicingExact`), and under no weaker ones
(`windowScan_flat_iff`).
-/
import Mathlib.Data.List.Pairwise
import MldpDriver.Query.WindowSamples

namespace MldpDriver.Query

open List
open Lib.Tiling (Piece evenPieces evenPiece stepCount)
open Lib.Binary64 (toBinary64 toBinary64_mono)

/-! ## 1. The flat scan and the conditions -/

/-- The samples a flat scan returns: requested PV, time in a window, each as often as stored. -/
def flatScan (store : List Sample) (pvs : List String) (windows : List Window) : List Sample :=
  store.filter fun x => pvs.contains x.pv && windows.any (inWindow · x.time)

/-- Normalised windows: `int64_t` bounds in order, each window before the next. -/
structure Normalized (windows : List Window) : Prop where
  typed : ∀ w ∈ windows, int64Min ≤ w.1 ∧ w.1 ≤ w.2 ∧ w.2 ≤ int64Max
  disjoint : windows.Pairwise fun v w => v.2 < w.1

/-- **The scan is the flat scan**: with every backend that keeps its promise over the store, the
run ends and returns the flat scan's samples, each as often. -/
def ScanIsFlat (scan : PhysicalTableScan) (limits : ScanLimits) (windows : List Window)
    (store : List Sample) : Prop :=
  ∀ answers, Conforms store answers → ∃ fuel out,
    windowScan scan limits answers windows fuel = some out ∧
      (batchRows out).Perm (flatScan store (requestedPvValues scan.pushablePredicates) windows)

/-- The whole seconds slice `i` of a window asks the backend for. -/
def sliceSeconds (step : Int) (w : Window) (i : Nat) : Int × Int :=
  ((evenPiece w.1 w.2 step i).start.tdiv nsPerSecond,
    (evenPiece w.1 w.2 step i).stop.tdiv nsPerSecond)

/-- **When the sliced and sharded scan is exact**, as a condition on its inputs.  `outside` and
`asked` are about samples at the edges of a window, `oneShard` about PVs that are listed twice. -/
structure SlicingExact (scan : PhysicalTableScan) (windows : List Window) (store : List Sample) :
    Prop where
  /-- A window needs a PV list. -/
  requested : windows ≠ [] → requestedPvValues scan.pushablePredicates ≠ []
  /-- Neither a window's length nor one past its end leaves `int64_t`. -/
  arithmetic : ∀ w ∈ windows, w.2 - w.1 ≤ int64Max ∧ w.2 < int64Max
  /-- A PV with a sample in a window is listed within one shard. -/
  oneShard : ∀ x ∈ store, x.pv ∈ requestedPvValues scan.pushablePredicates →
    ∀ w ∈ windows, inWindow w x.time = true →
      SameShard scan.windowShards.seriesPerShard (requestedPvValues scan.pushablePredicates) x.pv
  /-- No sample outside a window is equal to a time inside it after rounding. -/
  outside : ∀ x ∈ store, x.pv ∈ requestedPvValues scan.pushablePredicates →
    ∀ w ∈ windows, roundsInto w x.time = true → inWindow w x.time = true
  /-- The slice that keeps a sample of a window has asked for its second. -/
  asked : ∀ x ∈ store, x.pv ∈ requestedPvValues scan.pushablePredicates →
    ∀ w ∈ windows, inWindow w x.time = true →
      ∀ i < stepCount (w.2 - w.1) scan.windowShards.sliceNs,
        (evenPiece w.1 w.2 scan.windowShards.sliceNs i).keeps toBinary64 x.time = true →
          (sliceSeconds scan.windowShards.sliceNs w i).1 * nsPerSecond ≤ x.time ∧
            x.time ≤ (sliceSeconds scan.windowShards.sliceNs w i).2 * nsPerSecond

/-! ## 2. The windows and slices a sample belongs to -/

variable {w : Window}

section Windows

variable {windows : List Window} (h : Normalized windows)

include h

theorem Normalized.le (hw : w ∈ windows) : w.1 ≤ w.2 := (h.typed w hw).2.1

theorem Normalized.window_unique {v w : Window} (hv : v ∈ windows) (hw : w ∈ windows) {t : Int}
    (htv : inWindow v t = true) (htw : inWindow w t = true) : v = w := by
  by_contra hne
  simp only [inWindow, Bool.and_eq_true, decide_eq_true_eq] at htv htw
  have : Std.Symm fun a b : Window => a.2 < b.1 ∨ b.2 < a.1 := ⟨fun _ _ hab => hab.symm⟩
  have hpair : windows.Pairwise fun a b => a.2 < b.1 ∨ b.2 < a.1 :=
    h.disjoint.imp fun hab => Or.inl hab
  rcases hpair.forall hv hw hne with hab | hab <;> omega

theorem Normalized.nodup : windows.Nodup := by
  refine h.disjoint.imp_of_mem fun ha _ hab heq => ?_
  have := h.le ha
  rw [← heq] at hab
  omega

theorem Normalized.countP_roundsInto {t : Int} (hw : w ∈ windows) (ht : inWindow w t = true)
    (hout : ∀ v ∈ windows, roundsInto v t = true → inWindow v t = true) :
    windows.countP (roundsInto · t) = 1 := by
  rw [countP_eq_one_iff h.nodup]
  exact ⟨w, hw, roundsInto_of_inWindow ht, fun v hv hr =>
    h.window_unique hv hw (hout v hv hr) ht⟩

end Windows

theorem mem_slices_iff {scan : PhysicalTableScan} {p : Piece Int} :
    p ∈ slices scan w ↔ ∃ i < stepCount (w.2 - w.1) scan.windowShards.sliceNs,
      p = evenPiece w.1 w.2 scan.windowShards.sliceNs i := by
  simp only [slices, evenPieces, Lib.Tiling.evenPiecesFrom, mem_map, mem_range'_1,
    Nat.sub_zero, Nat.zero_le, true_and, Nat.zero_add]
  constructor
  · rintro ⟨i, hi, rfl⟩
    exact ⟨i, hi, rfl⟩
  · rintro ⟨i, hi, rfl⟩
    exact ⟨i, hi, rfl⟩

theorem slice_unique {scan : PhysicalTableScan} (hs : 0 < scan.windowShards.sliceNs) {w : Window}
    (hw : w.1 ≤ w.2) {p q : Piece Int} {t : Int} (hp : p ∈ slices scan w)
    (hkp : p.keeps toBinary64 t = true) (hq : q ∈ slices scan w)
    (hkq : q.keeps toBinary64 t = true) : p = q := by
  have hround := roundsInto_of_keeps hs hw hp hkp
  have hcount := (slices_cut hs hw).countP_keeps toBinary64_mono t
  simp only [roundsInto, Bool.and_eq_true, decide_eq_true_eq] at hround
  rw [if_pos hround] at hcount
  exact eq_of_countP_eq_one hcount hp hkp hq hkq

theorem requestOf_sliceGroup (scan : PhysicalTableScan) (w : Window) (p : Piece Int)
    (pvs : List String) (i : Nat) : requestOf (sliceGroup scan w p pvs i).predicates =
      some ⟨pvs, p.start.tdiv nsPerSecond, p.stop.tdiv nsPerSecond⟩ := by
  simp only [sliceGroup, requestOf_shardPredicates]

variable {answers : Answers}

theorem Conforms.fields {store : List Sample} (h : Conforms store answers)
    (scan : PhysicalTableScan) (w : Window) (p : Piece Int) (pvs : List String) (i : Nat) :
    ∀ b ∈ answers (sliceGroup scan w p pvs i), b.fields = timeSeriesFields :=
  (h _ _ (requestOf_sliceGroup scan w p pvs i)).1

theorem count_flatScan (store : List Sample) (pvs : List String) (windows : List Window)
    (x : Sample) : (flatScan store pvs windows).count x =
      if pvs.contains x.pv && windows.any (inWindow · x.time) then store.count x else 0 := by
  unfold flatScan
  split
  · rename_i hx
    exact List.count_filter hx
  · rename_i hx
    exact count_eq_zero.mpr fun hm => hx (mem_filter.mp hm).2

/-! ## 3. The conditions are enough -/

section Exact

variable {scan : PhysicalTableScan} {limits : ScanLimits} {windows : List Window}
  {store : List Sample} (hn : Normalized windows) (hs : 0 < scan.windowShards.sliceNs)
  (hk : 0 < scan.windowShards.seriesPerShard)

include hn in
theorem SlicingExact.windowOk (h : SlicingExact scan windows store) :
    ∀ w ∈ windows, WindowOk w := fun w hw =>
  ⟨(hn.typed w hw).1, (hn.typed w hw).2.1, (h.arithmetic w hw).1, (h.arithmetic w hw).2⟩

include hn hs hk in
/-- A slice that keeps a sample was answered with every copy of it. -/
theorem SlicingExact.count_answer (h : SlicingExact scan windows store)
    (hc : Conforms store answers) (x : Sample) (hw : w ∈ windows) {p : Piece Int}
    (hp : p ∈ slices scan w) (hkeep : p.keeps toBinary64 x.time = true) {pvs : List String}
    (hpvs : pvs ∈ pvShards scan.windowShards.seriesPerShard
      (requestedPvValues scan.pushablePredicates)) (i : Nat) :
    (batchRows (answers (sliceGroup scan w p pvs i))).count x =
      if pvs.contains x.pv then store.count x else 0 := by
  have hans := hc _ _ (requestOf_sliceGroup scan w p pvs i)
  by_cases hmem : x ∈ store ∧ x.pv ∈ pvs
  · obtain ⟨hx, hpv⟩ := hmem
    have hreq : x.pv ∈ requestedPvValues scan.pushablePredicates := by
      rw [← countP_pvShards_pos_iff hk, countP_pos_iff]
      exact ⟨pvs, hpvs, by simpa using hpv⟩
    have hin := h.outside x hx hreq w hw (roundsInto_of_keeps hs (hn.le hw) hp hkeep)
    obtain ⟨j, hj, rfl⟩ := mem_slices_iff.mp hp
    have hask := h.asked x hx hreq w hw hin j hj hkeep
    have hcov : (Request.mk pvs ((evenPiece w.1 w.2 scan.windowShards.sliceNs j).start.tdiv
        nsPerSecond) ((evenPiece w.1 w.2 scan.windowShards.sliceNs j).stop.tdiv
        nsPerSecond)).covers x.time = true := by
      simpa [Request.covers, sliceSeconds] using hask
    rw [hans.count_covered hcov, if_pos hpv, if_pos (by simpa using hpv)]
  · have hzero : (batchRows (answers (sliceGroup scan w p pvs i))).count x = 0 :=
      count_eq_zero.mpr fun hm => hmem (hans.mem hm)
    rw [hzero]
    split
    · rename_i hpv
      have hx : x ∉ store := fun hx => hmem ⟨hx, by simpa using hpv⟩
      exact (count_eq_zero.mpr hx).symm
    · rfl

include hn hs hk in
theorem SlicingExact.scanIsFlat (h : SlicingExact scan windows store) :
    ScanIsFlat scan limits windows store := by
  intro answers hc
  rcases eq_or_ne windows [] with rfl | hne
  · exact ⟨0, [], rfl, by simp [flatScan, batchRows]⟩
  have hpv := h.requested hne
  obtain ⟨fuel, hrun⟩ := windowScan_eq limits answers hs hk hpv (h.windowOk hn)
  refine ⟨fuel, _, hrun, perm_iff_count.mpr fun x => ?_⟩
  rw [count_delivered hs (fun w => hn.le) (hc.fields scan) fun w hw p hp hkeep pvs hpvs i =>
    h.count_answer hn hs hk hc x hw hp hkeep hpvs i, count_flatScan]
  by_cases hx : x ∈ store
  · by_cases hreq : x.pv ∈ requestedPvValues scan.pushablePredicates
    · by_cases hin : ∃ w ∈ windows, inWindow w x.time = true
      · obtain ⟨w, hw, hwx⟩ := hin
        have hshard : shardCount scan x.pv = 1 :=
          (countP_pvShards_eq_one_iff hk hreq).mpr (h.oneShard x hx hreq w hw hwx)
        rw [hn.countP_roundsInto hw hwx (h.outside x hx hreq), hshard]
        have hany : windows.any (inWindow · x.time) = true := any_eq_true.mpr ⟨w, hw, hwx⟩
        simp [hreq, hany]
      · have hzero : windows.countP (roundsInto · x.time) = 0 :=
          countP_eq_zero.mpr fun w hw hr => hin ⟨w, hw, h.outside x hx hreq w hw hr⟩
        have hany : windows.any (inWindow · x.time) = false := by
          rw [Bool.eq_false_iff]
          exact fun ht => hin (any_eq_true.mp ht)
        simp [hzero, hany]
    · have hshard : shardCount scan x.pv = 0 :=
        Nat.eq_zero_of_not_pos fun hpos => hreq ((countP_pvShards_pos_iff hk).mp hpos)
      simp [hshard, hreq]
  · simp [count_eq_zero.mpr hx]

/-! ## 4. The conditions are necessary

Each condition names one defect.  The request of a slice is in whole seconds and the last
seconds of a window may be a fraction, so a sample after the last whole second is not asked for
(`asked`).  The PV list is cut into shards without removing repetitions (`oneShard`).  The cut
compares nanoseconds after a conversion to `double`, which cannot tell a window's end from the
nanoseconds next to it (`outside`).  And the position after the last slice is computed as one
past the window's end, which overflows at the largest timestamp (`arithmetic`). -/

include hn hk in
theorem ScanIsFlat.windowOk (h : ScanIsFlat scan limits windows store)
    (hpv : requestedPvValues scan.pushablePredicates ≠ []) : ∀ w ∈ windows, WindowOk w := by
  obtain ⟨fuel, out, hrun, -⟩ := h _ (conforms_of_query (exactAnswers_conforms store))
  exact windowScan_some_ok hk hpv (fun w hw => ⟨(hn.typed w hw).1, hn.le hw⟩) hrun

include hn hs hk in
/-- The output a flat scan is compared with is the delivered groups'. -/
theorem ScanIsFlat.count (h : ScanIsFlat scan limits windows store)
    (hpv : requestedPvValues scan.pushablePredicates ≠ []) (hc : Conforms store answers)
    (x : Sample) :
    (batchRows ((plannedGroups scan windows).flatMap (delivered scan answers))).count x =
      if (requestedPvValues scan.pushablePredicates).contains x.pv &&
        windows.any (inWindow · x.time) then store.count x else 0 := by
  obtain ⟨fuel, out, hrun, hperm⟩ := h answers hc
  obtain ⟨fuel', hrun'⟩ := windowScan_eq limits answers hs hk hpv (h.windowOk hn hk hpv)
  obtain rfl := windowScan_unique hrun hrun'
  rw [hperm.count_eq, count_flatScan]

include hn hs hk in
/-- With a backend that returns all it stores, windows and shards multiply the copies. -/
theorem ScanIsFlat.product (h : ScanIsFlat scan limits windows store)
    (hpv : requestedPvValues scan.pushablePredicates ≠ []) (x : Sample) :
    windows.countP (roundsInto · x.time) * (shardCount scan x.pv * store.count x) =
      if (requestedPvValues scan.pushablePredicates).contains x.pv &&
        windows.any (inWindow · x.time) then store.count x else 0 := by
  have hc := conforms_of_query (allAnswers_conforms store)
  rw [← h.count hn hs hk hpv hc x]
  refine (count_delivered hs (fun w => hn.le) (hc.fields scan) ?_).symm
  intro w _ p _ _ pvs _ i
  exact count_answerWith (requestOf_sliceGroup scan w p pvs i) x

include hn hs hk in
/-- A stored sample of a window is in one window after rounding, and its PV in one shard. -/
theorem ScanIsFlat.one (h : ScanIsFlat scan limits windows store)
    (hpv : requestedPvValues scan.pushablePredicates ≠ []) {x : Sample} (hx : x ∈ store)
    (hreq : x.pv ∈ requestedPvValues scan.pushablePredicates)
    (hin : ∃ w ∈ windows, inWindow w x.time = true) :
    windows.countP (roundsInto · x.time) = 1 ∧ shardCount scan x.pv = 1 := by
  have hprod := h.product hn hs hk hpv x
  have hany : windows.any (inWindow · x.time) = true := any_eq_true.mpr hin
  rw [hany, contains_iff_mem.mpr hreq] at hprod
  simp only [Bool.and_true, if_true] at hprod
  have hpos : 0 < store.count x := count_pos_iff.mpr hx
  rw [← Nat.mul_assoc] at hprod
  have hone : windows.countP (roundsInto · x.time) * shardCount scan x.pv = 1 :=
    Nat.eq_of_mul_eq_mul_right hpos (by rw [hprod, Nat.one_mul])
  exact ⟨Nat.eq_one_of_mul_eq_one_right hone, Nat.eq_one_of_mul_eq_one_left hone⟩

include hn hs hk in
theorem ScanIsFlat.outside (h : ScanIsFlat scan limits windows store)
    (hpv : requestedPvValues scan.pushablePredicates ≠ []) {x : Sample} (hx : x ∈ store)
    (hreq : x.pv ∈ requestedPvValues scan.pushablePredicates) (hw : w ∈ windows)
    (hr : roundsInto w x.time = true) : inWindow w x.time = true := by
  have hprod := h.product hn hs hk hpv x
  have hcount : 0 < windows.countP (roundsInto · x.time) := countP_pos_iff.mpr ⟨w, hw, hr⟩
  have hshard : 0 < shardCount scan x.pv := (countP_pvShards_pos_iff hk).mpr hreq
  have hpos : 0 < windows.countP (roundsInto · x.time) * (shardCount scan x.pv * store.count x) :=
    Nat.mul_pos hcount (Nat.mul_pos hshard (count_pos_iff.mpr hx))
  rw [hprod] at hpos
  -- so the sample is in some window, and the two windows are one
  have hany : windows.any (inWindow · x.time) = true := by
    by_contra hn
    rw [Bool.eq_false_iff.mpr hn, Bool.and_false] at hpos
    exact absurd hpos (lt_irrefl 0)
  obtain ⟨v, hv, hvx⟩ := any_eq_true.mp hany
  have hcount' := (h.one hn hs hk hpv hx hreq ⟨v, hv, hvx⟩).1
  obtain rfl := eq_of_countP_eq_one hcount' hv (roundsInto_of_inWindow hvx) hw hr
  exact hvx

include hn hs hk in
/-- With a backend that returns only what it is asked for, a slice that keeps a sample must have
asked for its second. -/
theorem ScanIsFlat.asked (h : ScanIsFlat scan limits windows store)
    (hpv : requestedPvValues scan.pushablePredicates ≠ []) {x : Sample} (hx : x ∈ store)
    (hreq : x.pv ∈ requestedPvValues scan.pushablePredicates) (hw : w ∈ windows)
    (hin : inWindow w x.time = true) {i : Nat}
    (hi : i < stepCount (w.2 - w.1) scan.windowShards.sliceNs)
    (hkeep : (evenPiece w.1 w.2 scan.windowShards.sliceNs i).keeps toBinary64 x.time = true) :
    (sliceSeconds scan.windowShards.sliceNs w i).1 * nsPerSecond ≤ x.time ∧
      x.time ≤ (sliceSeconds scan.windowShards.sliceNs w i).2 * nsPerSecond := by
  by_contra hnot
  have hc := conforms_of_query (exactAnswers_conforms store)
  have hmem : evenPiece w.1 w.2 scan.windowShards.sliceNs i ∈ slices scan w :=
    mem_slices_iff.mpr ⟨i, hi, rfl⟩
  -- the only slice that keeps the sample is answered without it
  have hzero : (batchRows ((plannedGroups scan windows).flatMap
      (delivered scan fun g => exactAnswers store g.predicates))).count x =
        windows.countP (roundsInto · x.time) * (shardCount scan x.pv * 0) := by
    refine count_delivered hs (fun w => hn.le) (hc.fields scan) ?_
    intro v hv p hp hkp pvs _ j
    have hvw : v = w := hn.window_unique hv hw
      (h.outside hn hs hk hpv hx hreq hv (roundsInto_of_keeps hs (hn.le hv) hp hkp)) hin
    subst hvw
    have hpe := slice_unique hs (hn.le hw) hp hkp hmem hkeep
    subst hpe
    have hcov : (Request.mk pvs (sliceSeconds scan.windowShards.sliceNs v i).1
        (sliceSeconds scan.windowShards.sliceNs v i).2).covers x.time = false := by
      rw [Bool.eq_false_iff]
      exact fun hc => hnot (by simpa [Request.covers] using hc)
    have hans := count_answerWith (k := fun r x => r.covers x.time) (s := store)
      (requestOf_sliceGroup scan v (evenPiece v.1 v.2 scan.windowShards.sliceNs i) pvs j) x
    simp only [sliceSeconds] at hcov
    rw [exactAnswers, hans, hcov]
    simp
  rw [h.count hn hs hk hpv hc x, any_eq_true.mpr ⟨w, hw, hin⟩,
    contains_iff_mem.mpr hreq, Nat.mul_zero, Nat.mul_zero] at hzero
  exact absurd hx (count_eq_zero.mp hzero)

theorem ScanIsFlat.requested (h : ScanIsFlat scan limits windows store) (hne : windows ≠ []) :
    requestedPvValues scan.pushablePredicates ≠ [] := by
  obtain ⟨fuel, out, hrun, -⟩ := h _ (conforms_of_query (exactAnswers_conforms store))
  cases windows with
  | nil => exact absurd rfl hne
  | cons w later =>
    intro hnil
    simp [windowScan, openStream, hnil] at hrun

/-- **The windowed scan is the flat scan exactly under `SlicingExact`**, for every slice length,
shard size, PV list, window list, stored content and limit on parallel requests.  Whenever one of
its four conditions fails there is a backend that keeps its promise and a sample that is lost or
returned twice. -/
theorem windowScan_flat_iff (hn : Normalized windows) (hs : 0 < scan.windowShards.sliceNs)
    (hk : 0 < scan.windowShards.seriesPerShard) :
    ScanIsFlat scan limits windows store ↔ SlicingExact scan windows store := by
  refine ⟨fun h => ?_, fun h => h.scanIsFlat hn hs hk⟩
  by_cases hne : windows = []
  · subst hne
    exact ⟨fun hc => absurd rfl hc, by simp, by simp, by simp, by simp⟩
  have hpv := h.requested hne
  refine ⟨fun _ => hpv, fun w hw => ?_, ?_, ?_, ?_⟩
  · have hok := h.windowOk hn hk hpv w hw
    exact ⟨hok.length, hok.upper⟩
  · intro x hx hreq w hw hin
    exact (countP_pvShards_eq_one_iff hk hreq).mp (h.one hn hs hk hpv hx hreq ⟨w, hw, hin⟩).2
  · intro x hx hreq w hw hr
    exact h.outside hn hs hk hpv hx hreq hw hr
  · intro x hx hreq w hw hin i hi hkeep
    exact h.asked hn hs hk hpv hx hreq hw hin hi hkeep

end Exact

/-! ## 5. Two scans

The first has windows that begin and end at whole seconds, the second a window that does not. -/

/-- A scan of three PVs in slices of two seconds and shards of two PVs. -/
def threePvScan : PhysicalTableScan :=
  { pushablePredicates := [⟨"pv", .IN, [.string "A", .string "B", .string "C"]⟩]
    windowShards := { sliceNs := 2000000000, seriesPerShard := 2 }
    qualifyOutput := false
    tableAlias := "" }

def sampleOf (pv : String) (ns : Int) : Sample := ⟨pv, ns, .scalar (.signedInteger 0), "int64"⟩

/-- Samples of all three PVs: in the first window, in the second, and behind both. -/
def fourSamples : List Sample :=
  [sampleOf "A" 1200000000, sampleOf "B" 2250000000, sampleOf "C" 11500000000,
    sampleOf "A" 20000000000]

/-- Over whole seconds the scan is exact: two windows, of two slices each, and two shards. -/
theorem windowScan_flat_iff_wholeSeconds :
    ScanIsFlat threePvScan ⟨4, 0⟩ [(0, 3000000000), (10000000000, 14000000000)] fourSamples := by
  have hwindows : Normalized [(0, 3000000000), (10000000000, 14000000000)] :=
    ⟨by decide, by decide⟩
  refine (windowScan_flat_iff hwindows (by decide) (by decide)).mpr
    ⟨fun _ => by decide, by decide, ?_, by decide, by decide⟩
  intro x _ _ w _ _ i j hi hj
  have hnames : (requestedPvValues threePvScan.pushablePredicates).Nodup := by decide
  rw [(List.getElem?_inj (List.getElem?_eq_some_iff.mp hi).1 hnames).mp (hi.trans hj.symm)]

/-- A scan of the PV `A` in slices of ten seconds. -/
def tenSecondScan : PhysicalTableScan :=
  { pushablePredicates := [⟨"pv", .EQ, [.string "A"]⟩]
    windowShards := { sliceNs := 10000000000, seriesPerShard := 1 }
    qualifyOutput := false
    tableAlias := "" }

def sampleAt (ns : Int) : Sample := sampleOf "A" ns

theorem normalized_singleton (h : int64Min ≤ w.1 ∧ w.1 ≤ w.2 ∧ w.2 ≤ int64Max) :
    Normalized [w] :=
  ⟨fun v hv => by rw [mem_singleton.mp hv]; exact h, pairwise_singleton _ _⟩

/-- **A sample in the last fraction of a second is lost**: the window ends at 1.5 s, the slice asks
for the seconds 0 to 1, and a backend that answers just that omits the sample at 1.2 s. -/
theorem windowScan_loses_subSecond :
    ¬ ScanIsFlat tenSecondScan ⟨4, 0⟩ [(0, 1500000000)] [sampleAt 1200000000] := by
  intro h
  have hask := h.asked (normalized_singleton (by decide)) (by decide) (by decide) (by decide)
    (mem_singleton_self _) (by decide) (mem_singleton_self _) (by decide) (i := 0)
    (by decide) (by decide)
  revert hask
  decide

end MldpDriver.Query
