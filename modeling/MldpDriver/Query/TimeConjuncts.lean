/-
# Conjuncts on time

A WHERE clause may bound `time` from below and from above any number of times, in whole seconds.
The bounds are pushed and not checked again on the rows, so what comes back depends on the request
alone.  Three things separate it from what was asked:

* of several bounds in one direction the LAST one is requested, not the tightest;
* the backend may answer with whole buckets, and nothing cuts what sticks out of the range (the
  windowed scan does cut, to its slices);
* a window clause replaces the bounds, so with windows they are not looked at.

`timeConjuncts_iff` says on which conjuncts, windows and stored buckets none of this shows.
-/
import MldpDriver.Query.ScanRequests

namespace MldpDriver.Query

open Lib.Answers List

/-! ## 1. What is asked and what may be answered -/

/-- The time is in the seconds `[b, e]`. -/
def inSeconds (b e : Nat) (t : Int) : Bool :=
  decide (b * nsPerSecond ≤ t) && decide (t ≤ e * nsPerSecond)

/-- The bucket's time span and the seconds `[b, e]` overlap. -/
def reaches (b e : Nat) (bucket : List Sample) : Bool :=
  bucket.any (fun y => decide (y.time ≤ e * nsPerSecond)) &&
    bucket.any fun y => decide (b * nsPerSecond ≤ y.time)

theorem reaches_of_mem {b e : Nat} {bucket : List Sample} {x : Sample} (hx : x ∈ bucket)
    (h : inSeconds b e x.time = true) : reaches b e bucket = true := by
  simp only [inSeconds, Bool.and_eq_true, decide_eq_true_eq] at h
  simp only [reaches, Bool.and_eq_true, any_eq_true, decide_eq_true_eq]
  exact ⟨⟨x, hx, h.2⟩, ⟨x, hx, h.1⟩⟩

/-- **The backend's promise for a range**: every sample of the selected PVs in the range, and
besides these at most samples of the selected PVs from buckets that overlap it. -/
def bucketBounds : Bounds QuerySpec Sample where
  lower spec x := spec.pvSelector.selects x.pv && inSeconds spec.beginTime spec.endTime x.time
  upper spec bucket x :=
    spec.pvSelector.selects x.pv && reaches spec.beginTime spec.endTime bucket
  le := by
    intro spec bucket x hx h
    rw [Bool.and_eq_true] at h ⊢
    exact ⟨h.1, reaches_of_mem hx h.2⟩

/-- Every bound on time holds. -/
def timesHold (cs : List ScanConjunct) (t : Int) : Bool :=
  (cs.filter (·.isTime)).all (·.holds "" t)

/-- The time is in a window, when there is a window clause. -/
def TableScan.inWindows (scan : TableScan) (t : Int) : Prop :=
  ∀ w ∈ scan.window, ∃ v ∈ w.windows, inWindow v t = true

/-- The samples a scan is to return: of the requested PVs, at times that satisfy every bound and
lie in a window. -/
def TableScan.wants (scan : TableScan) (x : Sample) : Prop :=
  scan.requestedPv x.pv = true ∧ timesHold scan.conjuncts x.time = true ∧ scan.inWindows x.time

/-! ## 2. When the scan returns just these -/

/-- The condition on conjuncts, windows and stored buckets.  `asked` fails where the whole seconds
of a slice miss the end of a window, `trimmed` where the last bound of a direction is not the
tightest or a bucket sticks out of the range. -/
structure TimesExact (scan : TableScan) (archive : Archive) : Prop where
  /-- A windowed scan has a PV list and windows inside `int64_t`. -/
  runnable : scan.Runnable
  /-- A wanted sample is in the seconds of a request that keeps it. -/
  asked : ∀ x, archive.Stores x → scan.wants x →
    scan.Spans (fun b e => inSeconds b e x.time = true) x.time
  /-- A bucket that overlaps the seconds of a request holds, among the samples of the requested PVs
  that the request keeps, wanted ones only. -/
  trimmed : ∀ bucket ∈ archive.buckets, ∀ x ∈ bucket, scan.requestedPv x.pv = true →
    scan.Spans (fun b e => reaches b e bucket = true) x.time → scan.wants x
  /-- For the wide table, the rows of these buckets have a pivot. -/
  pivots : scan.Pivots (bucketBounds.deliverable archive.buckets scan.fetches) fun _ => True

theorem mem_required_times {scan : TableScan} {archive : Archive} {x : Sample} :
    x ∈ bucketBounds.required archive.buckets scan.fetches ↔
      archive.Stores x ∧ scan.requestedPv x.pv = true ∧
        scan.Spans (fun b e => inSeconds b e x.time = true) x.time := by
  rw [mem_required, ← fetches_iff]
  simp only [bucketBounds, Bool.and_eq_true]
  constructor
  · rintro ⟨f, hf, hk, bucket, hb, hx, hsel, hasks⟩
    exact ⟨⟨bucket, hb, hx⟩, f, hf, hk, hsel, hasks⟩
  · rintro ⟨⟨bucket, hb, hx⟩, f, hf, hk, hsel, hasks⟩
    exact ⟨f, hf, hk, bucket, hb, hx, hsel, hasks⟩

theorem mem_deliverable_times {scan : TableScan} {archive : Archive} {x : Sample} :
    x ∈ bucketBounds.deliverable archive.buckets scan.fetches ↔
      scan.requestedPv x.pv = true ∧ ∃ bucket ∈ archive.buckets, x ∈ bucket ∧
        scan.Spans (fun b e => reaches b e bucket = true) x.time := by
  rw [mem_deliverable]
  simp only [bucketBounds, Bool.and_eq_true]
  constructor
  · rintro ⟨f, hf, hk, bucket, hb, hx, hsel, hasks⟩
    obtain ⟨hpv, hspans⟩ := fetches_iff.mp
      (show scan.Fetches (fun b e => reaches b e bucket = true) x from ⟨f, hf, hk, hsel, hasks⟩)
    exact ⟨hpv, bucket, hb, hx, hspans⟩
  · rintro ⟨hpv, bucket, hb, hx, hspans⟩
    obtain ⟨f, hf, hk, hsel, hasks⟩ := fetches_iff.mpr ⟨hpv, hspans⟩
    exact ⟨f, hf, hk, bucket, hb, hx, hsel, hasks⟩

/-- **When a scan returns the samples its time bounds ask for**, with every backend that may answer
with whole buckets: exactly when the last bound of each direction, or the slices of the windows,
ask for every wanted sample and no bucket they reach holds an unwanted one they keep. -/
theorem timeConjuncts_iff (scan : TableScan) (archive : Archive) :
    scan.Correct bucketBounds archive scan.wants scan.wants (fun _ => True) ↔
      TimesExact scan archive := by
  rw [correct_iff]
  constructor
  · rintro ⟨hrun, hlow, hhigh, hpivots⟩
    refine ⟨hrun, fun x hx hw => ?_, fun bucket hb x hx hpv hspans => ?_, hpivots⟩
    · exact (mem_required_times.mp (hlow x hx hw)).2.2
    · exact hhigh x (mem_deliverable_times.mpr ⟨hpv, bucket, hb, hx, hspans⟩)
  · intro h
    refine ⟨h.runnable, fun x hx hw => ?_, fun x hx => ?_, h.pivots⟩
    · exact mem_required_times.mpr ⟨hx, hw.1, h.asked x hx hw⟩
    · obtain ⟨hpv, bucket, hb, hx, hspans⟩ := mem_deliverable_times.mp hx
      exact h.trimmed bucket hb x hx hpv hspans

/-- `pv = 'A' AND time >= 3 AND time >= 5`. -/
def tightestLast : TableScan :=
  { table := .time_series
    conjuncts := [.pvEq "A", .timeFrom 3, .timeFrom 5]
    window := none
    seriesPerShard := 0
    limits := ⟨1, 0⟩ }

/-- Two buckets of `A`, the one before 5 s and the other after it. -/
def twoBuckets : Archive where
  buckets := [[sampleAt 3500000000, sampleAt 4000000000], [sampleAt 6000000000]]
  times := by decide

/-- Where the last bound is the tightest one, the sample at 6 s alone is returned. -/
theorem timeConjuncts_iff_tightestLast :
    tightestLast.Correct bucketBounds twoBuckets tightestLast.wants tightestLast.wants
      (fun _ => True) := by
  have hwanted : ∀ x, twoBuckets.Stores x → tightestLast.wants x → x = sampleAt 6000000000 := by
    rintro x ⟨bucket, hb, hx⟩ ⟨-, htimes, -⟩
    rcases mem_cons.mp hb with rfl | hb
    · rcases mem_cons.mp hx with rfl | hx
      · exact absurd htimes (by decide)
      · obtain rfl := mem_singleton.mp hx
        exact absurd htimes (by decide)
    · obtain rfl := mem_singleton.mp hb
      exact mem_singleton.mp hx
  refine (timeConjuncts_iff tightestLast twoBuckets).mpr ⟨?_, ?_, ?_, ?_⟩
  · intro w hw
    cases hw
  · intro x hx hw
    obtain rfl := hwanted x hx hw
    exact ⟨_, mem_singleton_self _, rfl, by decide⟩
  · rintro bucket hb x hx - ⟨r, hr, -, hreaches⟩
    obtain rfl := mem_singleton.mp hr
    rcases mem_cons.mp hb with rfl | hb
    · exact absurd hreaches (by decide)
    · obtain rfl := mem_singleton.mp hb
      obtain rfl := mem_singleton.mp hx
      exact ⟨by decide, by decide, fun w hw => by cases hw⟩
  · intro h
    cases h

/-! ## 3. Two lower bounds -/

/-- `pv = 'A' AND time >= 5 AND time >= 3`. -/
def twoLowerBounds : TableScan :=
  { table := .time_series
    conjuncts := [.pvEq "A", .timeFrom 5, .timeFrom 3]
    window := none
    seriesPerShard := 0
    limits := ⟨1, 0⟩ }

/-- One bucket with one sample of `A`. -/
def oneSample (ns : Int) (h : ns ≤ int64Max) : Archive where
  buckets := [[sampleAt ns]]
  times := by
    intro bucket hb x hx
    rw [mem_singleton.mp hb] at hx
    rw [mem_singleton.mp hx]
    exact h

/-- **The last bound wins**: the request is for the seconds from 3 on, so a sample at 4 s is
returned although it fails `time >= 5`. -/
theorem twoLowerBounds_not_correct :
    ¬ twoLowerBounds.Correct bucketBounds (oneSample 4000000000 (by decide))
      twoLowerBounds.wants twoLowerBounds.wants (fun _ => True) := by
  rw [correct_iff]
  rintro ⟨-, -, hhigh, -⟩
  have hspans : twoLowerBounds.Spans
      (fun b e => reaches b e [sampleAt 4000000000] = true) (sampleAt 4000000000).time :=
    ⟨_, mem_singleton_self _, rfl, by decide⟩
  have hmem : sampleAt 4000000000 ∈ bucketBounds.deliverable
      (oneSample 4000000000 (by decide)).buckets twoLowerBounds.fetches :=
    mem_deliverable_times.mpr ⟨by decide, [sampleAt 4000000000], by simp [oneSample], by simp,
      hspans⟩
  have hwants := (hhigh _ hmem).2.1
  revert hwants
  decide

end MldpDriver.Query
