/-
# Each archived sample once

In periodic mode a PV is fetched in each cycle by whichever worker takes it from the queue, with a
window that begins where the last one ended.  The archiver answers with the samples in the window,
both ends included, and possibly the last one before it.  What was published before is kept out by
the watermark, which each worker has for itself and which moves before a sample is published.

The contexts of the workers are their own, so a fetch is one step.
-/
import MldpDriver.Lib.Replace
import MldpDriver.Lib.Run
import MldpDriver.Reader.ArchiverTimes

namespace MldpDriver.Reader.Archiver

open Bus Lib.Directory Lib.Lines Lib.Replace Lib.Run List

variable {H V : Type} {pb : Protobuf H V} {cfg : ReaderConfig} {archive : String → List Time}

/-! ## 1. The reader -/

/-- The workers, and for each PV where its windows began and how far they go. -/
structure Tail (H V : Type) where
  workers : List (Worker H V)
  reached : List (String × (Time × Time)) := []

/-- So many workers. -/
def tailStarted (H V : Type) (fetchThreads : Nat) : Tail H V where
  workers := List.replicate fetchThreads {}

/-- A fetch: the worker, the PV and its window, the samples the archiver answers with, and what
comes of that. -/
structure Fetch (pb : Protobuf H V) where
  worker : Nat
  pv : String
  start : Time
  stop : Time
  answer : List Time
  arrival : Arrival pb
  pieces : List (List UInt8)
  response : Except String Nat

/-- Where the windows of a PV began. -/
def began (s : Tail H V) (pv : String) (start : Time) : Time :=
  ((s.reached.lookup pv).map (·.1)).getD start

/-- A worker fetches a PV. -/
def fetchStep (pb : Protobuf H V) (cfg : ReaderConfig) (s : Tail H V) (f : Fetch pb) :
    Option (Tail H V) :=
  match s.workers[f.worker]? with
  | some w =>
    match fetchPvSafely pb cfg f.pv w f.pieces f.response with
    | .ok w' =>
      some
        { workers := s.workers.set f.worker w'
          reached := put s.reached f.pv (began s f.pv f.start, f.stop) }
    | .error _ => none
  | none => none

/-- The times of a PV that the workers have published. -/
def publishedBy (pv : String) (s : Tail H V) : List Time := s.workers.flatMap (published pv)

/-! ## 2. What is archived and what is published

`PublishedOnce` says that no archived sample is published twice and that every one in the windows
so far is published. -/

/-- Not before the window and not after it. -/
def inWindow (start stop t : Time) : Bool :=
  !sampleTimeLessThan t start && !sampleTimeLessThan stop t

/-- **No archived sample is published twice, and every one in the windows so far is published.**
Samples are counted by PV and time, so `once` also excludes what the archive does not have. -/
structure PublishedOnce (archive : String → List Time) (s : Tail H V) : Prop where
  once : ∀ pv t, (publishedBy pv s).count t ≤ (archive pv).count t
  all : ∀ pv start stop, s.reached.lookup pv = some (start, stop) → ∀ t ∈ archive pv,
    inWindow start stop t = true → (publishedBy pv s).count t = (archive pv).count t

/-- What the archiver answers: the samples in the window, and possibly the last one before. -/
def Answers (samples : List Time) (start stop : Time) (answer : List Time) : Prop :=
  answer = samples.filter (inWindow start stop) ∨
    ∃ t, (samples.filter fun t => sampleTimeLessThan t start).getLast? = some t ∧
      answer = t :: samples.filter (inWindow start stop)

/-- A fetch of a configured PV, with a window that leaves no gap: all of the answer comes, or some
of it from the front. -/
structure Archived (archive : String → List Time) (cfg : ReaderConfig) (s : Tail H V)
    (f : Fetch pb) : Prop where
  named : f.pv ≠ ""
  order : sampleTimeLessThan f.stop f.start = false
  contiguous : ∀ start stop, s.reached.lookup f.pv = some (start, stop) →
    sampleTimeLessThan stop f.start = false ∧ sampleTimeLessThan f.stop stop = false
  answers : Answers (archive f.pv) f.start f.stop f.answer
  headers : ∀ c ∈ f.arrival.whole ++ f.arrival.part.toList, pb.pvname c.header = f.pv
  arrives :
    (Carries f.pieces f.arrival.whole ∧ f.arrival.part = none ∧ f.response = .ok 200 ∧
        f.arrival.times = f.answer) ∨
      (Broken cfg f.pv f.arrival f.pieces f.response ∧ f.arrival.times <+: f.answer)

/-- The watermark of the worker keeps out the samples that were published before, and every sample
in the window was published before or is kept. -/
structure KeptWhole (cfg : ReaderConfig) (s : Tail H V) (f : Fetch pb) : Prop where
  once : ∀ w, s.workers[f.worker]? = some w → ∀ t ∈ f.arrival.keptTimes cfg,
    t ∈ publishedBy f.pv s → newer (watermark f.pv w) t = false
  whole : ∀ t ∈ f.answer, inWindow f.start f.stop t = true →
    t ∈ publishedBy f.pv s ∨ t ∈ f.arrival.keptTimes cfg

/-! ## 3. Times in order -/

theorem earlier_iff (a b : Time) :
    sampleTimeLessThan a b = true ↔ a.1 < b.1 ∨ (a.1 = b.1 ∧ a.2 < b.2) := by
  simp [sampleTimeLessThan]

theorem notEarlier_iff (a b : Time) :
    sampleTimeLessThan a b = false ↔ b.1 < a.1 ∨ (a.1 = b.1 ∧ b.2 ≤ a.2) := by
  rw [← Bool.not_eq_true, earlier_iff]
  omega

theorem inWindow_iff (start stop t : Time) : inWindow start stop t = true ↔
    sampleTimeLessThan t start = false ∧ sampleTimeLessThan stop t = false := by
  simp [inWindow]

/-- The samples of a PV have different times, in order. -/
def InOrder (ts : List Time) : Prop := ts.Pairwise fun a b => sampleTimeLessThan a b = true

theorem InOrder.nodup {ts : List Time} (h : InOrder ts) : ts.Nodup := by
  refine List.Pairwise.imp ?_ h
  rintro a b hab rfl
  rw [earlier_iff] at hab
  omega

theorem fresh_inOrder (mark : Option Time) {ts : List Time} (h : InOrder ts) :
    fresh mark ts = ts.filter (newer mark) := by
  induction ts generalizing mark with
  | nil => rfl
  | cons t ts ih =>
    obtain ⟨hfirst, hrest⟩ := pairwise_cons.mp h
    rw [fresh]
    by_cases hnewer : newer mark t = true
    · rw [if_pos hnewer, filter_cons_of_pos hnewer, ih _ hrest]
      have hlater : ∀ x ∈ ts, newer mark x = true := by
        intro x hx
        cases mark with
        | none => rfl
        | some m =>
          have hmt := (earlier_iff m t).mp hnewer
          have htx := (earlier_iff t x).mp (hfirst x hx)
          refine (earlier_iff m x).mpr ?_
          omega
      rw [filter_eq_self.mpr hlater]
      exact congrArg (t :: ·) (filter_eq_self.mpr hfirst)
    · rw [if_neg hnewer, filter_cons_of_neg hnewer, ih _ hrest]

theorem Answers.inOrder {samples answer : List Time} {start stop : Time}
    (h : Answers samples start stop answer) (hsamples : InOrder samples)
    (horder : sampleTimeLessThan stop start = false) :
    InOrder answer ∧ (∀ t ∈ answer, t ∈ samples ∧ sampleTimeLessThan stop t = false) ∧
      ∀ t ∈ samples, inWindow start stop t = true → t ∈ answer := by
  have hin : ∀ t ∈ samples.filter (inWindow start stop), t ∈ samples ∧
      sampleTimeLessThan t start = false ∧ sampleTimeLessThan stop t = false := by
    intro t ht
    obtain ⟨hmem, hwindow⟩ := mem_filter.mp ht
    exact ⟨hmem, (inWindow_iff _ _ _).mp hwindow⟩
  rcases h with rfl | ⟨x, hlast, rfl⟩
  · refine ⟨hsamples.filter _, fun t ht => ⟨(hin t ht).1, (hin t ht).2.2⟩, ?_⟩
    exact fun t ht hwindow => mem_filter.mpr ⟨ht, hwindow⟩
  · obtain ⟨hx, hbefore⟩ := mem_filter.mp (mem_of_getLast? hlast)
    have hbefore := (earlier_iff x start).mp hbefore
    have hstop := (notEarlier_iff stop start).mp horder
    refine ⟨pairwise_cons.mpr ⟨?_, hsamples.filter _⟩, ?_, ?_⟩
    · intro t ht
      have hstart := (notEarlier_iff t start).mp (hin t ht).2.1
      refine (earlier_iff x t).mpr ?_
      omega
    · intro t ht
      rcases mem_cons.mp ht with rfl | ht
      · refine ⟨hx, (notEarlier_iff stop t).mpr ?_⟩
        omega
      · exact ⟨(hin t ht).1, (hin t ht).2.2⟩
    · exact fun t ht hwindow => mem_cons_of_mem _ (mem_filter.mpr ⟨ht, hwindow⟩)

/-! ## 4. A fetch -/

theorem keptTimes_front (cfg : ReaderConfig) (a : Arrival pb) : a.keptTimes cfg <+: a.times := by
  rw [Arrival.keptTimes, Arrival.times]
  split
  · exact prefix_refl _
  · exact prefix_append_right_inj _ |>.mpr nil_prefix

variable {s : Tail H V}
variable {f : Fetch pb}

theorem Archived.times_front (h : Archived archive cfg s f) :
    f.arrival.times <+: f.answer := by
  rcases h.arrives with ⟨-, -, -, htimes⟩ | ⟨-, hfront⟩
  · exact htimes ▸ prefix_refl _
  · exact hfront

/-- **A fetch does what the samples that arrived do.** -/
theorem Archived.fetch (h : Archived archive cfg s f) (hmode : cfg.fetchMode = .periodicTail)
    {w : Worker H V} (hrooted : Rooted w) :
    fetchPvSafely pb cfg f.pv w f.pieces f.response =
      .ok (flushAllPendingBatches (readArrival cfg w f.arrival).1) := by
  rcases h.arrives with ⟨hcarries, hpart, hresponse, -⟩ | ⟨hbroken, -⟩
  · have harrival : (readArrival cfg w f.arrival).1 = readChunks cfg w f.arrival.whole := by
      rw [readArrival, hpart]
    rw [fetchPvSafely, hresponse, stream_read hcarries, harrival]
  · exact broken_fetch hbroken (readArrival_read hmode h.named h.headers hrooted).1.running

/-- The workers stand with their pending batches empty, what is published is archived and in order,
the windows are covered, and the watermarks are not past them. -/
structure Once (archive : String → List Time) (s : Tail H V) : Prop where
  rooted : ∀ w ∈ s.workers, Rooted w ∧ ∀ pv, pendingTimes pv w = []
  nodup : ∀ pv, (publishedBy pv s).Nodup
  archived : ∀ pv, ∀ t ∈ publishedBy pv s, t ∈ archive pv
  covered : ∀ pv start stop, s.reached.lookup pv = some (start, stop) → ∀ t ∈ archive pv,
    inWindow start stop t = true → t ∈ publishedBy pv s
  behind : ∀ pv start stop, s.reached.lookup pv = some (start, stop) → ∀ w ∈ s.workers, ∀ m,
    watermark pv w = some m → sampleTimeLessThan stop m = false
  unreached : ∀ pv, s.reached.lookup pv = none → ∀ w ∈ s.workers, watermark pv w = none

/-- What a fetch does to what is published and to the watermark of its worker. -/
structure Fetched (cfg : ReaderConfig) (s : Tail H V) (f : Fetch pb) (w w' : Worker H V) :
    Prop where
  rooted : Rooted w' ∧ ∀ pv, pendingTimes pv w' = []
  own : (publishedBy f.pv { s with workers := s.workers.set f.worker w' }).Perm
    (publishedBy f.pv s ++ (f.arrival.keptTimes cfg).filter (newer (watermark f.pv w)))
  mark : ∀ m, watermark f.pv w' = some m → watermark f.pv w = some m ∨ m ∈ f.answer
  others : ∀ pv, pv ≠ f.pv →
    (publishedBy pv { s with workers := s.workers.set f.worker w' }).Perm (publishedBy pv s) ∧
      watermark pv w' = watermark pv w

theorem publishedBy_set {i : Nat} {w w' : Worker H V} {pv : String} {more : List Time}
    (hi : s.workers[i]? = some w) (h : (published pv w').Perm (published pv w ++ more)) :
    (publishedBy pv { s with workers := s.workers.set i w' }).Perm (publishedBy pv s ++ more) := by
  have hreplace := flatMap_replace hi w' (published pv)
  refine (perm_append_right_iff (published pv w)).mp (hreplace.trans ?_)
  rw [append_assoc]
  exact (h.trans perm_append_comm).append_left _

theorem Once.fetched {s s' : Tail H V} (h : Once archive s) (harchive : ∀ pv, InOrder (archive pv))
    (hmode : cfg.fetchMode = .periodicTail) (hfetch : Archived archive cfg s f)
    (hstep : fetchStep pb cfg s f = some s') :
    ∃ w w', s.workers[f.worker]? = some w ∧ Fetched cfg s f w w' ∧
      s' =
        { workers := s.workers.set f.worker w'
          reached := put s.reached f.pv (began s f.pv f.start, f.stop) } := by
  rw [fetchStep] at hstep
  cases hi : s.workers[f.worker]? with
  | none => simp [hi] at hstep
  | some w =>
    obtain ⟨hrooted, hpending⟩ := h.rooted w (mem_of_getElem? hi)
    simp only [hi, hfetch.fetch hmode hrooted, Option.some.injEq] at hstep
    obtain ⟨hrooted', hpending', hown, hmark, hothers⟩ :=
      arrived_published hmode hfetch.named hfetch.headers hrooted hpending
    have hanswer := (hfetch.answers.inOrder (harchive f.pv) hfetch.order).1
    have hkept : InOrder (f.arrival.keptTimes cfg) :=
      hanswer.sublist ((keptTimes_front cfg f.arrival).trans hfetch.times_front).sublist
    rw [fresh_inOrder _ hkept] at hown
    refine ⟨w, _, rfl, ⟨⟨hrooted', hpending'⟩, publishedBy_set hi hown, ?_, ?_⟩, hstep.symm⟩
    · intro m hm
      rcases after_eq (hmark.symm.trans hm) with hold | hmem
      · exact .inl hold
      · exact .inr (hfetch.times_front.subset hmem)
    · intro pv hne
      obtain ⟨hpublished, hmark'⟩ := hothers pv hne
      refine ⟨?_, hmark'⟩
      exact append_nil (publishedBy pv s) ▸
        publishedBy_set hi (.of_eq (hpublished.trans (append_nil _).symm))

theorem Once.mark_le (h : Once archive s) (hfetch : Archived archive cfg s f) {u : Worker H V}
    (hu : u ∈ s.workers) {m : Time} (hm : watermark f.pv u = some m) :
    sampleTimeLessThan f.stop m = false := by
  cases hreached : s.reached.lookup f.pv with
  | none =>
    rw [h.unreached f.pv hreached u hu] at hm
    cases hm
  | some window =>
    have hbehind := (notEarlier_iff _ _).mp (h.behind f.pv window.1 window.2 hreached u hu m hm)
    have hstop := (notEarlier_iff _ _).mp (hfetch.contiguous window.1 window.2 hreached).2
    refine (notEarlier_iff _ _).mpr ?_
    omega

theorem Once.published_or_new (h : Once archive s) (hfetch : Archived archive cfg s f)
    {w : Worker H V} (hw : w ∈ s.workers) {t : Time} (ht : t ∈ archive f.pv)
    (hwindow : inWindow (began s f.pv f.start) f.stop t = true) :
    t ∈ publishedBy f.pv s ∨
      inWindow f.start f.stop t = true ∧ newer (watermark f.pv w) t = true := by
  cases hreached : s.reached.lookup f.pv with
  | none =>
    refine .inr ⟨?_, ?_⟩
    · rwa [began, hreached] at hwindow
    · rw [h.unreached f.pv hreached w hw]
      rfl
  | some window =>
    obtain ⟨hbegan, hstop⟩ := (inWindow_iff _ _ _).mp hwindow
    rw [began, hreached] at hbegan
    by_cases hlate : sampleTimeLessThan window.2 t = true
    · have hlate := (earlier_iff _ _).mp hlate
      have hstart := (notEarlier_iff _ _).mp (hfetch.contiguous window.1 window.2 hreached).1
      refine .inr ⟨(inWindow_iff _ _ _).mpr ⟨(notEarlier_iff _ _).mpr ?_, hstop⟩, ?_⟩
      · omega
      · cases hm : watermark f.pv w with
        | none => rfl
        | some m =>
          have hbehind := (notEarlier_iff _ _).mp
            (h.behind f.pv window.1 window.2 hreached w hw m hm)
          refine (earlier_iff m t).mpr ?_
          omega
    · refine .inl (h.covered f.pv window.1 window.2 hreached t ht ?_)
      exact (inWindow_iff _ _ _).mpr ⟨hbegan, Bool.not_eq_true _ ▸ hlate⟩

/-- **A fetch that keeps what is new, and nothing twice, keeps the invariant.** -/
theorem Once.step {s s' : Tail H V} (h : Once archive s) (harchive : ∀ pv, InOrder (archive pv))
    (hmode : cfg.fetchMode = .periodicTail) (hfetch : Archived archive cfg s f)
    (hkept : KeptWhole cfg s f) (hstep : fetchStep pb cfg s f = some s') : Once archive s' := by
  obtain ⟨w, w', hi, hw, rfl⟩ := h.fetched harchive hmode hfetch hstep
  obtain ⟨hanswer, hpart, hwhole⟩ := hfetch.answers.inOrder (harchive f.pv) hfetch.order
  have hkeptAnswer : ∀ t ∈ f.arrival.keptTimes cfg, t ∈ f.answer := fun t ht =>
    hfetch.times_front.subset ((keptTimes_front cfg f.arrival).subset ht)
  refine ⟨?_, ?_, ?_, ?_, ?_, ?_⟩
  · intro u hu
    rcases mem_replace hu with rfl | hu
    · exact hw.rooted
    · exact h.rooted u hu
  · intro pv
    by_cases hpv : pv = f.pv
    · subst hpv
      refine hw.own.nodup_iff.mpr (nodup_append'.mpr ⟨h.nodup f.pv, ?_, ?_⟩)
      · have hsub := ((keptTimes_front cfg f.arrival).trans hfetch.times_front).sublist
        exact (InOrder.nodup (hanswer.sublist hsub)).filter _
      · intro t ht hfresh
        obtain ⟨hmem, hnewer⟩ := mem_filter.mp hfresh
        rw [hkept.once w hi t hmem ht] at hnewer
        cases hnewer
    · exact (hw.others pv hpv).1.nodup_iff.mpr (h.nodup pv)
  · intro pv t ht
    by_cases hpv : pv = f.pv
    · subst hpv
      rcases mem_append.mp (hw.own.mem_iff.mp ht) with hold | hfresh
      · exact h.archived f.pv t hold
      · exact (hpart t (hkeptAnswer t (mem_filter.mp hfresh).1)).1
    · exact h.archived pv t ((hw.others pv hpv).1.mem_iff.mp ht)
  · intro pv start stop hreached t ht hwindow
    by_cases hpv : pv = f.pv
    · subst hpv
      rw [lookup_put_self] at hreached
      obtain ⟨rfl, rfl⟩ := Prod.mk.inj (Option.some.inj hreached)
      refine hw.own.mem_iff.mpr (mem_append.mpr ?_)
      rcases h.published_or_new hfetch (mem_of_getElem? hi) ht hwindow with hold | ⟨hin, hnew⟩
      · exact .inl hold
      · rcases hkept.whole t (hwhole t ht hin) hin with hold | hmem
        · exact .inl hold
        · exact .inr (mem_filter.mpr ⟨hmem, hnew⟩)
    · rw [lookup_put_of_ne hpv] at hreached
      exact (hw.others pv hpv).1.mem_iff.mpr (h.covered pv start stop hreached t ht hwindow)
  · intro pv start stop hreached u hu m hm
    by_cases hpv : pv = f.pv
    · subst hpv
      rw [lookup_put_self] at hreached
      obtain ⟨-, rfl⟩ := Prod.mk.inj (Option.some.inj hreached)
      rcases mem_replace hu with rfl | hu
      · rcases hw.mark m hm with hold | hmem
        · exact h.mark_le hfetch (mem_of_getElem? hi) hold
        · exact (hpart m hmem).2
      · exact h.mark_le hfetch hu hm
    · rw [lookup_put_of_ne hpv] at hreached
      rcases mem_replace hu with rfl | hu
      · exact h.behind pv start stop hreached w (mem_of_getElem? hi) m
          ((hw.others pv hpv).2.symm.trans hm)
      · exact h.behind pv start stop hreached u hu m hm
  · intro pv hnone u hu
    by_cases hpv : pv = f.pv
    · subst hpv
      rw [lookup_put_self] at hnone
      cases hnone
    · rw [lookup_put_of_ne hpv] at hnone
      rcases mem_replace hu with rfl | hu
      · exact (hw.others pv hpv).2.trans (h.unreached pv hnone w (mem_of_getElem? hi))
      · exact h.unreached pv hnone u hu

/-! ## 5. Every run -/

theorem once_started (archive : String → List Time) (fetchThreads : Nat) :
    Once archive (tailStarted H V fetchThreads) := by
  have hworker : ∀ w ∈ (tailStarted H V fetchThreads).workers, w = {} :=
    fun w hw => eq_of_mem_replicate hw
  have hnone : ∀ pv, publishedBy pv (tailStarted H V fetchThreads) = [] := by
    intro pv
    refine flatMap_eq_nil_iff.mpr fun w hw => ?_
    rw [hworker w hw]
    rfl
  refine ⟨?_, ?_, ?_, nofun, nofun, ?_⟩
  · intro w hw
    rw [hworker w hw]
    exact ⟨⟨rfl, nofun⟩, fun _ => rfl⟩
  · intro pv
    rw [hnone]
    exact nodup_nil
  · intro pv t ht
    rw [hnone] at ht
    cases ht
  · intro pv _ w hw
    rw [hworker w hw]
    rfl

theorem Once.publishedOnce (h : Once archive s) (harchive : ∀ pv, InOrder (archive pv)) :
    PublishedOnce archive s where
  once pv t := by
    by_cases ht : t ∈ publishedBy pv s
    · exact Nat.le_trans (nodup_iff_count_le_one.mp (h.nodup pv) t)
        (count_pos_iff.mpr (h.archived pv t ht))
    · rw [count_eq_zero.mpr ht]
      exact Nat.zero_le _
  all pv start stop hreached t ht hwindow := by
    rw [count_eq_one_of_mem (h.nodup pv) (h.covered pv start stop hreached t ht hwindow),
      count_eq_one_of_mem (harchive pv).nodup ht]

/-- **Every archived sample in the windows is published once, in every run whose fetches keep what
is new and nothing twice, if the samples of a PV have different times.** No sample may be answered
again to a worker that does not know that it was published, and a fetch that fails must have kept
the samples in its window; `publishedOnce_fails` has a run for each, and one with two samples of
one time. -/
theorem publishedOnce_of_kept (pb : Protobuf H V) {cfg : ReaderConfig}
    {archive : String → List Time}
    (harchive : ∀ pv, InOrder (archive pv)) (hmode : cfg.fetchMode = .periodicTail)
    {fetchThreads : Nat} {s : Tail H V}
    (hrun : Runs (fetchStep pb cfg) (fun s f => Archived archive cfg s f ∧ KeptWhole cfg s f)
      (tailStarted H V fetchThreads) s) : PublishedOnce archive s := by
  have honce : Once archive s :=
    hrun.keeps (fun _ _ _ h hok hstep => h.step harchive hmode hok.1 hok.2 hstep)
      (once_started archive fetchThreads)
  exact honce.publishedOnce harchive

/-! ## 6. Runs of the reader -/

/-- What follows the second in a `ScalarDouble` of 1.5. -/
def doubleTail : List UInt8 :=
  [0x10, 0x00, 0x19, 0x00, 0x00, 0x00, 0x00, 0x00, 0x00, 0xF8, 0x3F]

/-- A `PayloadInfo` of a double of the PV `T` in 1970. -/
def clockHeader : List UInt8 := [0x08, 0x06, 0x12, 0x01, 0x54, 0x18, 0xB2, 0x0F]

/-- What the protobuf side does with these. -/
def clockPb : Protobuf String Nat where
  parsePayloadInfo msg := if msg = clockHeader then some "T" else none
  pvname header := header
  parseSample header
    | tag :: second :: rest =>
      if tag = 0x08 ∧ rest = doubleTail then
        .ok { epochSeconds := second.toNat
              nanoseconds := 0
              columns := [{ name := header, values := .scalar .double [0x3FF8000000000000] }] }
      else .error "failed to parse PB/HTTP scalar sample"
    | _ => .error "failed to parse PB/HTTP scalar sample"

/-- Samples at these seconds. -/
def clockChunk (seconds : List UInt8) : Chunk clockPb where
  header := "T"
  msg := clockHeader
  nonempty := nofun
  parses := rfl
  samples := seconds.map fun second =>
    { msg := 0x08 :: second :: doubleTail
      nonempty := nofun
      parsed :=
        { epochSeconds := second.toNat
          nanoseconds := 0
          columns := [{ name := "T", values := .scalar .double [0x3FF8000000000000] }] }
      parses := rfl }

def clockTimes (seconds : List UInt8) : List Time := seconds.map fun second => (second.toNat, 0)

/-- A fetch that gets its answer. -/
def wholeFetch (worker start stop : Nat) (seconds : List UInt8) : Fetch clockPb where
  worker := worker
  pv := "T"
  start := (start, 0)
  stop := (stop, 0)
  answer := clockTimes seconds
  arrival := { whole := [clockChunk seconds] }
  pieces := [stream newline (chunkLines [clockChunk seconds])]
  response := .ok 200

/-- A fetch that breaks off after the first samples of the answer. -/
def brokenFetch (worker start stop : Nat) (seconds rest : List UInt8) : Fetch clockPb where
  worker := worker
  pv := "T"
  start := (start, 0)
  stop := (stop, 0)
  answer := clockTimes (seconds ++ rest)
  arrival := { whole := [], part := some (clockChunk seconds) }
  pieces := [stream newline (clockChunk seconds).lines]
  response := .error "connection reset"

theorem clockChunk_times (seconds : List UInt8) :
    (clockChunk seconds).times = clockTimes seconds := by
  simp [Chunk.times, clockChunk, clockTimes, ParsedSample.time]

/-- The seconds of the samples of `T`. -/
def clockArchive (seconds : List UInt8) (pv : String) : List Time :=
  if pv = "T" then clockTimes seconds else []

theorem wholeFetch_archived {s : Tail String Nat} {worker start stop : Nat} {seconds : List UInt8}
    (horder : start ≤ stop)
    (hcontiguous : ∀ window ∈ s.reached.lookup "T", window.2 = (start, 0))
    (hanswers : Answers (archive "T") (start, 0) (stop, 0) (clockTimes seconds)) :
    Archived archive cfg s (wholeFetch worker start stop seconds) where
  named := show "T" ≠ "" by decide
  order := (notEarlier_iff _ _).mpr (by simp only [wholeFetch]; omega)
  contiguous first last hreached := by
    have hlast : last = (start, 0) := hcontiguous (first, last) hreached
    subst hlast
    exact ⟨(notEarlier_iff _ _).mpr (by simp [wholeFetch]),
      (notEarlier_iff _ _).mpr (by simp only [wholeFetch]; omega)⟩
  answers := hanswers
  headers c hc := by
    rw [mem_singleton.mp hc]
    rfl
  arrives := by
    refine .inl ⟨⟨1, ?_⟩, rfl, rfl, ?_⟩
    · simp [wholeFetch]
    · simp [wholeFetch, Arrival.times, timesOfChunks, clockChunk_times]

theorem brokenFetch_archived {s : Tail String Nat} {worker start stop : Nat}
    {seconds rest : List UInt8} (horder : start ≤ stop)
    (hcontiguous : ∀ window ∈ s.reached.lookup "T", window.2 = (start, 0))
    (hanswers : Answers (archive "T") (start, 0) (stop, 0) (clockTimes (seconds ++ rest))) :
    Archived archive cfg s (brokenFetch worker start stop seconds rest) where
  named := show "T" ≠ "" by decide
  order := (notEarlier_iff _ _).mpr (by simp only [brokenFetch]; omega)
  contiguous first last hreached := by
    have hlast : last = (start, 0) := hcontiguous (first, last) hreached
    subst hlast
    exact ⟨(notEarlier_iff _ _).mpr (by simp [brokenFetch]),
      (notEarlier_iff _ _).mpr (by simp only [brokenFetch]; omega)⟩
  answers := hanswers
  headers c hc := by
    rw [mem_singleton.mp hc]
    rfl
  arrives := by
    refine .inr ⟨.client [] "connection reset" not_mem_nil ?_ rfl, ?_⟩
    · simp [brokenFetch, Arrival.lines]
    · simp [brokenFetch, Arrival.times, timesOfChunks, clockChunk_times, clockTimes]

/-- Two workers after some fetches. -/
def clockAfter (cfg : ReaderConfig) (fetches : List (Fetch clockPb)) : Tail String Nat :=
  fetches.foldl (fun s f => (fetchStep clockPb cfg s f).getD s) (tailStarted String Nat 2)

theorem clockAfter_snoc (fetches : List (Fetch clockPb)) (f : Fetch clockPb) :
    clockAfter cfg (fetches ++ [f]) =
      (fetchStep clockPb cfg (clockAfter cfg fetches) f).getD (clockAfter cfg fetches) := by
  rw [clockAfter, foldl_append]
  rfl

theorem clockAfter_runs {ok : Tail String Nat → Fetch clockPb → Prop}
    {fetches : List (Fetch clockPb)} {f : Fetch clockPb}
    (hrun : Runs (fetchStep clockPb cfg) ok (tailStarted String Nat 2) (clockAfter cfg fetches))
    (hok : ok (clockAfter cfg fetches) f)
    (henabled : (fetchStep clockPb cfg (clockAfter cfg fetches) f).isSome = true) :
    Runs (fetchStep clockPb cfg) ok (tailStarted String Nat 2)
      (clockAfter cfg (fetches ++ [f])) := by
  refine hrun.tail ⟨f, hok, ?_⟩
  obtain ⟨s, hs⟩ := Option.isSome_iff_exists.mp henabled
  rw [clockAfter_snoc, hs]
  rfl

instance {s : Tail H V} {f : Fetch pb} : Decidable (KeptWhole cfg s f) :=
  decidable_of_iff
    ((∀ w ∈ s.workers[f.worker]?, ∀ t ∈ f.arrival.keptTimes cfg,
        (publishedBy f.pv s).contains t = true → newer (watermark f.pv w) t = false) ∧
      ∀ t ∈ f.answer, inWindow f.start f.stop t = true →
        (publishedBy f.pv s).contains t = true ∨ (f.arrival.keptTimes cfg).contains t = true)
    (by
      simp only [contains_iff_mem]
      exact ⟨fun h => ⟨h.1, h.2⟩, fun h => ⟨h.once, h.whole⟩⟩)

/-- Ten samples a batch. -/
def batched : ReaderConfig := { name := "r", fetchMode := .periodicTail, pvSamplesPerBatch := 10 }

/-- No batch size. -/
def unbatched : ReaderConfig := { name := "r", fetchMode := .periodicTail }

/-- A fetch, one that breaks off after all samples, and one that gets the last sample again. -/
def clockFetches : List (Fetch clockPb) :=
  [wholeFetch 0 5 10 [10], brokenFetch 0 10 25 [10, 20] [], wholeFetch 0 25 30 [20]]

theorem clockFetches_once :
    PublishedOnce (clockArchive [10, 20]) (clockAfter batched clockFetches) ∧
      publishedBy "T" (clockAfter batched clockFetches) = [(10, 0), (20, 0)] := by
  have harchive : ∀ pv, InOrder (clockArchive [10, 20] pv) := by
    intro pv
    rw [clockArchive]
    split
    · simp [InOrder, clockTimes, sampleTimeLessThan]
    · exact .nil
  have hstart : Runs (fetchStep clockPb batched) (fun s f =>
      Archived (clockArchive [10, 20]) batched s f ∧ KeptWhole batched s f)
      (tailStarted String Nat 2) (clockAfter batched []) := .refl
  have hone := clockAfter_runs hstart (f := wholeFetch 0 5 10 [10])
    ⟨wholeFetch_archived (by decide) (by decide +kernel) (.inl (by decide +kernel)),
      by decide +kernel⟩
    (by decide +kernel)
  have htwo := clockAfter_runs hone (f := brokenFetch 0 10 25 [10, 20] [])
    ⟨brokenFetch_archived (by decide) (by decide +kernel) (.inl (by decide +kernel)),
      by decide +kernel⟩
    (by decide +kernel)
  have hthree := clockAfter_runs htwo (f := wholeFetch 0 25 30 [20])
    ⟨wholeFetch_archived (by decide) (by decide +kernel)
      (.inr ⟨(20, 0), by decide +kernel, by decide +kernel⟩), by decide +kernel⟩
    (by decide +kernel)
  exact ⟨publishedOnce_of_kept clockPb harchive rfl hthree, by decide +kernel⟩

/-- The second worker publishes the sample on the edge of the windows again. -/
def edgeFetches : List (Fetch clockPb) := [wholeFetch 0 5 10 [10], wholeFetch 1 10 25 [10, 20]]

theorem edgeFetches_runs : Runs (fetchStep clockPb batched)
    (Archived (clockArchive [10, 20]) batched) (tailStarted String Nat 2)
    (clockAfter batched edgeFetches) := by
  have hstart : Runs (fetchStep clockPb batched) (Archived (clockArchive [10, 20]) batched)
      (tailStarted String Nat 2) (clockAfter batched []) := .refl
  have hone := clockAfter_runs hstart (f := wholeFetch 0 5 10 [10])
    (wholeFetch_archived (by decide) (by decide +kernel) (.inl (by decide +kernel)))
    (by decide +kernel)
  exact clockAfter_runs hone (f := wholeFetch 1 10 25 [10, 20])
    (wholeFetch_archived (by decide) (by decide +kernel) (.inl (by decide +kernel)))
    (by decide +kernel)

/-- A fetch breaks off in a chunk, whose samples are then no newer than the watermark. -/
def lostFetches : List (Fetch clockPb) := [brokenFetch 0 5 15 [10] [], wholeFetch 0 15 25 [10, 20]]

theorem lostFetches_runs : Runs (fetchStep clockPb unbatched)
    (Archived (clockArchive [10, 20]) unbatched) (tailStarted String Nat 2)
    (clockAfter unbatched lostFetches) := by
  have hstart : Runs (fetchStep clockPb unbatched) (Archived (clockArchive [10, 20]) unbatched)
      (tailStarted String Nat 2) (clockAfter unbatched []) := .refl
  have hone := clockAfter_runs hstart (f := brokenFetch 0 5 15 [10] [])
    (brokenFetch_archived (by decide) (by decide +kernel) (.inl (by decide +kernel)))
    (by decide +kernel)
  exact clockAfter_runs hone (f := wholeFetch 0 15 25 [10, 20])
    (wholeFetch_archived (by decide) (by decide +kernel)
      (.inr ⟨(10, 0), by decide +kernel, by decide +kernel⟩))
    (by decide +kernel)

/-- Two samples of one time. -/
def twinFetches : List (Fetch clockPb) := [wholeFetch 0 5 15 [10, 10]]

theorem twinFetches_runs : Runs (fetchStep clockPb batched)
    (Archived (clockArchive [10, 10]) batched) (tailStarted String Nat 2)
    (clockAfter batched twinFetches) := by
  have hstart : Runs (fetchStep clockPb batched) (Archived (clockArchive [10, 10]) batched)
      (tailStarted String Nat 2) (clockAfter batched []) := .refl
  exact clockAfter_runs hstart (f := wholeFetch 0 5 15 [10, 10])
    (wholeFetch_archived (by decide) (by decide +kernel) (.inl (by decide +kernel)))
    (by decide +kernel)

/-- A sample is published twice by two workers, a sample is lost with a fetch that failed, and of
two samples of one time one is published. -/
theorem publishedOnce_fails :
    (∃ s, Runs (fetchStep clockPb batched) (Archived (clockArchive [10, 20]) batched)
        (tailStarted String Nat 2) s ∧ publishedBy "T" s = [(10, 0), (10, 0), (20, 0)] ∧
        ¬ PublishedOnce (clockArchive [10, 20]) s) ∧
      (∃ s, Runs (fetchStep clockPb unbatched) (Archived (clockArchive [10, 20]) unbatched)
        (tailStarted String Nat 2) s ∧ publishedBy "T" s = [(20, 0)] ∧
        ¬ PublishedOnce (clockArchive [10, 20]) s) ∧
      ∃ s, Runs (fetchStep clockPb batched) (Archived (clockArchive [10, 10]) batched)
        (tailStarted String Nat 2) s ∧ publishedBy "T" s = [(10, 0)] ∧
        ¬ PublishedOnce (clockArchive [10, 10]) s := by
  refine ⟨⟨_, edgeFetches_runs, by decide +kernel, ?_⟩,
    ⟨_, lostFetches_runs, by decide +kernel, ?_⟩, ⟨_, twinFetches_runs, by decide +kernel, ?_⟩⟩
  · intro h
    exact absurd (h.once "T" (10, 0)) (by decide +kernel)
  · intro h
    have hlost := h.all "T" (5, 0) (25, 0) (by decide +kernel) (10, 0) (by decide) (by decide)
    exact absurd hlost (by decide +kernel)
  · intro h
    have htwin := h.all "T" (5, 0) (15, 0) (by decide +kernel) (10, 0) (by decide) (by decide)
    exact absurd htwin (by decide +kernel)

end MldpDriver.Reader.Archiver
