/-
# The samples that a fetch publishes

In periodic mode a sample is published if it is newer than the watermark that the worker has for
its PV.  `fresh` is what is left of some times, `after` the watermark then; `arrived_published`
says that a fetch publishes what is fresh of the samples that came, of those of an unfinished chunk
only if there is a batch size.  -/
import MldpDriver.Reader.ArchiverDecode

namespace MldpDriver.Reader.Archiver

open Bus Lib.Directory Lib.Lines List

variable {H V : Type} {pb : Protobuf H V} {cfg : ReaderConfig} {pv : String}

/-! ## 1. Times -/

/-- Seconds and nanoseconds. -/
abbrev Time : Type := Nat × Nat

def ParsedSample.time (p : ParsedSample V) : Time := (p.epochSeconds, p.nanoseconds)

/-- The times of a frame. -/
def timesIn (batch : DataBatch V) : List Time :=
  batch.timestamps.map fun ts => (ts.epochSeconds, ts.nanoseconds)

/-- The times of a PV in a batch. -/
def timesOf (pv : String) (batch : EventBatch V) : List Time :=
  match batch.payload with
  | .timeSeries payload =>
    if payload.rootSourceName = pv then payload.frames.flatMap timesIn else []
  | _ => []

/-- The times of a PV that a worker has published. -/
def published (pv : String) (w : Worker H V) : List Time := w.pushed.flatMap (timesOf pv)

/-- The times in the pending batch of a PV. -/
def pendingTimes (pv : String) (w : Worker H V) : List Time :=
  match w.pendingPvBatches.lookup pv with
  | some pending => timesIn pending.accumulated
  | none => []

def seen (pv : String) (w : Worker H V) : List Time := published pv w ++ pendingTimes pv w

/-- The times in the events of the chunk. -/
def eventTimes (s : Worker H V × PbChunkState H V) : List Time := s.2.events.flatMap timesIn

/-- The watermark of a PV. -/
def watermark (pv : String) (w : Worker H V) : Option Time := w.lastPublished.lookup pv

def newer : Option Time → Time → Bool
  | some watermark, t => sampleTimeLessThan watermark t
  | none, _ => true

/-- The times of which each is newer than the watermark when it comes. -/
def fresh : Option Time → List Time → List Time
  | _, [] => []
  | mark, t :: ts => if newer mark t then t :: fresh (some t) ts else fresh mark ts

/-- The watermark after some times. -/
def after : Option Time → List Time → Option Time
  | mark, [] => mark
  | mark, t :: ts => if newer mark t then after (some t) ts else after mark ts

theorem fresh_append (mark : Option Time) (ts rest : List Time) :
    fresh mark (ts ++ rest) = fresh mark ts ++ fresh (after mark ts) rest := by
  induction ts generalizing mark with
  | nil => rfl
  | cons t ts ih =>
    rw [cons_append, fresh, fresh, after]
    split
    · rw [ih, cons_append]
    · exact ih mark

theorem after_append (mark : Option Time) (ts rest : List Time) :
    after mark (ts ++ rest) = after (after mark ts) rest := by
  induction ts generalizing mark with
  | nil => rfl
  | cons t ts ih =>
    rw [cons_append, after, after]
    split
    · exact ih (some t)
    · exact ih mark

theorem after_eq {mark : Option Time} {ts : List Time} {t : Time} (h : after mark ts = some t) :
    mark = some t ∨ t ∈ ts := by
  induction ts generalizing mark with
  | nil => exact .inl h
  | cons x ts ih =>
    rw [after] at h
    split at h
    · rcases ih h with hx | hmem
      · exact .inr (Option.some.inj hx ▸ mem_cons_self)
      · exact .inr (mem_cons_of_mem _ hmem)
    · rcases ih h with hmark | hmem
      · exact .inl hmark
      · exact .inr (mem_cons_of_mem _ hmem)

/-! ## 2. Pending batches -/

/-- The reader runs, and a pending batch with samples is that of its PV. -/
structure Rooted (w : Worker H V) : Prop where
  running : w.running = true
  roots : ∀ pv pending, w.pendingPvBatches.lookup pv = some pending →
    hasTimestamps pending.accumulated = true → pending.rootSourceName = pv

theorem timesIn_of_not_hasTimestamps {batch : DataBatch V} (h : ¬ hasTimestamps batch = true) :
    timesIn batch = [] := by
  rw [timesIn, map_eq_nil_iff]
  simpa [hasTimestamps] using h

theorem timesOf_timeSeries (metadata : List (String × String)) (root : String)
    (frames : List (DataBatch V)) :
    timesOf pv (timeSeries metadata root frames) =
      if root = pv then frames.flatMap timesIn else [] := rfl

section Submit

variable {w : Worker H V}

theorem submit_of_pending {pending : PendingPvBatch V} (h : Rooted w)
    (hlookup : w.pendingPvBatches.lookup pv = some pending)
    (hpending : hasTimestamps pending.accumulated = true) :
    submitPendingBatch w pv =
      { w with
        pendingPvBatches := remove w.pendingPvBatches pv
        pushed := w.pushed ++ [timeSeries pending.metadata pv [pending.accumulated]] } := by
  rw [submitPendingBatch, hlookup]
  simp only [hpending, if_pos, pushBatch, h.running]
  rw [h.roots pv pending hlookup hpending]

theorem submit_of_none (h : ∀ pending, w.pendingPvBatches.lookup pv = some pending →
    ¬ hasTimestamps pending.accumulated = true) : submitPendingBatch w pv = w := by
  rw [submitPendingBatch]
  split
  · rfl
  · next pending hlookup => rw [if_neg (h pending hlookup)]

/-- **Submitting a batch moves its times from pending to published.** -/
theorem Rooted.submit (h : Rooted w) (pv : String) :
    Rooted (submitPendingBatch w pv) ∧
      (∀ pv', seen pv' (submitPendingBatch w pv) = seen pv' w) ∧
      (∀ pv', pendingTimes pv' (submitPendingBatch w pv) =
        if pv' = pv then [] else pendingTimes pv' w) ∧
      (submitPendingBatch w pv).lastPublished = w.lastPublished := by
  by_cases hpending : ∃ pending, w.pendingPvBatches.lookup pv = some pending ∧
      hasTimestamps pending.accumulated = true
  · obtain ⟨pending, hlookup, hpending⟩ := hpending
    rw [submit_of_pending h hlookup hpending]
    have htimes : ∀ pv', pendingTimes pv' { w with
          pendingPvBatches := remove w.pendingPvBatches pv
          pushed := w.pushed ++ [timeSeries pending.metadata pv [pending.accumulated]] } =
        if pv' = pv then [] else pendingTimes pv' w := by
      intro pv'
      simp only [pendingTimes, lookup_remove]
      by_cases hpv : pv' = pv <;> simp [hpv]
    refine ⟨⟨h.running, ?_⟩, ?_, htimes, rfl⟩
    · intro pv' pending' hlookup' hpending'
      rw [lookup_remove] at hlookup'
      split at hlookup'
      · cases hlookup'
      · exact h.roots pv' pending' hlookup' hpending'
    · intro pv'
      rw [seen, htimes, seen]
      simp only [published, flatMap_append, flatMap_singleton, timesOf_timeSeries]
      by_cases hpv : pv' = pv
      · subst hpv
        simp [pendingTimes, hlookup]
      · rw [if_neg hpv, if_neg (Ne.symm hpv), append_nil]
  · have hsame : submitPendingBatch w pv = w :=
      submit_of_none fun pending hlookup hhas => hpending ⟨pending, hlookup, hhas⟩
    rw [hsame]
    refine ⟨h, fun _ => rfl, ?_, rfl⟩
    intro pv'
    split
    · next hpv =>
      subst hpv
      rw [pendingTimes]
      split
      · next pending hlookup =>
        exact timesIn_of_not_hasTimestamps fun hhas => hpending ⟨pending, hlookup, hhas⟩
      · rfl
    · rfl

/-- **Flushing publishes all that is pending.** -/
theorem Rooted.flushAll (h : Rooted w) :
    Rooted (flushAllPendingBatches w) ∧
      (∀ pv, published pv (flushAllPendingBatches w) = seen pv w) ∧
      (∀ pv, pendingTimes pv (flushAllPendingBatches w) = []) ∧
      (flushAllPendingBatches w).lastPublished = w.lastPublished := by
  have hfold : ∀ (pvs : List String) {w : Worker H V}, Rooted w →
      Rooted (pvs.foldl submitPendingBatch w) ∧
        (∀ pv, seen pv (pvs.foldl submitPendingBatch w) = seen pv w) ∧
        (∀ pv, pendingTimes pv (pvs.foldl submitPendingBatch w) =
          if pv ∈ pvs then [] else pendingTimes pv w) ∧
        (pvs.foldl submitPendingBatch w).lastPublished = w.lastPublished := by
    intro pvs
    induction pvs with
    | nil => exact fun h => ⟨h, fun _ => rfl, fun _ => by simp, rfl⟩
    | cons pv pvs ih =>
      intro w h
      obtain ⟨hrooted, hseen, hpending, hlast⟩ := h.submit pv
      obtain ⟨hrooted', hseen', hpending', hlast'⟩ := ih hrooted
      refine ⟨hrooted', fun pv' => (hseen' pv').trans (hseen pv'), ?_, hlast'.trans hlast⟩
      intro pv'
      rw [foldl_cons, hpending', hpending]
      by_cases hmem : pv' ∈ pvs <;> by_cases hpv : pv' = pv <;> simp [hmem, hpv]
  obtain ⟨hrooted, hseen, hpending, hlast⟩ :=
    hfold ((w.pendingPvBatches.filter fun kv => hasTimestamps kv.2.accumulated).map (·.1)) h
  have hnone : ∀ pv, pendingTimes pv (flushAllPendingBatches w) = [] := by
    intro pv
    rw [flushAllPendingBatches, hpending]
    split
    · rfl
    · next hmem =>
      rw [pendingTimes]
      split
      · next pending hlookup =>
        refine timesIn_of_not_hasTimestamps fun hhas => hmem ?_
        exact mem_map.mpr ⟨_, mem_filter.mpr ⟨mem_of_lookup hlookup, hhas⟩, rfl⟩
      · rfl
  refine ⟨hrooted, ?_, hnone, hlast⟩
  intro pv
  have hall := hseen pv
  rw [← flushAllPendingBatches, seen, hnone, append_nil] at hall
  exact hall

end Submit

/-! ## 3. A sample -/

theorem rootName_eq (hpv : pv ≠ "") : cfg.rootName pv = pv := by
  rw [ReaderConfig.rootName, if_neg]
  exact fun h => hpv (String.isEmpty_iff.mp h)

theorem timesIn_append (dst src : DataBatch V) :
    timesIn (appendToBatch dst src) = timesIn dst ++ timesIn src := map_append

theorem growPending_spec {w : Worker H V} (h : Rooted w) (hpv : pv ≠ "") (p : ParsedSample V) :
    (growPending cfg w pv p).rootSourceName = pv ∧
      timesIn (growPending cfg w pv p).accumulated = pendingTimes pv w ++ [p.time] := by
  have hopen : (openPending cfg w pv).rootSourceName = pv ∧
      timesIn (openPending cfg w pv).accumulated = pendingTimes pv w := by
    simp only [openPending, pendingTimes]
    cases hlookup : w.pendingPvBatches.lookup pv with
    | none => exact ⟨rootName_eq hpv, rfl⟩
    | some pending =>
      by_cases hhas : hasTimestamps pending.accumulated = true
      · simp only [Option.getD_some, hhas, if_true]
        exact ⟨h.roots pv pending hlookup hhas, trivial⟩
      · simp only [Option.getD_some, hhas, if_false, Bool.false_eq_true]
        exact ⟨rootName_eq hpv, trivial⟩
  exact ⟨hopen.1, (timesIn_append _ _).trans (congrArg (· ++ [p.time]) hopen.2)⟩

/-- **A sample is added to what is published or pending of its PV.** -/
theorem Rooted.addPending {w : Worker H V} (h : Rooted w) (hpv : pv ≠ "") (p : ParsedSample V) :
    Rooted (addPending cfg w pv p) ∧
      (∀ pv', seen pv' (addPending cfg w pv p) =
        if pv' = pv then seen pv w ++ [p.time] else seen pv' w) ∧
      (addPending cfg w pv p).lastPublished = w.lastPublished := by
  have hroom : Rooted (makeRoom cfg w pv p) ∧
      (∀ pv', seen pv' (makeRoom cfg w pv p) = seen pv' w) ∧
      (makeRoom cfg w pv p).lastPublished = w.lastPublished := by
    rw [makeRoom]
    split
    · obtain ⟨hrooted, hseen, -, hlast⟩ := h.submit pv
      exact ⟨hrooted, hseen, hlast⟩
    · exact ⟨h, fun _ => rfl, rfl⟩
  obtain ⟨hrooted, hseen, hlast⟩ := hroom
  obtain ⟨hroot, htimes⟩ := @growPending_spec H V cfg pv _ hrooted hpv p
  have hput : Rooted { makeRoom cfg w pv p with
        pendingPvBatches := put (makeRoom cfg w pv p).pendingPvBatches pv
          (growPending cfg (makeRoom cfg w pv p) pv p) } ∧
      ∀ pv', seen pv' { makeRoom cfg w pv p with
        pendingPvBatches := put (makeRoom cfg w pv p).pendingPvBatches pv
          (growPending cfg (makeRoom cfg w pv p) pv p) } =
        if pv' = pv then seen pv w ++ [p.time] else seen pv' w := by
    refine ⟨⟨hrooted.running, ?_⟩, ?_⟩
    · intro pv' pending hlookup hhas
      rw [lookup_put] at hlookup
      split at hlookup
      · next hsame =>
        obtain rfl := Option.some.inj hlookup
        exact hroot.trans hsame.symm
      · exact hrooted.roots pv' pending hlookup hhas
    · intro pv'
      rw [← hseen pv, ← hseen pv']
      by_cases hsame : pv' = pv
      · subst hsame
        simp only [seen, pendingTimes, lookup_put_self, if_true, append_assoc]
        exact congrArg _ htimes
      · simp only [seen, pendingTimes, lookup_put_of_ne hsame, if_neg hsame]
        rfl
  rw [Archiver.addPending]
  split
  · obtain ⟨hrooted', hseen', -, hlast'⟩ := hput.1.submit pv
    exact ⟨hrooted', fun pv' => (hseen' pv').trans (hput.2 pv'), hlast'.trans hlast⟩
  · exact ⟨hput.1, hput.2, hlast⟩

/-- The worker and the chunk have come to take the times, of which the fresh ones count. -/
structure Took (cfg : ReaderConfig) (pv : String) (s s' : Worker H V × PbChunkState H V)
    (ts : List Time) : Prop where
  rooted : Rooted s'.1
  header : s'.2.header = s.2.header
  batched : 0 < cfg.pvSamplesPerBatch →
    seen pv s'.1 = seen pv s.1 ++ fresh (watermark pv s.1) ts ∧ s'.2.events = s.2.events
  unbatched : cfg.pvSamplesPerBatch = 0 →
    seen pv s'.1 = seen pv s.1 ∧ eventTimes s' = eventTimes s ++ fresh (watermark pv s.1) ts
  mark : watermark pv s'.1 = after (watermark pv s.1) ts
  others : ∀ pv', pv' ≠ pv → seen pv' s'.1 = seen pv' s.1 ∧ watermark pv' s'.1 = watermark pv' s.1

theorem took_nothing {s : Worker H V × PbChunkState H V} (h : Rooted s.1) : Took cfg pv s s [] where
  rooted := h
  header := rfl
  batched _ := ⟨(append_nil _).symm, rfl⟩
  unbatched _ := ⟨rfl, (append_nil _).symm⟩
  mark := rfl
  others _ _ := ⟨rfl, rfl⟩

theorem Took.trans {s s' s'' : Worker H V × PbChunkState H V} {ts ts' : List Time}
    (h : Took cfg pv s s' ts) (h' : Took cfg pv s' s'' ts') : Took cfg pv s s'' (ts ++ ts') where
  rooted := h'.rooted
  header := h'.header.trans h.header
  batched hbatch := by
    obtain ⟨hseen, hevents⟩ := h.batched hbatch
    obtain ⟨hseen', hevents'⟩ := h'.batched hbatch
    rw [hseen', hseen, hevents', hevents, h.mark, fresh_append, append_assoc]
    exact ⟨rfl, rfl⟩
  unbatched hbatch := by
    obtain ⟨hseen, hevents⟩ := h.unbatched hbatch
    obtain ⟨hseen', hevents'⟩ := h'.unbatched hbatch
    rw [hseen', hseen, hevents', hevents, h.mark, fresh_append, append_assoc]
    exact ⟨rfl, rfl⟩
  mark := by rw [h'.mark, h.mark, after_append]
  others pv' hpv := by
    obtain ⟨hseen, hmark⟩ := h.others pv' hpv
    obtain ⟨hseen', hmark'⟩ := h'.others pv' hpv
    exact ⟨hseen'.trans hseen, hmark'.trans hmark⟩

theorem notNewer_eq (w : Worker H V) (p : ParsedSample V) :
    notNewer w pv p = !newer (watermark pv w) p.time := by
  rw [notNewer, watermark]
  cases w.lastPublished.lookup pv <;> rfl

theorem batchSample_took (hpv : pv ≠ "") {s : Worker H V × PbChunkState H V} (h : Rooted s.1)
    (p : ParsedSample V) :
    Rooted (batchSample cfg pv p s).1 ∧ (batchSample cfg pv p s).2.header = s.2.header ∧
      (0 < cfg.pvSamplesPerBatch → seen pv (batchSample cfg pv p s).1 = seen pv s.1 ++ [p.time] ∧
        (batchSample cfg pv p s).2.events = s.2.events) ∧
      (cfg.pvSamplesPerBatch = 0 → seen pv (batchSample cfg pv p s).1 = seen pv s.1 ∧
        eventTimes (batchSample cfg pv p s) = eventTimes s ++ [p.time]) ∧
      (batchSample cfg pv p s).1.lastPublished = s.1.lastPublished ∧
      ∀ pv', pv' ≠ pv → seen pv' (batchSample cfg pv p s).1 = seen pv' s.1 := by
  rw [batchSample]
  split
  · next hbatch =>
    obtain ⟨hrooted, hseen, hlast⟩ := @Rooted.addPending H V cfg pv _ h hpv p
    refine ⟨hrooted, rfl, ?_, ?_, hlast, ?_⟩
    · exact fun _ => ⟨(hseen pv).trans (if_pos rfl), rfl⟩
    · exact fun hzero => absurd hbatch (hzero ▸ Nat.lt_irrefl 0)
    · exact fun pv' hne => (hseen pv').trans (if_neg hne)
  · next hbatch =>
    refine ⟨h, rfl, fun hpos => absurd hpos hbatch, ?_, rfl, fun _ _ => rfl⟩
    intro _
    refine ⟨rfl, ?_⟩
    rw [eventTimes, flatMap_append, flatMap_singleton]
    rfl

/-- **A sample in periodic mode.** -/
theorem takeSample_took (hmode : cfg.fetchMode = .periodicTail) {header : H}
    (hheader : pb.pvname header = pv) (hpv : pv ≠ "") {s : Worker H V × PbChunkState H V}
    (h : Rooted s.1) (msg : List UInt8) (p : ParsedSample V) :
    Took cfg pv s (takeSample pb cfg header msg p s) [p.time] := by
  rw [takeSample, if_pos hmode, hheader, notNewer_eq]
  have hmarked : watermark pv { s.1 with parsed := s.1.parsed ++ [(header, msg)] } =
      watermark pv s.1 := rfl
  rw [hmarked]
  cases hnewer : newer (watermark pv s.1) p.time with
  | false =>
    have hfresh : fresh (watermark pv s.1) [p.time] = [] := by simp [fresh, hnewer]
    have hafter : after (watermark pv s.1) [p.time] = watermark pv s.1 := by simp [after, hnewer]
    refine ⟨⟨h.running, h.roots⟩, rfl, fun _ => ?_, fun _ => ?_, hafter.symm, fun _ _ => ⟨rfl, rfl⟩⟩
    · rw [hfresh, append_nil]
      exact ⟨rfl, rfl⟩
    · rw [hfresh, append_nil]
      exact ⟨rfl, rfl⟩
  | true =>
    have hfresh : fresh (watermark pv s.1) [p.time] = [p.time] := by simp [fresh, hnewer]
    have hafter : after (watermark pv s.1) [p.time] = some p.time := by simp [after, hnewer]
    obtain ⟨hrooted, hheader', hbatched, hunbatched, hlast, hothers⟩ :=
      @batchSample_took H V cfg pv hpv
        ({ s.1 with
          parsed := s.1.parsed ++ [(header, msg)]
          lastPublished := put s.1.lastPublished pv (p.epochSeconds, p.nanoseconds) }, s.2)
        ⟨h.running, h.roots⟩ p
    refine ⟨hrooted, hheader', ?_, ?_, ?_, ?_⟩
    · rw [hfresh]
      exact hbatched
    · rw [hfresh]
      exact hunbatched
    · rw [hafter]
      refine (congrArg (List.lookup pv) hlast).trans ?_
      exact lookup_put_self
    · intro pv' hne
      refine ⟨hothers pv' hne, (congrArg (List.lookup pv') hlast).trans ?_⟩
      exact lookup_put_of_ne hne

/-! ## 4. Chunks -/

/-- The times of the samples of a chunk. -/
def Chunk.times (c : Chunk pb) : List Time := c.samples.map fun x => x.parsed.time

theorem readSamples_took (hmode : cfg.fetchMode = .periodicTail) {header : H}
    (hheader : pb.pvname header = pv) (hpv : pv ≠ "") (samples : List (Sample pb header))
    {s : Worker H V × PbChunkState H V} (h : Rooted s.1) :
    Took cfg pv s (samples.foldl (readSample cfg) s) (samples.map fun x => x.parsed.time) := by
  induction samples generalizing s with
  | nil => exact took_nothing h
  | cons x samples ih =>
    have hfirst : Took cfg pv s (readSample cfg s x) [x.parsed.time] :=
      takeSample_took hmode hheader hpv h x.msg x.parsed
    exact hfirst.trans (ih hfirst.rooted)

/-- What a whole chunk does. -/
structure Read (pv : String) (w w' : Worker H V) (ts : List Time) : Prop where
  rooted : Rooted w'
  seen : (seen pv w').Perm (seen pv w ++ fresh (watermark pv w) ts)
  mark : watermark pv w' = after (watermark pv w) ts
  others : ∀ pv', pv' ≠ pv → Archiver.seen pv' w' = Archiver.seen pv' w ∧
    watermark pv' w' = watermark pv' w

theorem flatMap_timesIn_filter (events : List (DataBatch V)) :
    (events.filter hasTimestamps).flatMap timesIn = events.flatMap timesIn := by
  induction events with
  | nil => rfl
  | cons batch events ih =>
    by_cases hhas : hasTimestamps batch = true
    · rw [filter_cons_of_pos hhas, flatMap_cons, flatMap_cons, ih]
    · rw [filter_cons_of_neg hhas, flatMap_cons, ih, timesIn_of_not_hasTimestamps hhas,
        nil_append]

theorem flushChunk_read (hpv : pv ≠ "") {header : H} (hheader : pb.pvname header = pv)
    {w : Worker H V} (h : Rooted w) (events : List (DataBatch V)) :
    Rooted (flushChunk pb cfg w header events) ∧
      (seen pv (flushChunk pb cfg w header events)).Perm (seen pv w ++ events.flatMap timesIn) ∧
      (flushChunk pb cfg w header events).lastPublished = w.lastPublished ∧
      ∀ pv', pv' ≠ pv → seen pv' (flushChunk pb cfg w header events) = seen pv' w := by
  rw [← flatMap_timesIn_filter events, flushChunk]
  by_cases hnone : (events.filter hasTimestamps).isEmpty = true
  · rw [if_pos hnone, List.isEmpty_iff.mp hnone, flatMap_nil, append_nil]
    exact ⟨h, .refl _, rfl, fun _ _ => rfl⟩
  · rw [if_neg hnone, pushBatch, if_pos h.running, hheader, rootName_eq hpv]
    refine ⟨⟨h.running, h.roots⟩, ?_, rfl, ?_⟩
    · simp only [seen, published, flatMap_append, flatMap_singleton, timesOf_timeSeries,
        if_true, append_assoc]
      exact perm_append_comm.append_left _
    · intro pv' hne
      simp only [seen, published, flatMap_append, flatMap_singleton, timesOf_timeSeries,
        if_neg (Ne.symm hne), append_nil]
      rfl

/-- **A whole chunk.** -/
theorem readChunk_read (hmode : cfg.fetchMode = .periodicTail) (hpv : pv ≠ "") {c : Chunk pb}
    (hheader : pb.pvname c.header = pv) {w : Worker H V} (h : Rooted w) :
    Read pv w (readChunk cfg w c) c.times := by
  have htook : Took cfg pv (w, { header := some c.header })
      (c.samples.foldl (readSample cfg) (w, { header := some c.header })) c.times :=
    readSamples_took hmode hheader hpv c.samples h
  have hstate := htook.header
  rw [readChunk, finalizeChunk, hstate]
  obtain ⟨hrooted, hseen, hlast, hothers⟩ := @flushChunk_read H V pb cfg pv hpv _ hheader _ htook.rooted
    (c.samples.foldl (readSample cfg) (w, { header := some c.header })).2.events
  refine ⟨hrooted, hseen.trans ?_, ?_, ?_⟩
  · rcases Nat.eq_zero_or_pos cfg.pvSamplesPerBatch with hzero | hbatch
    · obtain ⟨hsame, hevents⟩ := htook.unbatched hzero
      rw [hsame]
      exact .of_eq (congrArg (Archiver.seen pv w ++ ·) hevents)
    · obtain ⟨htimes, hevents⟩ := htook.batched hbatch
      rw [htimes, hevents, flatMap_nil, append_nil]
  · exact (congrArg (List.lookup pv) hlast).trans htook.mark
  · intro pv' hne
    obtain ⟨hsame, hmark⟩ := htook.others pv' hne
    exact ⟨(hothers pv' hne).trans hsame, (congrArg (List.lookup pv') hlast).trans hmark⟩

theorem Read.trans {w w' w'' : Worker H V} {ts ts' : List Time} (h : Read pv w w' ts)
    (h' : Read pv w' w'' ts') : Read pv w w'' (ts ++ ts') where
  rooted := h'.rooted
  seen := by
    rw [fresh_append, ← append_assoc, ← h.mark]
    exact h'.seen.trans (h.seen.append_right _)
  mark := by rw [h'.mark, h.mark, after_append]
  others pv' hne := by
    obtain ⟨hseen, hmark⟩ := h.others pv' hne
    obtain ⟨hseen', hmark'⟩ := h'.others pv' hne
    exact ⟨hseen'.trans hseen, hmark'.trans hmark⟩

/-- The times of chunks. -/
def timesOfChunks (chunks : List (Chunk pb)) : List Time := chunks.flatMap Chunk.times

theorem readChunks_read (hmode : cfg.fetchMode = .periodicTail) (hpv : pv ≠ "")
    {chunks : List (Chunk pb)} (hheaders : ∀ c ∈ chunks, pb.pvname c.header = pv)
    {w : Worker H V} (h : Rooted w) :
    Read pv w (readChunks cfg w chunks) (timesOfChunks chunks) := by
  induction chunks generalizing w with
  | nil => exact ⟨h, .of_eq (append_nil _).symm, rfl, fun _ _ => ⟨rfl, rfl⟩⟩
  | cons c chunks ih =>
    have hfirst : Read pv w (readChunk cfg w c) c.times :=
      readChunk_read hmode hpv (hheaders c mem_cons_self) h
    exact hfirst.trans (ih (fun c hc => hheaders c (mem_cons_of_mem _ hc)) hfirst.rooted)

/-! ## 5. What has arrived -/

/-- What a fetch has read: whole chunks, and then a chunk that has not ended, if there is one. -/
structure Arrival (pb : Protobuf H V) where
  whole : List (Chunk pb)
  part : Option (Chunk pb) := none

/-- The times that have arrived. -/
def Arrival.times (a : Arrival pb) : List Time :=
  timesOfChunks a.whole ++ (a.part.map Chunk.times).getD []

/-- The times that are published if they are fresh; the events of a chunk that has not ended are
lost. -/
def Arrival.keptTimes (cfg : ReaderConfig) (a : Arrival pb) : List Time :=
  timesOfChunks a.whole ++
    if 0 < cfg.pvSamplesPerBatch then (a.part.map Chunk.times).getD [] else []

/-- What the lines do. -/
def readArrival (cfg : ReaderConfig) (w : Worker H V) (a : Arrival pb) :
    Worker H V × PbChunkState H V :=
  match a.part with
  | some c =>
    c.samples.foldl (readSample cfg) (readChunks cfg w a.whole, { header := some c.header })
  | none => (readChunks cfg w a.whole, {})

theorem readArrival_read (hmode : cfg.fetchMode = .periodicTail) (hpv : pv ≠ "") {a : Arrival pb}
    (hheaders : ∀ c ∈ a.whole ++ a.part.toList, pb.pvname c.header = pv) {w : Worker H V}
    (h : Rooted w) :
    Rooted (readArrival cfg w a).1 ∧
      (seen pv (readArrival cfg w a).1).Perm
        (seen pv w ++ fresh (watermark pv w) (a.keptTimes cfg)) ∧
      watermark pv (readArrival cfg w a).1 = after (watermark pv w) a.times ∧
      ∀ pv', pv' ≠ pv → seen pv' (readArrival cfg w a).1 = seen pv' w ∧
        watermark pv' (readArrival cfg w a).1 = watermark pv' w := by
  obtain ⟨whole, part⟩ := a
  have hwhole : Read pv w (readChunks cfg w whole) (timesOfChunks whole) :=
    readChunks_read hmode hpv (fun c hc => hheaders c (mem_append_left _ hc)) h
  cases part with
  | none =>
    have hkept : Arrival.keptTimes cfg ⟨whole, none⟩ = timesOfChunks whole := by
      simp [Arrival.keptTimes]
    have htimes : Arrival.times ⟨whole, none⟩ = timesOfChunks whole := by simp [Arrival.times]
    rw [hkept, htimes]
    exact ⟨hwhole.rooted, hwhole.seen, hwhole.mark, hwhole.others⟩
  | some c =>
    have hheader : pb.pvname c.header = pv :=
      hheaders c (mem_append_right _ (mem_singleton.mpr rfl))
    have htook : Took cfg pv (readChunks cfg w whole, { header := some c.header })
        (readArrival cfg w ⟨whole, some c⟩) c.times :=
      readSamples_took hmode hheader hpv c.samples hwhole.rooted
    refine ⟨htook.rooted, ?_, ?_, ?_⟩
    · rcases Nat.eq_zero_or_pos cfg.pvSamplesPerBatch with hzero | hbatch
      · have hkept : Arrival.keptTimes cfg ⟨whole, some c⟩ = timesOfChunks whole := by
          simp [Arrival.keptTimes, hzero]
        rw [hkept, (htook.unbatched hzero).1]
        exact hwhole.seen
      · have hkept : Arrival.keptTimes cfg ⟨whole, some c⟩ = timesOfChunks whole ++ c.times := by
          simp [Arrival.keptTimes, hbatch]
        rw [hkept, (htook.batched hbatch).1, fresh_append, ← append_assoc, ← hwhole.mark]
        exact hwhole.seen.append_right _
    · rw [htook.mark, hwhole.mark, ← after_append]
      rfl
    · intro pv' hne
      obtain ⟨hseen, hmark⟩ := hwhole.others pv' hne
      obtain ⟨hseen', hmark'⟩ := htook.others pv' hne
      exact ⟨hseen'.trans hseen, hmark'.trans hmark⟩

/-- **A fetch publishes what is fresh of the times it keeps, and moves the watermark over all that
have arrived.** -/
theorem arrived_published (hmode : cfg.fetchMode = .periodicTail) (hpv : pv ≠ "") {a : Arrival pb}
    (hheaders : ∀ c ∈ a.whole ++ a.part.toList, pb.pvname c.header = pv) {w : Worker H V}
    (h : Rooted w) (hpending : ∀ pv, pendingTimes pv w = []) :
    Rooted (flushAllPendingBatches (readArrival cfg w a).1) ∧
      (∀ pv', pendingTimes pv' (flushAllPendingBatches (readArrival cfg w a).1) = []) ∧
      (published pv (flushAllPendingBatches (readArrival cfg w a).1)).Perm
        (published pv w ++ fresh (watermark pv w) (a.keptTimes cfg)) ∧
      watermark pv (flushAllPendingBatches (readArrival cfg w a).1) =
        after (watermark pv w) a.times ∧
      ∀ pv', pv' ≠ pv →
        published pv' (flushAllPendingBatches (readArrival cfg w a).1) = published pv' w ∧
        watermark pv' (flushAllPendingBatches (readArrival cfg w a).1) = watermark pv' w := by
  obtain ⟨hrooted, hseen, hmark, hothers⟩ := readArrival_read hmode hpv hheaders h
  obtain ⟨hrooted', hpublished, hnone, hlast⟩ := hrooted.flushAll
  have hall : ∀ pv', seen pv' w = published pv' w := fun pv' => by
    rw [seen, hpending, append_nil]
  refine ⟨hrooted', hnone, ?_, (congrArg (List.lookup pv) hlast).trans hmark, ?_⟩
  · rw [hpublished, ← hall]
    exact hseen
  · intro pv' hne
    obtain ⟨hsame, hmark'⟩ := hothers pv' hne
    rw [hpublished, hsame, hall]
    exact ⟨rfl, (congrArg (List.lookup pv') hlast).trans hmark'⟩

/-! ## 6. Fetches that fail -/

/-- The lines that have arrived. -/
def Arrival.lines (a : Arrival pb) : List (List UInt8) :=
  a.whole.flatMap (fun c => c.lines ++ [[]]) ++ (a.part.map Chunk.lines).getD []

/-- A fetch fails: the client gives up in the middle of a line, a line cannot be read, or the
answer has another status. -/
inductive Broken (cfg : ReaderConfig) (pv : String) (a : Arrival pb) (pieces : List (List UInt8))
    (response : Except String Nat) : Prop
  | client (rest : List UInt8) (what : String) (hrest : newline ∉ rest)
    (hpieces : pieces.flatten = stream newline a.lines ++ rest) (hresponse : response = .error what)
  | line (bad rest : List UInt8) (hbad : newline ∉ bad)
    (hthrows : ∀ w : Worker H V, ∃ what,
      onLine pb cfg pv (readArrival cfg w a) bad = .error ((readArrival cfg w a).1, what))
    (hpieces : pieces.flatten = stream newline a.lines ++ (bad ++ newline :: rest))
  | status (rest : List UInt8) (code : Nat) (hcode : code ≠ 200)
    (hnone : a.whole = [] ∧ a.part = none) (hrest : newline ∉ rest) (hpieces : pieces.flatten = rest)
    (hthrows : rest = [] ∨ ∀ w : Worker H V, ∃ what, onLine pb cfg pv (w, {}) rest = .error (w, what))
    (hresponse : response = .ok code)

/-- **The lines that have arrived do what the chunks do.** -/
theorem onLine_arrival (a : Arrival pb) (w : Worker H V) :
    a.lines.foldlM (onLine pb cfg pv) (w, {}) = .ok (readArrival cfg w a) := by
  obtain ⟨whole, part⟩ := a
  have hwhole : (whole.flatMap fun c => c.lines ++ [[]]).foldlM (onLine pb cfg pv) (w, {}) =
      .ok (readChunks cfg w whole, {}) := by
    induction whole generalizing w with
    | nil => rfl
    | cons c whole ih =>
      have hblank : [[]].foldlM (onLine pb cfg pv)
          (c.samples.foldl (readSample cfg) (w, { header := some c.header })) =
            .ok (readChunk cfg w c, {}) :=
        congrArg Except.ok (finalizeChunk_chunk c w)
      have hfirst : (c.lines ++ [[]]).foldlM (onLine pb cfg pv) (w, {}) =
          .ok (readChunk cfg w c, {}) := by
        rw [foldlM_append, onLine_chunk]
        exact hblank
      rw [flatMap_cons, foldlM_append, hfirst]
      exact ih (readChunk cfg w c)
  rw [Arrival.lines, foldlM_append, hwhole]
  cases part with
  | none => rfl
  | some c => exact onLine_chunk c (readChunks cfg w whole)

theorem newline_notMem_arrival (a : Arrival pb) : ∀ line ∈ a.lines, newline ∉ line := by
  have hchunk : ∀ c : Chunk pb, ∀ line ∈ c.lines, newline ∉ line :=
    fun c => @newline_notMem_lines H V pb [c]
  intro line hline
  rcases mem_append.mp hline with hline | hline
  · obtain ⟨c, -, hline⟩ := mem_flatMap.mp hline
    rcases mem_append.mp hline with hline | hline
    · exact hchunk c line hline
    · rw [mem_singleton.mp hline]
      exact not_mem_nil
  · cases hpart : a.part with
    | none =>
      rw [hpart] at hline
      cases hline
    | some c =>
      rw [hpart] at hline
      exact hchunk c line hline

/-- **A fetch that fails has done what the lines that arrived do, and pushes what is pending.** -/
theorem broken_fetch {a : Arrival pb} {pieces : List (List UInt8)} {response : Except String Nat}
    (h : Broken cfg pv a pieces response) {w : Worker H V}
    (hrunning : (readArrival cfg w a).1.running = true) :
    fetchPvSafely pb cfg pv w pieces response =
      .ok (flushAllPendingBatches (readArrival cfg w a).1) := by
  suffices hfails : ∃ what, fetchSinglePV pb cfg pv w pieces response =
      .error ((readArrival cfg w a).1, what) by
    obtain ⟨what, hfails⟩ := hfails
    rw [fetchPvSafely, hfails]
    exact if_pos hrunning
  have harrived : readPiece newline (onLine pb cfg pv) ((w, {}), []) (stream newline a.lines) =
      .ok (readArrival cfg w a, []) := by
    rw [readPiece_lines _ (newline_notMem_arrival a), onLine_arrival]
    rfl
  cases h with
  | client rest what hrest hpieces hresponse =>
    have hread : readPieces newline (onLine pb cfg pv) ((w, {}), []) pieces =
        .ok (readArrival cfg w a, rest) := by
      rw [readPieces_eq, hpieces, readPiece_append, harrived]
      exact readPiece_kept _ [] hrest
    refine ⟨what, ?_⟩
    rw [fetchSinglePV, hread, hresponse]
    rfl
  | line bad rest hbad hthrows hpieces =>
    obtain ⟨what, hthrows⟩ := hthrows w
    refine ⟨what, ?_⟩
    have hread : readPieces newline (onLine pb cfg pv) ((w, {}), []) pieces =
        .error ((readArrival cfg w a).1, what) := by
      have hline : readPiece newline (onLine pb cfg pv) (readArrival cfg w a, []) (bad ++ [newline]) =
          (onLine pb cfg pv (readArrival cfg w a) bad).map fun s => (s, []) :=
        readPiece_line _ hbad
      rw [hthrows] at hline
      rw [readPieces_eq, hpieces, readPiece_append, harrived]
      have hsplit : bad ++ newline :: rest = bad ++ [newline] ++ rest := by simp
      rw [hsplit]
      refine (readPiece_append _ _ _).trans ?_
      rw [hline]
      rfl
    rw [fetchSinglePV, hread]
    rfl
  | status rest code hcode hnone hrest hpieces hthrows hresponse =>
    obtain ⟨whole, part⟩ := a
    obtain ⟨rfl, rfl⟩ := hnone
    have hread : readPieces newline (onLine pb cfg pv) ((w, {}), []) pieces =
        .ok ((w, {}), rest) := by
      rw [readPieces_eq, hpieces]
      exact readPiece_kept _ [] hrest
    by_cases hempty : rest = []
    · refine ⟨"archiver HTTP GET returned status " ++ toString code ++ " for PV " ++ pv, ?_⟩
      rw [fetchSinglePV, hread, hresponse, hempty]
      simp only [bind, Except.bind, endOfStream, isEmpty_nil, if_true, Except.map, hcode,
        if_false]
      rfl
    · obtain ⟨what, hthrows⟩ := hthrows.resolve_left hempty w
      refine ⟨what, ?_⟩
      have hline : rest.isEmpty = false := isEmpty_eq_false_iff.mpr hempty
      rw [fetchSinglePV, hread, hresponse]
      simp only [bind, Except.bind, endOfStream, hline, Bool.false_eq_true, if_false, hthrows,
        Except.map]
      rfl

end MldpDriver.Reader.Archiver
