/-
# What becomes of the frames of a batch

`processItem` counts a failure for a frame it could not write, and one for a stream it could not
open.  Either failure ends the item, and the frames behind it are neither written nor counted.  The
tally of an item is the frames written, the failures counted and the frames skipped for having no
column; `toItems` has counted a failure for every frame without timestamps before.

The failures that the closing task counts are about the end of a stream, not about a frame.
-/
import MldpDriver.Writer.StreamLimits

namespace MldpDriver.Writer

open Bus Pool Lib.Run

variable {V : Type} {W : MLDPWriter V} {t : Ticket (QueueItem V)}

/-! ## 1. The tally of an item -/

/-- What the writer counts while it processes an item. -/
structure Tally where
  written : Nat := 0
  failures : Nat := 0
  skipped : Nat := 0

def Tally.total (c : Tally) : Nat := c.written + c.failures + c.skipped

/-- The frames the loop passes over without a word to the metrics. -/
def hasNoColumn (item : QueueItem V) (frame : DataBatch V) : Bool :=
  columnCount frame == 0 || !hasAnyColumn (toDataFrame frame item.rootSource item.metadata)

/-- What a step of `processItem` adds to the tally. -/
def MLDPWriter.tallyNext (W : MLDPWriter V) (t : Ticket (QueueItem V)) (seen : Seen)
    (items : List Bool) (ws : WorkerState V) (c : Tally) : Tally :=
  match ws.pc with
  | .going (.frame i) =>
    match t.item.frames[i]? with
    | none => c
    | some frame =>
      if (W.toRequest t.item ws.stream frame).isSome then c
      else if hasNoColumn t.item frame then { c with skipped := c.skipped + 1 }
      else { c with failures := c.failures + 1 }
  | .going (.write _ _) =>
    if seen.written then { c with written := c.written + 1 }
    else { c with failures := c.failures + 1 }
  | .acquiring _ =>
    -- `ensureStream` catches what `acquire()` throws
    if creates W.pool.maxConnections items ∧ seen.opened = .threw then
      { c with failures := c.failures + 1 }
    else c
  | .opening _ =>
    if seen.opened = .opened then c else { c with failures := c.failures + 1 }
  | _ => c

/-- A step of `processItem` with its tally; what it sees includes the pool. -/
def MLDPWriter.processStep (W : MLDPWriter V) (t : Ticket (QueueItem V))
    (s : WorkerState V × Tally) (a : Seen × List Bool) : Option (WorkerState V × Tally) :=
  (W.processNext t a.1 a.2 s.1).map fun r => (r.1, W.tallyNext t a.1 a.2 s.1 s.2)

/-! ## 2. Conservation -/

/-- The frames of a batch. -/
def batchFrames (batch : EventBatch V) : List (DataBatch V) :=
  match batch.payload with
  | .timeSeries ts => ts.frames
  | _ => []

/-- The failures that `toItems` counts: one for every frame without timestamps. -/
def toItemsFailures (batch : EventBatch V) : Nat :=
  match batch.payload with
  | .timeSeries ts =>
    if ts.endOfBatchGroup then 0
    else if ts.rootSourceName = "" ∨ ts.frames.isEmpty then 0
    else (ts.frames.filter (·.timestamps.isEmpty)).length
  | _ => 0

/-- Every frame of the batch was written, counted as a failure or skipped. -/
def Conserved (batch : EventBatch V) (c : Tally) : Prop :=
  c.written + (toItemsFailures batch + c.failures) + c.skipped = (batchFrames batch).length

/-- The step ends the item: a write fails, or a stream cannot be opened. -/
def MLDPWriter.fails (W : MLDPWriter V) (ws : WorkerState V) (a : Seen × List Bool) : Bool :=
  match ws.pc with
  | .going (.write _ _) => !a.1.written
  | .acquiring _ => creates W.pool.maxConnections a.2 && decide (a.1.opened = .threw)
  | .opening _ => decide (a.1.opened ≠ .opened)
  | _ => false

/-- A failure comes where one frame is not yet in the tally.  It is counted once and ends the item,
so with more frames left these are in no count, and with none left a frame is counted twice. -/
def MLDPWriter.oneLeft (W : MLDPWriter V) (t : Ticket (QueueItem V)) (s : WorkerState V × Tally)
    (a : Seen × List Bool) : Prop :=
  W.fails s.1 a = true → reached t s.1.pc.point + 1 = t.item.frames.length

instance (s : WorkerState V × Tally) : DecidablePred (W.oneLeft t s) := fun _ =>
  inferInstanceAs (Decidable (_ → _))

/-! ## 3. What a step adds -/

/-- The frame a point is about is one of the item. -/
def Within (t : Ticket (QueueItem V)) : Point V → Prop
  | .frame i => i ≤ t.item.frames.length
  | .write i _ => i < t.item.frames.length
  | _ => True

/-- The tally has the frames behind the worker. -/
structure Tallied (t : Ticket (QueueItem V)) (s : WorkerState V × Tally) : Prop where
  total : s.2.total = reached t s.1.pc.point
  within : Within t s.1.pc.point

theorem Tallied.at {ws : WorkerState V} {c : Tally} {p : Point V} (hpoint : ws.pc.point = p)
    (htotal : c.total = reached t p) (hwithin : Within t p) : Tallied t (ws, c) :=
  ⟨hpoint ▸ htotal, hpoint ▸ hwithin⟩

theorem tally_frame (W : MLDPWriter V) {seen : Seen} {items : List Bool} {ws : WorkerState V}
    {i : Nat} {frame : DataBatch V} (hpc : ws.pc = .going (.frame i))
    (hframe : t.item.frames[i]? = some frame) (c : Tally) :
    (W.tallyNext t seen items ws c).total =
      c.total + if (W.toRequest t.item ws.stream frame).isSome then 0 else 1 := by
  simp only [MLDPWriter.tallyNext, hpc, hframe, Tally.total]
  split
  · rfl
  · split
    all_goals
      simp only
      omega

theorem Tallied.frame {ws : WorkerState V} {c : Tally} (h : Tallied t (ws, c)) {i : Nat}
    (hpc : ws.pc = .going (.frame i)) (seen : Seen) (items : List Bool) :
    Tallied t ((W.pointNext t seen ws (.frame i)).1, W.tallyNext t seen items ws c) := by
  have hpoint : ws.pc.point = .frame i := by rw [hpc]; rfl
  have htotal : c.total = i := h.total.trans (by rw [hpoint]; rfl)
  have hwithin : Within t (.frame i) := hpoint ▸ h.within
  cases hframe : t.item.frames[i]? with
  | none =>
    have hlen : i = t.item.frames.length :=
      Nat.le_antisymm hwithin (List.getElem?_eq_none_iff.mp hframe)
    simp only [MLDPWriter.pointNext, hframe, MLDPWriter.tallyNext, hpc]
    exact Tallied.at rfl (htotal.trans hlen) trivial
  | some frame =>
    have hlt : i < t.item.frames.length := (List.getElem?_eq_some_iff.mp hframe).1
    have htally := @tally_frame V t W seen items ws i frame hpc hframe c
    rw [htotal] at htally
    cases hrequest : W.toRequest t.item ws.stream frame with
    | none =>
      rw [hrequest] at htally
      simp only [MLDPWriter.pointNext, hframe, hrequest]
      exact Tallied.at rfl htally hlt
    | some request =>
      rw [hrequest] at htally
      simp only [MLDPWriter.pointNext, hframe, hrequest]
      split
      · exact Tallied.at rfl htally hlt
      · exact Tallied.at rfl htally hlt

theorem Tallied.write {ws : WorkerState V} {c : Tally} (h : Tallied t (ws, c)) {i : Nat}
    {request : IngestDataRequest V} (hpc : ws.pc = .going (.write i request)) {seen : Seen}
    (hwritten : seen.written = true) (items : List Bool) :
    Tallied t ((W.pointNext t seen ws (.write i request)).1, W.tallyNext t seen items ws c) := by
  have hpoint : ws.pc.point = .write i request := by rw [hpc]; rfl
  have htotal : c.total = i := h.total.trans (by rw [hpoint]; rfl)
  have hlt : Within t (.write i request) := hpoint ▸ h.within
  have htally : (W.tallyNext t seen items ws c).total = i + 1 := by
    simp only [MLDPWriter.tallyNext, hpc, hwritten, if_true, Tally.total] at htotal ⊢
    omega
  simp only [MLDPWriter.pointNext, hwritten, if_true]
  split
  · exact Tallied.at rfl htally hlt
  · exact Tallied.at rfl htally hlt

variable {s s' : WorkerState V × Tally}
variable {a : Seen × List Bool}

/-- **A step that does not fail keeps the tally.** -/
theorem Tallied.step (h : Tallied t s) (hfails : W.fails s.1 a = false)
    (hs : W.processStep t s a = some s') : Tallied t s' := by
  obtain ⟨ws, c⟩ := s
  obtain ⟨r, hr, rfl⟩ := Option.map_eq_some_iff.mp hs
  cases hpc : ws.pc with
  | going p =>
    have hpoint : ws.pc.point = p := by rw [hpc]; rfl
    simp only [MLDPWriter.processNext, hpc, Option.some.injEq] at hr
    subst hr
    cases p with
    | entered =>
      have htotal : c.total = 0 := h.total.trans (by rw [hpoint]; rfl)
      simp only [MLDPWriter.tallyNext, hpc, MLDPWriter.pointNext]
      split
      · exact Tallied.at rfl htotal trivial
      · exact Tallied.at rfl htotal trivial
    | checkAge =>
      have htotal : c.total = 0 := h.total.trans (by rw [hpoint]; rfl)
      simp only [MLDPWriter.tallyNext, hpc, MLDPWriter.pointNext]
      split
      · exact Tallied.at rfl htotal (Nat.zero_le _)
      · exact Tallied.at rfl htotal (Nat.zero_le _)
    | frame i => exact h.frame hpc a.1 a.2
    | write i request =>
      refine h.write hpc ?_ a.2
      simpa [MLDPWriter.fails, hpc] using hfails
    | finished =>
      have htotal : c.total = t.item.frames.length := h.total.trans (by rw [hpoint]; rfl)
      simp only [MLDPWriter.tallyNext, hpc, MLDPWriter.pointNext]
      split
      · exact Tallied.at rfl htotal trivial
      · exact Tallied.at rfl htotal trivial
    | returning =>
      simp only [MLDPWriter.tallyNext, hpc, MLDPWriter.pointNext]
      exact h
  | acquiring next =>
    have hpoint : ws.pc.point = next := by rw [hpc]; rfl
    have hthrew : ¬(creates W.pool.maxConnections a.2 ∧ a.1.opened = .threw) := by
      simpa [MLDPWriter.fails, hpc] using hfails
    simp only [MLDPWriter.processNext, hpc, if_neg hthrew] at hr
    simp only [MLDPWriter.tallyNext, hpc, if_neg hthrew]
    cases hacquire : acquire W.pool.maxConnections a.2 with
    | none =>
      rw [hacquire] at hr
      cases hr
    | some out =>
      rw [hacquire] at hr
      obtain rfl := Option.some.inj hr
      exact Tallied.at rfl (hpoint ▸ h.total) (hpoint ▸ h.within)
  | opening next =>
    have hpoint : ws.pc.point = next := by rw [hpc]; rfl
    have hopened : a.1.opened = .opened := by simpa [MLDPWriter.fails, hpc] using hfails
    simp only [MLDPWriter.processNext, hpc, hopened, Option.some.injEq] at hr
    subst hr
    simp only [MLDPWriter.tallyNext, hpc, hopened, if_true]
    exact Tallied.at rfl (hpoint ▸ h.total) (hpoint ▸ h.within)

/-- **A step that fails ends the item** and counts one. -/
theorem failed_step (hfails : W.fails s.1 a = true) (hs : W.processStep t s a = some s') :
    s'.1.pc = .going .returning ∧ s'.2.total = s.2.total + 1 := by
  obtain ⟨ws, c⟩ := s
  obtain ⟨r, hr, rfl⟩ := Option.map_eq_some_iff.mp hs
  cases hpc : ws.pc with
  | going p =>
    cases p with
    | write i request =>
      have hwritten : a.1.written = false := by simpa [MLDPWriter.fails, hpc] using hfails
      simp only [MLDPWriter.processNext, hpc, Option.some.injEq] at hr
      subst hr
      simp only [MLDPWriter.pointNext, hwritten, Bool.false_eq_true, if_false,
        MLDPWriter.tallyNext, hpc, Tally.total]
      exact ⟨rfl, by omega⟩
    | _ => simp [MLDPWriter.fails, hpc] at hfails
  | acquiring next =>
    have hthrew : creates W.pool.maxConnections a.2 ∧ a.1.opened = .threw := by
      simpa [MLDPWriter.fails, hpc] using hfails
    simp only [MLDPWriter.processNext, hpc, if_pos hthrew, Option.some.injEq] at hr
    subst hr
    simp only [MLDPWriter.tallyNext, hpc, if_pos hthrew, Tally.total]
    exact ⟨rfl, by omega⟩
  | opening next =>
    have hopened : a.1.opened ≠ .opened := by simpa [MLDPWriter.fails, hpc] using hfails
    have hnext : r.1.pc = .going .returning := by
      simp only [MLDPWriter.processNext, hpc] at hr
      split at hr
      · rename_i heq
        exact absurd heq hopened
      all_goals
        obtain rfl := Option.some.inj hr
        rfl
    simp only [MLDPWriter.tallyNext, hpc, if_neg hopened, Tally.total]
    exact ⟨hnext, by omega⟩

/-! ## 4. Runs -/

/-- When `processItem` returns, nothing more is counted. -/
theorem returning_step (hpc : s.1.pc = .going .returning) (hs : W.processStep t s a = some s') :
    s' = s := by
  obtain ⟨ws, c⟩ := s
  obtain ⟨r, hr, rfl⟩ := Option.map_eq_some_iff.mp hs
  have hws : ws.pc = .going .returning := hpc
  simp only [MLDPWriter.processNext, hws, MLDPWriter.pointNext, Option.some.injEq] at hr
  subst hr
  simp only [MLDPWriter.tallyNext, hws]

theorem fails_returning {ws : WorkerState V} (hpc : ws.pc = .going .returning)
    (a : Seen × List Bool) : W.fails ws a = false := by
  simp only [MLDPWriter.fails, hpc]

variable {actions : List (Seen × List Bool)}

/-- After `processItem` has returned, a run goes nowhere. -/
theorem exec_returning {ok : WorkerState V × Tally → Seen × List Bool → Prop}
    [∀ s, DecidablePred (ok s)] (hpc : s.1.pc = .going .returning)
    (hrun : exec (W.processStep t) ok s actions = some s') :
    s' = s := by
  induction actions with
  | nil => exact (Option.some.inj hrun).symm
  | cons a actions ih =>
    rw [exec] at hrun
    split at hrun
    · cases hs : W.processStep t s a with
      | none =>
        rw [hs] at hrun
        cases hrun
      | some m =>
        rw [hs] at hrun
        obtain rfl := returning_step hpc hs
        exact ih hrun
    · cases hrun

theorem exec_oneLeft_of_settled {s m : WorkerState V × Tally} (hok : W.oneLeft t s a)
    (hs : W.processStep t s a = some m) (actions : List (Seen × List Bool)) :
    exec (W.processStep t) (W.oneLeft t) s (a :: actions) =
      exec (W.processStep t) (W.oneLeft t) m actions := by
  rw [exec, if_pos hok, hs]

theorem exec_oneLeft_returning (hpc : s.1.pc = .going .returning)
    (hrun : exec (W.processStep t) anyStep s actions = some s') :
    exec (W.processStep t) (W.oneLeft t) s actions = some s := by
  induction actions with
  | nil => rfl
  | cons a actions ih =>
    cases hs : W.processStep t s a with
    | none =>
      rw [exec_cons_none hs] at hrun
      cases hrun
    | some m =>
      rw [exec_cons hs] at hrun
      obtain rfl := returning_step hpc hs
      rw [exec_oneLeft_of_settled (fun hfails => ?_) hs]
      · exact ih hrun
      · rw [fails_returning hpc] at hfails
        cases hfails

/-- **The tally of a run that returned**: it is complete exactly when every step that failed had one
frame left. -/
theorem complete_iff_exec (h : Tallied t s)
    (hrun : exec (W.processStep t) anyStep s actions = some s')
    (hreturned : s'.1.pc = .going .returning) :
    s'.2.total = t.item.frames.length ↔
      exec (W.processStep t) (W.oneLeft t) s actions = some s' := by
  induction actions generalizing s with
  | nil =>
    obtain rfl := Option.some.inj hrun
    exact iff_of_true (h.total.trans (by rw [hreturned]; rfl)) rfl
  | cons a actions ih =>
    cases hs : W.processStep t s a with
    | none =>
      rw [exec_cons_none hs] at hrun
      cases hrun
    | some m =>
      rw [exec_cons hs] at hrun
      cases hfails : W.fails s.1 a with
      | false =>
        have hok : W.oneLeft t s a := fun htrue => by
          rw [hfails] at htrue
          cases htrue
        rw [exec_oneLeft_of_settled hok hs]
        exact ih (h.step hfails hs) hrun
      | true =>
        -- the item ends here: one more is counted, and the rest of the run changes nothing
        obtain ⟨hpc, htotal⟩ := failed_step hfails hs
        have hrest := exec_oneLeft_returning hpc hrun
        obtain rfl := exec_returning hpc hrun
        rw [htotal, h.total]
        by_cases hone : reached t s.1.pc.point + 1 = t.item.frames.length
        · rw [exec_oneLeft_of_settled (fun _ => hone) hs]
          exact iff_of_true hone hrest
        · rw [exec, if_neg fun hok => hone (hok hfails)]
          exact iff_of_false hone (by simp)

/-! ## 5. Batches -/

theorem frames_of_toItems {batch : EventBatch V} {item : QueueItem V}
    (h : item ∈ toItems batch) :
    (batchFrames batch).length = toItemsFailures batch + item.frames.length := by
  cases hpayload : batch.payload with
  | timeSeries ts =>
    simp only [toItems, hpayload] at h
    simp only [batchFrames, toItemsFailures, hpayload]
    split at h
    · cases h
    · rename_i hgroup
      split at h
      · cases h
      · rename_i hsource
        have hsplit := List.length_eq_length_filter_add (l := ts.frames)
          (·.timestamps.isEmpty)
        rw [if_neg hgroup, if_neg hsource, hsplit]
        split at h
        · cases h
        · rename_i frame frames hframes
          obtain rfl := List.mem_singleton.mp h
          simp only [hframes]
  | _ =>
    simp only [toItems, hpayload] at h
    cases h

/-- **When the tally adds up**: a run of `processItem` over the item of a batch that has returned
has written, counted or skipped every frame of the batch exactly when each failure in it came with
one frame left.  A failed write or rotation by size must happen at the last frame, a failed open or
rotation by age in an item of one frame, and a failed rotation by count one frame before the end:
after the last frame it counts a frame that was written. -/
theorem conserved_iff (W : MLDPWriter V) (batch : EventBatch V) (t : Ticket (QueueItem V))
    (ht : t.item ∈ toItems batch) (ws : WorkerState V) (hws : ws.pc = .going .entered)
    (actions : List (Seen × List Bool)) (s : WorkerState V × Tally)
    (hrun : exec (W.processStep t) anyStep (ws, {}) actions = some s)
    (hreturned : s.1.pc = .going .returning) :
    Conserved batch s.2 ↔ exec (W.processStep t) (W.oneLeft t) (ws, {}) actions = some s := by
  have hstart : Tallied t (ws, {}) := Tallied.at (congrArg ProcessAt.point hws) rfl trivial
  rw [← complete_iff_exec hstart hrun hreturned, Conserved, frames_of_toItems ht, Tally.total]
  omega

/-! ## 6. Two frames -/

/-- What a step sees when everything works. -/
def well : Seen × List Bool := (⟨0, .opened, true⟩, [])

/-- The first frame is written, and no stream can be opened for the second. -/
def notReopened : List (Seen × List Bool) :=
  List.replicate 7 well ++ [(⟨0, .null, true⟩, [])]

/-- The first write fails. -/
def notWritten : List (Seen × List Bool) := List.replicate 5 well ++ [(⟨0, .opened, false⟩, [])]

def twoFramesTicket : Ticket (QueueItem Nat) := ⟨0, 0, ⟨"PV:A", [], batchFrames twoFrames⟩⟩

theorem twoFramesTicket_mem : twoFramesTicket.item ∈ toItems twoFrames := by
  decide

/-- The first frame is written, and the stream cannot be opened again: one frame was left. -/
theorem conserved_notReopened :
    ∃ s, exec (oneFrameWriter.processStep twoFramesTicket) anyStep ({}, {}) notReopened = some s ∧
      s.2 = ⟨1, 1, 0⟩ ∧ Conserved twoFrames s.2 :=
  ⟨_, rfl, rfl, (conserved_iff oneFrameWriter twoFrames twoFramesTicket twoFramesTicket_mem {} rfl
    notReopened _ rfl rfl).mpr rfl⟩

/-- **A frame is lost.**  One failure is counted for the first frame, none for the second. -/
theorem not_conserved_notWritten :
    ∃ s, exec (oneFrameWriter.processStep twoFramesTicket) anyStep ({}, {}) notWritten = some s ∧
      s.1.pc = .going .returning ∧ s.2 = ⟨0, 1, 0⟩ ∧ ¬Conserved twoFrames s.2 := by
  refine ⟨_, rfl, rfl, rfl, fun h => ?_⟩
  have hsum : 0 + (0 + 1) + 0 = 2 := h
  cases hsum

end MldpDriver.Writer
