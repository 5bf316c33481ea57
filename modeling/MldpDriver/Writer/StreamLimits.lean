/-
# What a stream of the MLDP writer carries

`StreamsOk` says what the server may rely on: a stream carries at most `maxFramesPerStream` frames
and `streamMaxBytes` bytes of payload, unless it carries a single frame; no write goes to a stream
that was not opened or has been closed; a worker writes frames in the order of its queue, and no
frame is written twice.
-/
import Mathlib.Algebra.GroupWithZero.Nat
import MldpDriver.Writer.Fifo
import MldpDriver.Writer.MLDPWriter

namespace MldpDriver.Writer

open Bus Pool Lib.Run Lib.Tagged List

variable {V : Type}

/-! ## 1. What the calls show

The argument has two halves.  `LaneOk` is about one worker's calls and counters and is kept by each
step of `processItem`; `LaneFlow` says how far through its item the worker is, and meets the order
of the queue in `Flow`. -/

/-- The requests written to stream `k`. -/
def carried (k : Nat) (calls : List (Call V)) : List (IngestDataRequest V) :=
  calls.filterMap fun
    | .write stream _ request _ => if stream = some k then some request else none
    | _ => none

/-- The bytes of payload written to stream `k`. -/
def payload (W : MLDPWriter V) (k : Nat) (calls : List (Call V)) : Nat :=
  ((carried k calls).map W.byteSize).sum

/-- The frames written, with their places. -/
def written (calls : List (Call V)) : List (Place × DataFrame V) :=
  calls.filterMap fun
    | .write _ place request _ => some (place, request.ingestionDataFrame)
    | _ => none

/-- The streams opened. -/
def openedStreams (calls : List (Call V)) : List Nat :=
  calls.filterMap fun
    | .opened k => some k
    | _ => none

/-- A write goes to a stream that has been opened and not closed. -/
def LegalAfter (before : List (Call V)) : Call V → Prop
  | .write stream _ _ _ =>
    ∃ k, stream = some k ∧ k ∈ openedStreams before ∧ .writesDone k ∉ before
  | _ => True

/-- All writes do. -/
def Legal (calls : List (Call V)) : Prop :=
  ∀ before c after, calls = before ++ c :: after → LegalAfter before c

/-- A frame with columns and timestamps. -/
def sendable (frame : DataBatch V) : Bool :=
  decide (columnCount frame ≠ 0) && !frame.timestamps.isEmpty

/-- The sendable frames among the first `i` of an item, with their places and what is sent. -/
def slotsUpTo (t : Ticket (QueueItem V)) (i : Nat) : List (Place × DataFrame V) :=
  ((t.item.frames.take i).zipIdx.filter (fun x => sendable x.1)).map fun x =>
    (⟨t.push, t.index, x.2⟩, toDataFrame x.1 t.item.rootSource t.item.metadata)

/-- The sendable frames of an item. -/
def frameSlots (t : Ticket (QueueItem V)) : List (Place × DataFrame V) :=
  slotsUpTo t t.item.frames.length

/-- The items a worker's channel received, in order. -/
def received (s : MLDPState V) (w : Nat) : List (Ticket (QueueItem V)) :=
  (onTag w (enqueued s.base.history)).map (·.2)

/-- What a single worker's calls keep to. -/
structure LaneOk (W : MLDPWriter V) (calls : List (Call V)) : Prop where
  frames : ∀ k, (carried k calls).length ≤ W.cfg.maxFramesPerStream.val
  bytes : ∀ k, payload W k calls ≤ W.cfg.streamMaxBytes.val ∨ (carried k calls).length = 1
  opened : (openedStreams calls).Nodup
  legal : Legal calls
  once : ((written calls).map (·.1)).Nodup

/-- **What the server may rely on.** -/
structure StreamsOk (W : MLDPWriter V) (s : MLDPState V) : Prop where
  lanes : ∀ (w : Nat) (ws : WorkerState V), s.workerStates[w]? = some ws → LaneOk W ws.calls
  order : ∀ (w : Nat) (ws : WorkerState V), s.workerStates[w]? = some ws →
    List.Sublist (written ws.calls) ((received s w).flatMap frameSlots)
  apart : ∀ (w w' : Nat) (ws ws' : WorkerState V), s.workerStates[w]? = some ws →
    s.workerStates[w']? = some ws' → ∀ place, place ∈ (written ws.calls).map (·.1) →
      place ∈ (written ws'.calls).map (·.1) → w = w'

/-! ## 2. Appending a call -/

@[simp] theorem carried_append (k : Nat) (l l' : List (Call V)) :
    carried k (l ++ l') = carried k l ++ carried k l' := filterMap_append

@[simp] theorem written_append (l l' : List (Call V)) :
    written (l ++ l') = written l ++ written l' := filterMap_append

@[simp] theorem openedStreams_append (l l' : List (Call V)) :
    openedStreams (l ++ l') = openedStreams l ++ openedStreams l' := filterMap_append

@[simp] theorem carried_opened (k j : Nat) : carried k [(.opened j : Call V)] = [] := rfl

@[simp] theorem carried_writesDone (k j : Nat) : carried k [(.writesDone j : Call V)] = [] := rfl

@[simp] theorem carried_write (k j : Nat) (place : Place) (r : IngestDataRequest V) (ok : Bool) :
    carried k [.write (some j) place r ok] = if j = k then [r] else [] := by
  simp only [carried, filterMap_cons, filterMap_nil, Option.some.injEq]
  split <;> simp_all

@[simp] theorem written_opened (k : Nat) : written [(.opened k : Call V)] = [] := rfl

@[simp] theorem written_writesDone (k : Nat) : written [(.writesDone k : Call V)] = [] := rfl

@[simp] theorem written_write (stream : Option Nat) (place : Place) (r : IngestDataRequest V)
    (ok : Bool) : written [.write stream place r ok] = [(place, r.ingestionDataFrame)] := rfl

@[simp] theorem openedStreams_opened (k : Nat) : openedStreams [(.opened k : Call V)] = [k] := rfl

@[simp] theorem openedStreams_writesDone (k : Nat) :
    openedStreams [(.writesDone k : Call V)] = [] := rfl

@[simp] theorem openedStreams_write (stream : Option Nat) (place : Place)
    (r : IngestDataRequest V) (ok : Bool) : openedStreams [.write stream place r ok] = [] := rfl

theorem legal_append {calls : List (Call V)} {c : Call V} (h : Legal calls)
    (hc : LegalAfter calls c) : Legal (calls ++ [c]) := by
  intro before d after heq
  rcases eq_nil_or_concat after with rfl | ⟨after', e, rfl⟩
  · obtain ⟨rfl, hcd⟩ := append_inj' heq rfl
    rw [List.cons.injEq] at hcd
    exact hcd.1 ▸ hc
  · have hsplit : calls ++ [c] = (before ++ d :: after') ++ [e] := by simpa using heq
    exact h before d after' (append_inj' hsplit rfl).1

/-! ## 3. One worker's calls and counters -/

/-- Protobuf's size of a request that names its provider: above zero, and at most the size of an
object in memory. -/
def SizesOk (W : MLDPWriter V) : Prop :=
  ∀ request, request.providerId ≠ "" → 0 < W.byteSize request ∧ W.byteSize request < 2 ^ 63

/-- What is known of a worker's calls. -/
structure CallsOk (W : MLDPWriter V) (ws : WorkerState V) : Prop where
  opens : openedStreams ws.calls = List.range ws.opened
  unopened : ∀ k, ws.opened ≤ k → carried k ws.calls = [] ∧ .writesDone k ∉ ws.calls
  current : ∀ k, ws.stream.writer = some k → k < ws.opened ∧ .writesDone k ∉ ws.calls
  frames : ∀ k, (carried k ws.calls).length ≤ W.cfg.maxFramesPerStream.val
  bytes : ∀ k, payload W k ws.calls ≤ W.cfg.streamMaxBytes.val ∨ (carried k ws.calls).length = 1
  named : ∀ k, ∀ request ∈ carried k ws.calls, request.providerId = W.providerId
  legal : Legal ws.calls

/-- The counters of the stream agree with the calls. -/
structure Counts (W : MLDPWriter V) (ws : WorkerState V) : Prop extends CallsOk W ws where
  counted : ∀ k, ws.stream.writer = some k →
    (carried k ws.calls).length = ws.stream.framesWritten ∧
      payload W k ws.calls = ws.stream.streamPayloadBytes
  noStream : ws.stream.writer = none → ws.stream.framesWritten = 0
  room : ws.stream.framesWritten < W.cfg.maxFramesPerStream.val

theorem counts_started (W : MLDPWriter V) : Counts W ({} : WorkerState V) where
  opens := rfl
  unopened := fun _ _ => ⟨rfl, by simp⟩
  current := fun _ hk => by cases hk
  frames := fun _ => Nat.zero_le _
  bytes := fun _ => Or.inl (Nat.zero_le _)
  named := fun _ _ h => by cases h
  legal := fun before c after h => by simp at h
  counted := fun _ hk => by cases hk
  noStream := fun _ => rfl
  room := W.cfg.maxFramesPerStream.pos

variable {W : MLDPWriter V} {ws : WorkerState V}

theorem Counts.goto (h : Counts W ws) (pc : ProcessAt V) : Counts W (ws.goto pc) := { h with }

theorem closeStream_writer (reason : String) (ws : WorkerState V) :
    (closeStream reason ws).1.stream.writer = none := by
  unfold closeStream
  cases hw : ws.stream.writer with
  | none => exact hw
  | some k => rfl

theorem closeStream_written (reason : String) (ws : WorkerState V) :
    written (closeStream reason ws).1.calls = written ws.calls := by
  unfold closeStream
  cases ws.stream.writer <;> simp

variable {k : Nat}

theorem CallsOk.closeStream (h : CallsOk W ws) (reason : String) (hk : ws.stream.writer = some k) :
    Counts W (closeStream reason ws).1 := by
  unfold Writer.closeStream
  rw [hk]
  exact
    { opens := by simpa using h.opens
      unopened := by
        intro j hj
        have hne : j ≠ k := (Nat.ne_of_lt (Nat.lt_of_lt_of_le (h.current k hk).1 hj)).symm
        simpa [hne] using h.unopened j hj
      current := fun _ hj => by cases hj
      frames := by simpa using h.frames
      bytes := by simpa [payload] using h.bytes
      named := by simpa using h.named
      legal := legal_append h.legal trivial
      counted := fun _ hj => by cases hj
      noStream := fun _ => rfl
      room := W.cfg.maxFramesPerStream.pos }

theorem Counts.closeStream (h : Counts W ws) (reason : String) :
    Counts W (closeStream reason ws).1 := by
  cases hw : ws.stream.writer with
  | none =>
    unfold Writer.closeStream
    rw [hw]
    exact h
  | some k => exact h.toCallsOk.closeStream reason hw

theorem Counts.openStream (h : Counts W ws) (hnone : ws.stream.writer = none) (now : Int)
    (next : Point V) : Counts W (ws.openStream now next) := by
  obtain ⟨hcarried, hdone⟩ := h.unopened ws.opened (Nat.le_refl _)
  exact
    { opens := by simp [WorkerState.openStream, h.opens, range_succ]
      unopened := by
        intro j hj
        simpa [WorkerState.openStream] using h.unopened j (Nat.le_of_succ_le hj)
      current := by
        intro k hk
        cases hk
        exact ⟨Nat.lt_succ_self _, by simpa [WorkerState.openStream] using hdone⟩
      frames := by simpa [WorkerState.openStream] using h.frames
      bytes := by simpa [WorkerState.openStream, payload] using h.bytes
      named := by simpa [WorkerState.openStream] using h.named
      legal := legal_append h.legal trivial
      counted := by
        intro k hk
        cases hk
        simp [WorkerState.openStream, payload, hcarried, h.noStream hnone]
      noStream := fun hk => by cases hk
      room := h.room }

/-- A request that may be written now: it fits, or the stream is empty. -/
def fits (W : MLDPWriter V) (stream : StreamState) (request : IngestDataRequest V) : Prop :=
  stream.streamPayloadBytes + W.byteSize request ≤ W.cfg.streamMaxBytes.val ∨
    stream.streamPayloadBytes = 0

theorem Counts.carried_eq_nil (h : Counts W ws) (hsize : SizesOk W) (hk : ws.stream.writer = some k)
    (hzero : ws.stream.streamPayloadBytes = 0) :
    carried k ws.calls = [] := by
  have hsum := (h.counted k hk).2
  cases hc : carried k ws.calls with
  | nil => rfl
  | cons r rest =>
    have hpos := (hsize r (by rw [h.named k r (by simp [hc])]; exact W.registered)).1
    rw [hzero, payload, hc, map_cons, sum_cons] at hsum
    omega

/-- **The counters do not wrap.** -/
theorem Counts.bytes_lt (h : Counts W ws) (hsize : SizesOk W) (hk : ws.stream.writer = some k) :
    ws.stream.streamPayloadBytes < 2 ^ 63 := by
  rw [← (h.counted k hk).2]
  rcases h.bytes k with hle | hone
  · have := W.cfg.streamMaxBytes.lt
    omega
  · obtain ⟨r, hr⟩ := length_eq_one_iff.mp hone
    have hmem : r ∈ carried k ws.calls := by simp [hr]
    have := (hsize r (by rw [h.named k r hmem]; exact W.registered)).2
    simpa [payload, hr] using this

variable {request : IngestDataRequest V}

theorem Counts.sum_mod (h : Counts W ws) (hsize : SizesOk W) (hk : ws.stream.writer = some k)
    (hprovider : request.providerId = W.providerId) :
    (ws.stream.streamPayloadBytes + W.byteSize request) % sizeRange =
      ws.stream.streamPayloadBytes + W.byteSize request := by
  have hlt := h.bytes_lt hsize hk
  have hreq := (hsize request (hprovider ▸ W.registered)).2
  exact Nat.mod_eq_of_lt (by simp only [sizeRange]; omega)

theorem fits_of_not_full (h : Counts W ws) (hsize : SizesOk W) (hk : ws.stream.writer = some k)
    (hprovider : request.providerId = W.providerId) (hfull : ¬ W.full ws.stream request) :
    fits W ws.stream request := by
  simp only [MLDPWriter.full, h.sum_mod hsize hk hprovider, not_and_or, Nat.not_lt,
    Nat.le_zero] at hfull
  exact hfull

/-- **A write.** The calls stay in order when the request fits and the stream has room. -/
theorem Counts.wrote (h : Counts W ws) (hsize : SizesOk W) (hk : ws.stream.writer = some k)
    (place : Place) (ok : Bool) (hprovider : request.providerId = W.providerId)
    (hfits : fits W ws.stream request) (stream : StreamState) (hstream : stream.writer = some k) :
    CallsOk W { ws with
      stream := stream, calls := ws.calls ++ [.write ws.stream.writer place request ok] } := by
  obtain ⟨hlt, hdone⟩ := h.current k hk
  obtain ⟨hlen, hsum⟩ := h.counted k hk
  rw [hk]
  exact
    { opens := by simpa using h.opens
      unopened := by
        intro j hj
        have hne : k ≠ j := Nat.ne_of_lt (Nat.lt_of_lt_of_le hlt hj)
        simpa [hne] using h.unopened j hj
      current := by
        intro j hj
        have hjk : k = j := Option.some.inj (hstream.symm.trans hj)
        subst hjk
        exact ⟨hlt, by simpa using hdone⟩
      frames := by
        intro j
        by_cases hj : k = j
        · subst hj
          simpa [hlen] using Nat.succ_le_of_lt h.room
        · simpa [hj] using h.frames j
      bytes := by
        intro j
        by_cases hj : k = j
        · subst hj
          rcases hfits with hle | hzero
          · left
            rw [← hsum] at hle
            simpa [payload] using hle
          · right
            simp [h.carried_eq_nil hsize hk hzero]
        · simpa [payload, hj] using h.bytes j
      named := by
        intro j r hr
        rw [carried_append, mem_append, carried_write] at hr
        rcases hr with hr | hr
        · exact h.named j r hr
        · split at hr
          · rw [mem_singleton.mp hr]
            exact hprovider
          · cases hr
      legal := legal_append h.legal ⟨k, rfl, by rw [h.opens]; exact mem_range.mpr hlt, hdone⟩ }

/-- A successful write that leaves room for another frame. -/
theorem Counts.write (h : Counts W ws) (hsize : SizesOk W) (hk : ws.stream.writer = some k)
    {place : Place} {ok : Bool} (hprovider : request.providerId = W.providerId)
    (hfits : fits W ws.stream request)
    (hroom : ws.stream.framesWritten + 1 < W.cfg.maxFramesPerStream.val) :
    Counts W { ws with
      stream := W.count request ws.stream
      calls := ws.calls ++ [.write ws.stream.writer place request ok] } where
  toCallsOk := h.wrote hsize hk _ _ hprovider hfits _ hk
  counted := by
    intro j hj
    have hjk : k = j := Option.some.inj (hk.symm.trans hj)
    subst hjk
    obtain ⟨hlen, hsum⟩ := h.counted k hk
    have hmod := h.sum_mod hsize hk hprovider
    rw [hk]
    simp only [MLDPWriter.count, hmod]
    rw [← hsum]
    simp [payload, hlen]
  noStream := fun hn => by rw [show ws.stream.writer = none from hn] at hk; cases hk
  room := hroom

/-! ## 4. Where the worker stands -/

/-- What `processItem` relies on at a point. -/
def PointOk (W : MLDPWriter V) (stream : StreamState) : Point V → Prop
  | .checkAge | .frame _ => stream.writer.isSome = true
  | .write _ request =>
    stream.writer.isSome = true ∧ request.providerId = W.providerId ∧ fits W stream request
  | _ => True

/-- What it relies on where it goes on with a new stream. -/
def NextOk (W : MLDPWriter V) : Point V → Prop
  | .write _ request => request.providerId = W.providerId
  | _ => True

/-- The invariant of a worker's part. -/
structure Lane (W : MLDPWriter V) (ws : WorkerState V) : Prop extends Counts W ws where
  going : ∀ p, ws.pc = .going p → PointOk W ws.stream p
  ensuring : ∀ p, ws.pc = .acquiring p ∨ ws.pc = .opening p →
    ws.stream.writer = none ∧ NextOk W p

theorem lane_started (W : MLDPWriter V) : Lane W ({} : WorkerState V) where
  toCounts := counts_started W
  going := fun _ hp => by cases hp; trivial
  ensuring := fun _ hp => by rcases hp with hp | hp <;> cases hp

variable {p : Point V}

theorem Counts.lane (h : Counts W ws) (hp : PointOk W ws.stream p) :
    Lane W (ws.goto (.going p)) where
  toCounts := h.goto _
  going := fun _ hq => by cases hq; exact hp
  ensuring := fun _ hq => by rcases hq with hq | hq <;> cases hq

theorem Counts.ensure (h : Counts W ws) (hnone : ws.stream.writer = none) (hp : NextOk W p) :
    Lane W (ws.goto (.acquiring p)) where
  toCounts := h.goto _
  going := fun _ hq => by cases hq
  ensuring := by
    rintro q (hq | hq)
    · cases hq
      exact ⟨hnone, hp⟩
    · cases hq

theorem Counts.rotate (h : Counts W ws) (reason : String) (hp : NextOk W p) :
    Lane W (rotateStream reason p ws).1 :=
  (h.closeStream reason).ensure (closeStream_writer reason ws) hp

variable {stream : StreamState}

/-- With a stream just opened, `processItem` can go on. -/
theorem pointOk_opened (hp : NextOk W p) (hsome : stream.writer.isSome = true)
    (hzero : stream.streamPayloadBytes = 0) :
    PointOk W stream p := by
  cases p with
  | write i request => exact ⟨hsome, hp, Or.inr hzero⟩
  | checkAge => exact hsome
  | frame i => exact hsome
  | entered => trivial
  | finished => trivial
  | returning => trivial

variable {frame : DataBatch V}

theorem toRequest_eq_some {item : QueueItem V} (h : W.toRequest item stream frame = some request) :
    request.providerId = W.providerId ∧
      request.ingestionDataFrame = toDataFrame frame item.rootSource item.metadata ∧
      columnCount frame ≠ 0 ∧ hasTimestampList request.ingestionDataFrame = true := by
  unfold MLDPWriter.toRequest at h
  split at h
  · cases h
  · rename_i hcols
    simp only at h
    split at h
    · cases h
    · split at h
      · cases h
      · rename_i hts
        cases h
        exact ⟨rfl, rfl, hcols, by simpa using hts⟩

variable {t : Ticket (QueueItem V)}
variable {seen : Seen}

theorem Lane.pointNext (h : Lane W ws) (hsize : SizesOk W) (hpc : ws.pc = .going p) :
    Lane W (W.pointNext t seen ws p).1 := by
  have hp := h.going p hpc
  cases p with
  | entered =>
    simp only [MLDPWriter.pointNext]
    split
    · rename_i hsome
      exact h.toCounts.lane hsome
    · rename_i hnone
      exact h.toCounts.ensure (by simpa using hnone) trivial
  | checkAge =>
    simp only [MLDPWriter.pointNext]
    split
    · exact h.toCounts.rotate _ trivial
    · exact h.toCounts.lane hp
  | frame i =>
    obtain ⟨k, hk⟩ := Option.isSome_iff_exists.mp hp
    simp only [MLDPWriter.pointNext]
    split
    · exact h.toCounts.lane trivial
    · split
      · exact h.toCounts.lane hp
      · rename_i request hreq
        have hprovider := (toRequest_eq_some hreq).1
        split
        · exact h.toCounts.rotate _ hprovider
        · rename_i hfull
          exact h.toCounts.lane ⟨hp, hprovider, fits_of_not_full h.toCounts hsize hk hprovider hfull⟩
  | write i request =>
    obtain ⟨hsome, hprovider, hfits⟩ := hp
    obtain ⟨k, hk⟩ := Option.isSome_iff_exists.mp hsome
    simp only [MLDPWriter.pointNext]
    split
    · split
      · have hcalls := h.toCounts.wrote hsize hk ⟨t.push, t.index, i⟩ seen.written hprovider hfits
          (W.count request ws.stream) hk
        exact (hcalls.closeStream _ hk).ensure (closeStream_writer _ _) trivial
      · rename_i hroom
        exact (h.toCounts.write hsize hk hprovider hfits (Nat.not_le.mp hroom)).lane hsome
    · have hcalls := h.toCounts.wrote hsize hk ⟨t.push, t.index, i⟩ seen.written hprovider hfits
        ws.stream hk
      exact (hcalls.closeStream _ hk).lane trivial
  | finished =>
    simp only [MLDPWriter.pointNext]
    split
    · exact (h.toCounts.closeStream _).lane trivial
    · exact h.toCounts.lane trivial
  | returning => exact h

theorem Counts.handle (h : Counts W ws) (pc : ProcessAt V) (handle : Option Nat) :
    Counts W { ws with pc := pc, stream := { ws.stream with handle := handle } } :=
  { h with }

variable {r : WorkerState V × List Bool × List ClosingStreamState}
variable {items : List Bool}

/-- **The step lemma of `processItem`.** -/
theorem Lane.processNext (h : Lane W ws) (hsize : SizesOk W)
    (hs : W.processNext t seen items ws = some r) : Lane W r.1 := by
  unfold MLDPWriter.processNext at hs
  split at hs
  · rename_i p hpc
    cases hs
    exact h.pointNext hsize hpc
  · rename_i next hpc
    split at hs
    · cases hs
      exact h.toCounts.lane trivial
    · split at hs
      · cases hs
      · cases hs
        exact
          { toCounts := h.toCounts.handle _ _
            going := fun _ hq => by cases hq
            ensuring := by
              rintro q (hq | hq)
              · cases hq
              · cases hq
                exact h.ensuring next (Or.inl hpc) }
  · rename_i next hpc
    obtain ⟨hnone, hnext⟩ := h.ensuring next (Or.inr hpc)
    split at hs
    · cases hs
      exact
        { toCounts := h.toCounts.openStream hnone seen.now next
          going := fun _ hq => by cases hq; exact pointOk_opened hnext rfl rfl
          ensuring := fun _ hq => by rcases hq with hq | hq <;> cases hq }
    all_goals
      cases hs
      exact
        { toCounts := h.toCounts.handle _ _
          going := fun _ hq => by cases hq; trivial
          ensuring := fun _ hq => by rcases hq with hq | hq <;> cases hq }

/-! ## 5. The frames of an item -/

theorem slotsUpTo_zero (t : Ticket (QueueItem V)) : slotsUpTo t 0 = [] := by simp [slotsUpTo]

theorem slotsUpTo_succ {i : Nat} (hframe : t.item.frames[i]? = some frame) :
    slotsUpTo t (i + 1) = slotsUpTo t i ++
      if sendable frame then
        [(⟨t.push, t.index, i⟩, toDataFrame frame t.item.rootSource t.item.metadata)]
      else [] := by
  have hlen : (t.item.frames.take i).length = i := by
    have hlt := (List.getElem?_eq_some_iff.mp hframe).1
    simp [Nat.le_of_lt hlt]
  simp only [slotsUpTo, take_add_one, hframe, Option.toList_some, zipIdx_append,
    filter_append, map_append, hlen]
  congr 1
  by_cases hs : sendable frame = true <;> simp [hs]

theorem slotsUpTo_le (t : Ticket (QueueItem V)) {i j : Nat} (hij : i ≤ j) :
    List.Sublist (slotsUpTo t i) (slotsUpTo t j) := by
  induction hij with
  | refl => exact List.Sublist.refl _
  | @step j _ ih =>
    refine ih.trans ?_
    cases hf : t.item.frames[j]? with
    | some frame =>
      rw [slotsUpTo_succ hf]
      exact sublist_append_left _ _
    | none =>
      have hlen := List.getElem?_eq_none_iff.mp hf
      simp [slotsUpTo, take_of_length_le hlen, take_of_length_le (Nat.le_succ_of_le hlen)]

theorem slotsUpTo_frameSlots (t : Ticket (QueueItem V)) (i : Nat) :
    List.Sublist (slotsUpTo t i) (frameSlots t) := by
  rcases Nat.le_total i t.item.frames.length with hle | hle
  · exact slotsUpTo_le t hle
  · simp [frameSlots, slotsUpTo, take_of_length_le hle]

theorem frameSlots_places (t : Ticket (QueueItem V)) :
    ((frameSlots t).map (·.1)).Nodup ∧
      ∀ place ∈ (frameSlots t).map (·.1), (place.push, place.index) = t.name := by
  refine ⟨?_, ?_⟩
  · have hidx : (t.item.frames.zipIdx.map (·.2)).Nodup := by
      rw [zipIdx_map_snd]
      exact nodup_range'
    have hsub : List.Sublist (((t.item.frames.take t.item.frames.length).zipIdx.filter
        (fun x => sendable x.1)).map (·.2)) (t.item.frames.zipIdx.map (·.2)) := by
      rw [take_length]
      exact filter_sublist.map _
    simpa [frameSlots, slotsUpTo, map_map, Function.comp_def] using
      (hidx.sublist hsub).map (f := fun i => (⟨t.push, t.index, i⟩ : Place))
        (fun a b hab => by cases hab; rfl)
  · intro place hplace
    simp only [frameSlots, slotsUpTo, map_map, mem_map, Function.comp_def] at hplace
    obtain ⟨x, -, rfl⟩ := hplace
    rfl

/-! ## 6. How far a worker is through its queue -/

/-- The point a worker is at or waits to go on from. -/
def ProcessAt.point : ProcessAt V → Point V
  | .going p | .acquiring p | .opening p => p

/-- The frames a worker may have behind it at a point. -/
def reached (t : Ticket (QueueItem V)) : Point V → Nat
  | .entered | .checkAge => 0
  | .frame i | .write i _ => i
  | .finished | .returning => t.item.frames.length

/-- What a worker may have written of the item it is processing. -/
def progress (x : Option (Worker (QueueItem V))) (pc : ProcessAt V) :
    List (Place × DataFrame V) :=
  match x with
  | some (.processing t) => slotsUpTo t (reached t pc.point)
  | _ => []

/-- A request under way is the next frame of the item. -/
def RequestOk (t : Ticket (QueueItem V)) : Point V → Prop
  | .write i request => ∃ frame, t.item.frames[i]? = some frame ∧ sendable frame = true ∧
      request.ingestionDataFrame = toDataFrame frame t.item.rootSource t.item.metadata
  | _ => True

/-- A worker at `x` that has processed the items `done`. -/
structure LaneFlow (x : Option (Worker (QueueItem V))) (done : List (Ticket (QueueItem V)))
    (ws : WorkerState V) : Prop where
  order : List.Sublist (written ws.calls) (done.flatMap frameSlots ++ progress x ws.pc)
  idle : (∀ t, x ≠ some (.processing t)) → ws.pc = .going .entered
  request : ∀ t, x = some (.processing t) → RequestOk t ws.pc.point

variable {done : List (Ticket (QueueItem V))}

theorem LaneFlow.moved {x x' : Option (Worker (QueueItem V))} (h : LaneFlow x done ws)
    (hx : ∀ t, x ≠ some (.processing t)) : LaneFlow x' done ws := by
  have hpc := h.idle hx
  have hprogress : ∀ y, progress y ws.pc = [] := by
    intro y
    rw [hpc]
    rcases y with _ | y
    · rfl
    · cases y with
      | processing t => exact slotsUpTo_zero t
      | waiting => rfl
      | taken t => rfl
      | exited => rfl
  refine ⟨?_, fun _ => hpc, fun t _ => by rw [hpc]; trivial⟩
  have horder := h.order
  rw [hprogress] at horder ⊢
  exact horder

variable {ws' : WorkerState V}

theorem LaneFlow.advance (h : LaneFlow (some (.processing t)) done ws)
    (hwritten : written ws'.calls = written ws.calls)
    (hreach : List.Sublist (slotsUpTo t (reached t ws.pc.point))
      (slotsUpTo t (reached t ws'.pc.point))) (hreq : RequestOk t ws'.pc.point) :
    LaneFlow (some (.processing t)) done ws' where
  order := by
    rw [hwritten]
    exact h.order.trans ((List.Sublist.refl _).append hreach)
  idle := fun hn => absurd rfl (hn t)
  request := by
    intro t' ht'
    cases ht'
    exact hreq

theorem LaneFlow.wrote {i : Nat} (h : LaneFlow (some (.processing t)) done ws)
    (hpoint : ws.pc.point = .write i request) (hwritten : written ws'.calls =
      written ws.calls ++ [(⟨t.push, t.index, i⟩, request.ingestionDataFrame)])
    (hreach : List.Sublist (slotsUpTo t (i + 1)) (slotsUpTo t (reached t ws'.pc.point)))
    (hreq : RequestOk t ws'.pc.point) : LaneFlow (some (.processing t)) done ws' where
  order := by
    have hrequest := h.request t rfl
    rw [hpoint] at hrequest
    obtain ⟨frame, hframe, hsend, heq⟩ := hrequest
    have horder := h.order
    simp only [progress, hpoint, reached] at horder
    have hsucc := slotsUpTo_succ hframe
    rw [if_pos hsend, ← heq] at hsucc
    have hstep : List.Sublist (written ws'.calls)
        (done.flatMap frameSlots ++ slotsUpTo t (i + 1)) := by
      rw [hwritten, hsucc, ← append_assoc]
      exact horder.append (List.Sublist.refl _)
    exact hstep.trans ((List.Sublist.refl _).append hreach)
  idle := fun hn => absurd rfl (hn t)
  request := by
    intro t' ht'
    cases ht'
    exact hreq

theorem toSingleColumnDataFrame_timestamps {out : DataFrame V} {batch : DataBatch V} {i : Nat}
    {isEnum : Bool} {source : String} {metadata : List (String × String)}
    (h : out.timestamps = [] ∨ out.timestamps = batch.timestamps) :
    (toSingleColumnDataFrame out batch i isEnum source metadata).timestamps = batch.timestamps := by
  have hset : (if out.timestamps.isEmpty then { out with timestamps := batch.timestamps }
      else out).timestamps = batch.timestamps := by
    rcases h with h | h
    · simp [h]
    · split <;> simp [h]
  unfold toSingleColumnDataFrame
  simp only
  split
  · split <;> exact hset
  · split <;> exact hset

theorem toDataFrame_timestamps (frame : DataBatch V) (source : String)
    (metadata : List (String × String)) :
    (toDataFrame frame source metadata).timestamps = [] ∨
      (toDataFrame frame source metadata).timestamps = frame.timestamps := by
  unfold toDataFrame
  generalize List.range (columnCount frame) = l
  have hstart : ({} : DataFrame V).timestamps = [] ∨
      ({} : DataFrame V).timestamps = frame.timestamps := Or.inl rfl
  generalize ({} : DataFrame V) = out at hstart ⊢
  induction l generalizing out with
  | nil => exact hstart
  | cons i l ih => exact ih _ (Or.inr (toSingleColumnDataFrame_timestamps hstart))

theorem sendable_of_toRequest {item : QueueItem V}
    (h : W.toRequest item stream frame = some request) :
    sendable frame = true := by
  obtain ⟨-, hframe, hcols, hts⟩ := toRequest_eq_some h
  rw [hframe, hasTimestampList] at hts
  rcases toDataFrame_timestamps frame item.rootSource item.metadata with hnil | heq
  · simp [hnil] at hts
  · rw [heq] at hts
    simp [sendable, hcols, hts]

theorem LaneFlow.pointNext (h : LaneFlow (some (.processing t)) done ws) (hpc : ws.pc = .going p) :
    LaneFlow (some (.processing t)) done (W.pointNext t seen ws p).1 := by
  have hpoint : ws.pc.point = p := by rw [hpc]; rfl
  cases p with
  | entered =>
    simp only [MLDPWriter.pointNext]
    split
    all_goals exact h.advance rfl (by rw [hpoint]; exact List.Sublist.refl _) trivial
  | checkAge =>
    simp only [MLDPWriter.pointNext]
    split
    · exact h.advance (closeStream_written _ _) (by rw [hpoint]; exact List.Sublist.refl _) trivial
    · exact h.advance rfl (by rw [hpoint]; exact List.Sublist.refl _) trivial
  | frame i =>
    simp only [MLDPWriter.pointNext]
    split
    · exact h.advance rfl (by rw [hpoint]; exact slotsUpTo_frameSlots t i) trivial
    · rename_i frame hframe
      split
      · exact h.advance rfl (by rw [hpoint]; exact slotsUpTo_le t (Nat.le_succ i)) trivial
      · rename_i request hreq
        have hok : RequestOk t (.write i request) :=
          ⟨frame, hframe, sendable_of_toRequest hreq, (toRequest_eq_some hreq).2.1⟩
        split
        · exact h.advance (closeStream_written _ _) (by rw [hpoint]; exact List.Sublist.refl _) hok
        · exact h.advance rfl (by rw [hpoint]; exact List.Sublist.refl _) hok
  | write i request =>
    simp only [MLDPWriter.pointNext]
    split
    · split
      · refine h.wrote hpoint ?_ (List.Sublist.refl _) trivial
        exact (closeStream_written _ _).trans (by simp)
      · exact h.wrote hpoint (by simp [WorkerState.goto]) (List.Sublist.refl _) trivial
    · refine h.wrote hpoint ?_ (slotsUpTo_frameSlots t (i + 1)) trivial
      exact (closeStream_written _ _).trans (by simp)
  | finished =>
    simp only [MLDPWriter.pointNext]
    split
    · exact h.advance (closeStream_written _ _) (by rw [hpoint]; exact List.Sublist.refl _) trivial
    · exact h.advance rfl (by rw [hpoint]; exact List.Sublist.refl _) trivial
  | returning => exact h

theorem LaneFlow.processNext (h : LaneFlow (some (.processing t)) done ws)
    (hs : W.processNext t seen items ws = some r) :
    LaneFlow (some (.processing t)) done r.1 := by
  have hreq := h.request t rfl
  unfold MLDPWriter.processNext at hs
  split at hs
  · rename_i p hpc
    cases hs
    exact h.pointNext hpc
  · rename_i next hpc
    rw [hpc] at hreq
    split at hs
    · cases hs
      exact h.advance rfl (slotsUpTo_frameSlots t _) trivial
    · split at hs
      · cases hs
      · cases hs
        exact h.advance rfl (by rw [hpc]; exact List.Sublist.refl _) hreq
  · rename_i next hpc
    rw [hpc] at hreq
    split at hs
    · cases hs
      exact h.advance (by simp [WorkerState.openStream]) (by rw [hpc]; exact List.Sublist.refl _)
        hreq
    all_goals
      cases hs
      exact h.advance rfl (slotsUpTo_frameSlots t _) trivial

/-! ## 7. The invariant of the writer -/

/-- The items worker `w` has processed. -/
def doneBy (s : MLDPState V) (w : Nat) : List (Ticket (QueueItem V)) :=
  (onTag w (processed s.base.history)).map (·.2)

/-- The invariant of all runs. -/
structure MLDPInv (W : MLDPWriter V) (s : MLDPState V) : Prop where
  flow : Flow s.base
  joined : s.base.stopper = .cleared → ∀ x ∈ s.base.workers, x = .exited
  lanes : ∀ (w : Nat) (ws : WorkerState V), s.workerStates[w]? = some ws →
    Lane W ws ∧ LaneFlow s.base.workers[w]? (doneBy s w) ws

theorem mldpInv_started (W : MLDPWriter V) : MLDPInv W W.started where
  flow := flow_started _
  joined := fun h => by cases h
  lanes := by
    intro w ws hw
    have hws := eq_of_mem_replicate (mem_of_getElem? hw)
    subst hws
    exact ⟨lane_started W, nil_sublist _, fun _ => rfl, fun _ _ => trivial⟩

theorem getElem?_of_set {α : Type} {l : List α} {i j : Nat} {a b : α}
    (h : (l.set i a)[j]? = some b) : j = i ∧ b = a ∨ j ≠ i ∧ l[j]? = some b := by
  by_cases hji : j = i
  · subst hji
    have hlt : j < l.length := by simpa using (List.getElem?_eq_some_iff.mp h).1
    rw [List.getElem?_set_self hlt, Option.some.injEq] at h
    exact Or.inl ⟨rfl, h.symm⟩
  · rw [List.getElem?_set_ne (Ne.symm hji)] at h
    exact Or.inr ⟨hji, h⟩

section Steps

variable {s s' : MLDPState V}

theorem MLDPInv.aside (h : MLDPInv W s) {a : Action (EventBatch V) (QueueItem V)}
    (ha : ∀ w, a ≠ .worker w) (hs : W.baseStep s a = some s') : MLDPInv W s' := by
  obtain ⟨base, hbase, rfl⟩ := Option.map_eq_some_iff.mp hs
  have haside := aside_step ha hbase
  refine ⟨h.flow.step hbase, ?_, ?_⟩
  · intro hc x hx
    rw [haside.workers] at hx
    rcases haside.stopper hc with hold | hall
    · exact h.joined hold x hx
    · exact hall x hx
  · intro w ws hw
    simp only [doneBy, haside.workers, haside.processed]
    exact h.lanes w ws hw

variable {w : Nat}

theorem MLDPInv.idleStep (h : MLDPInv W s) {x : Worker (QueueItem V)}
    (hx : s.base.workers[w]? = some x) (hne : ∀ t, x ≠ .processing t)
    (hs : W.baseStep s (.worker w) = some s') : MLDPInv W s' := by
  obtain ⟨base, hbase, rfl⟩ := Option.map_eq_some_iff.mp hs
  have hnext := worker_step hx hbase
  obtain ⟨hothers, hproc, hstopper⟩ := workerNext_others hne hnext
  refine ⟨h.flow.step hbase, ?_, ?_⟩
  · intro hc
    have hexit := h.joined (hstopper ▸ hc) x (mem_of_getElem? hx)
    subst hexit
    cases hnext
  · intro v ws hv
    obtain ⟨hlane, hflow⟩ := h.lanes v ws hv
    refine ⟨hlane, ?_⟩
    simp only [doneBy, hproc]
    by_cases hvw : v = w
    · subst hvw
      rw [hx] at hflow
      exact hflow.moved (fun t ht => hne t (Option.some.inj ht))
    · rw [hothers v hvw]
      exact hflow

theorem MLDPInv.setLane (h : MLDPInv W s) {closing : List ClosingStreamState}
    (hlane : Lane W ws' ∧ LaneFlow s.base.workers[w]? (doneBy s w) ws') :
    MLDPInv W { s with
      workerStates := s.workerStates.set w ws', items := items, closing := closing } where
  flow := h.flow
  joined := h.joined
  lanes := by
    intro v ws hv
    rcases getElem?_of_set hv with ⟨rfl, rfl⟩ | ⟨hne, hv'⟩
    · exact hlane
    · exact h.lanes v ws hv'

theorem Lane.closeIdle (h : Lane W ws) (hpc : ws.pc = .going .entered) (reason : String) :
    Lane W (closeStream reason ws).1 := by
  have hpc' : (closeStream reason ws).1.pc = .going .entered := by
    unfold closeStream
    cases ws.stream.writer <;> exact hpc
  have hcounts := h.toCounts.closeStream reason
  exact
    { toCounts := hcounts
      going := fun p hp => by rw [hpc'] at hp; cases hp; trivial
      ensuring := fun p hp => by rw [hpc'] at hp; rcases hp with hp | hp <;> cases hp }

theorem LaneFlow.close {x : Option (Worker (QueueItem V))} {done : List (Ticket (QueueItem V))}
    (h : LaneFlow x done ws) (reason : String) : LaneFlow x done (closeStream reason ws).1 := by
  have hpc' : (closeStream reason ws).1.pc = ws.pc := by
    unfold closeStream
    cases ws.stream.writer <;> rfl
  exact
    { order := by rw [closeStream_written, hpc']; exact h.order
      idle := fun hx => hpc'.trans (h.idle hx)
      request := fun t ht => by rw [hpc']; exact h.request t ht }

theorem MLDPInv.processed (h : MLDPInv W s) {t : Ticket (QueueItem V)}
    {base : State (EventBatch V) (QueueItem V)} (hx : s.base.workers[w]? = some (.processing t))
    (hws : s.workerStates[w]? = some ws) (hpc : ws.pc = .going .returning)
    (hbase : Writer.step W.setup s.base (.worker w) = some base) :
    MLDPInv W { s with
      base := base, workerStates := s.workerStates.set w (ws.goto (.going .entered)) } := by
  have hnext := worker_step hx hbase
  have hflow := h.flow.step hbase
  cases hnext
  refine ⟨hflow, fun hc => ?_, fun v ws' hv => ?_⟩
  · have := h.joined hc _ (mem_of_getElem? hx)
    cases this
  · have hlt := (List.getElem?_eq_some_iff.mp hx).1
    rcases getElem?_of_set hv with ⟨rfl, rfl⟩ | ⟨hne, hv'⟩
    · obtain ⟨hlane, hold⟩ := h.lanes v ws hws
      refine ⟨hlane.toCounts.lane trivial, ?_⟩
      have horder := hold.order
      simp only [progress, hx, hpc, ProcessAt.point, reached] at horder
      refine ⟨?_, fun _ => rfl, fun t' ht' => trivial⟩
      simp only [doneBy, processed_append, processed_processed, onTag_append, onTag_self,
        map_append, flatMap_append, map_cons, map_nil, flatMap_cons,
        flatMap_nil, append_nil, State.setWorker, List.getElem?_set_self hlt]
      exact List.Sublist.trans horder (sublist_append_left _ _)
    · have htag : onTag v [(w, t)] = [] := onTag_other (Ne.symm hne) t
      simp only [doneBy, processed_append, processed_processed, onTag_append, htag,
        append_nil, State.setWorker, List.getElem?_set_ne (Ne.symm hne)]
      exact h.lanes v ws' hv'

theorem MLDPInv.workerStep (h : MLDPInv W s) (hsize : SizesOk W) {x : Worker (QueueItem V)}
    (hx : s.base.workers[w]? = some x) (hws : s.workerStates[w]? = some ws)
    (hs : W.workerStep s w seen ws x = some s') :
    MLDPInv W s' := by
  obtain ⟨hlane, hflow⟩ := h.lanes w ws hws
  cases x with
  | processing t =>
    simp only [MLDPWriter.workerStep] at hs
    split at hs
    · rename_i hpc
      obtain ⟨base, hbase, rfl⟩ := Option.map_eq_some_iff.mp hs
      exact h.processed hx hws hpc hbase
    · obtain ⟨r, hr, rfl⟩ := Option.map_eq_some_iff.mp hs
      refine h.setLane ⟨hlane.processNext hsize hr, ?_⟩
      rw [hx] at hflow ⊢
      exact hflow.processNext hr
  | waiting =>
    simp only [MLDPWriter.workerStep] at hs
    split at hs
    · cases hs
      have hpc := hflow.idle (fun t ht => by rw [hx] at ht; cases ht)
      refine h.setLane ?_
      unfold MLDPWriter.onWorkerIdle
      split
      · exact ⟨hlane.closeIdle hpc _, hflow.close _⟩
      · exact ⟨hlane, hflow⟩
    · exact h.idleStep hx (fun _ ht => by cases ht) hs
  | taken t => exact h.idleStep hx (fun _ ht => by cases ht) hs
  | exited => exact h.idleStep hx (fun _ ht => by cases ht) hs

/-- `doStop` runs when no worker is left that processes anything. -/
theorem MLDPInv.doStop (h : MLDPInv W s) (hcleared : s.base.stopper = .cleared)
    (hs : W.doStop s = some s') : MLDPInv W s' := by
  unfold MLDPWriter.doStop at hs
  split at hs
  · cases hs
    refine ⟨h.flow, h.joined, fun w ws hw => ?_⟩
    obtain ⟨old, hold, rfl⟩ := Option.map_eq_some_iff.mp (List.getElem?_map .. ▸ hw)
    obtain ⟨hlane, hflow⟩ := h.lanes w old hold
    have hpc := hflow.idle (fun t ht => by
      have := h.joined hcleared _ (mem_of_getElem? ht)
      cases this)
    exact ⟨hlane.closeIdle hpc _, hflow.close _⟩
  · split at hs
    · exact h.aside (by simp) hs
    · cases hs

/-- **The step lemma.** Every step of the writer keeps the invariant. -/
theorem MLDPInv.step (h : MLDPInv W s) (hsize : SizesOk W) {a : MLDPAction V}
    (hs : W.step s a = some s') : MLDPInv W s' := by
  unfold MLDPWriter.step at hs
  split at hs
  · cases hs
  · cases a with
    | enter batch => exact h.aside (by simp) hs
    | prepare p enrichers => exact h.aside (by simp) hs
    | timeout p => exact h.aside (by simp) hs
    | push p => exact h.aside (by simp) hs
    | forceStop => exact h.aside (by simp) hs
    | worker w seen =>
      simp only at hs
      split at hs
      · rename_i x ws hx hws
        exact h.workerStep hsize hx hws hs
      · cases hs
    | stop =>
      simp only at hs
      split at hs
      · rename_i hcleared
        exact h.doStop hcleared hs
      · exact h.aside (by simp) hs
    | finish =>
      simp only at hs
      split at hs
      · cases hs
      · cases hs
        exact ⟨h.flow, h.joined, h.lanes⟩

/-! ## 8. From the invariant to the streams -/

theorem MLDPInv.order (h : MLDPInv W s) (hws : s.workerStates[w]? = some ws) :
    List.Sublist (written ws.calls) ((received s w).flatMap frameSlots) := by
  have hprogress : List.Sublist (progress s.base.workers[w]? ws.pc)
      ((hand s.base.workers[w]?).flatMap frameSlots) := by
    rcases s.base.workers[w]? with _ | x
    · exact List.Sublist.refl _
    · cases x with
      | processing t => simpa [progress, hand] using slotsUpTo_frameSlots t _
      | waiting => exact List.Sublist.refl _
      | exited => exact List.Sublist.refl _
      | taken t => exact nil_sublist _
  obtain ⟨rest, hrest⟩ := h.flow.begins w
  have hreceived : received s w = doneBy s w ++ hand s.base.workers[w]? ++ rest.map (·.2) := by
    simp [received, doneBy, ← hrest, map_map, Function.comp_def]
  rw [hreceived, flatMap_append, flatMap_append]
  exact ((h.lanes w ws hws).2.order.trans ((List.Sublist.refl _).append hprogress)).trans
    (sublist_append_left _ _)

theorem Flow.places (h : Flow s.base) (w : Nat) :
    (((received s w).flatMap frameSlots).map (·.1)).Nodup := by
  have hnames : ((received s w).map Ticket.name).Nodup := by
    have hsub : List.Sublist ((received s w).map Ticket.name)
        ((enqueued s.base.history).map (·.2.name)) := by
      simp only [received, map_map]
      exact filter_sublist.map _
    exact h.names.sublist hsub
  rw [map_flatMap, nodup_flatMap]
  refine ⟨fun t _ => (frameSlots_places t).1, ?_⟩
  rw [nodup_iff_pairwise_ne, pairwise_map] at hnames
  refine hnames.imp fun {t t'} hne => ?_
  intro place hplace hplace'
  exact hne (((frameSlots_places t).2 place hplace).symm.trans
    ((frameSlots_places t').2 place hplace'))

theorem MLDPInv.place (h : MLDPInv W s) (hws : s.workerStates[w]? = some ws) {place : Place}
    (hplace : place ∈ (written ws.calls).map (·.1)) :
    ∃ t, (w, t) ∈ enqueued s.base.history ∧ (place.push, place.index) = t.name := by
  have hmem := (h.order hws).map (·.1) |>.subset hplace
  rw [map_flatMap, mem_flatMap] at hmem
  obtain ⟨t, ht, hslot⟩ := hmem
  obtain ⟨⟨v, t'⟩, hx, rfl⟩ := mem_map.mp ht
  have hfilter := mem_filter.mp hx
  have hv : v = w := by simpa using hfilter.2
  subst hv
  exact ⟨t', hfilter.1, (frameSlots_places t').2 place hslot⟩

theorem MLDPInv.streamsOk (h : MLDPInv W s) : StreamsOk W s where
  lanes := by
    intro w ws hws
    have hlane := (h.lanes w ws hws).1
    exact
      { frames := hlane.frames
        bytes := hlane.bytes
        opened := hlane.opens ▸ nodup_range
        legal := hlane.legal
        once := (h.flow.places w).sublist ((h.order hws).map _) }
  order := fun _ _ hws => h.order hws
  apart := by
    intro w w' ws ws' hws hws' place hplace hplace'
    obtain ⟨t, ht, hname⟩ := h.place hws hplace
    obtain ⟨t', ht', hname'⟩ := h.place hws' hplace'
    have hsame := h.flow.same ht ht' (hname.symm.trans hname')
    exact congrArg Prod.fst hsame

end Steps

/-- **The limits hold on every run.** The readings of the clock, the outcomes of opening and
writing, the batches and the interleaving are arbitrary.  A write that fails counts as carried, so
what arrived of it cannot exceed the limits either. -/
theorem streamsOk_of_run (W : MLDPWriter V) (hsize : SizesOk W) (s : MLDPState V)
    (hrun : Runs W.step anyStep W.started s) : StreamsOk W s :=
  (hrun.keeps (fun _ _ _ h _ hs => MLDPInv.step h hsize hs) (mldpInv_started W)).streamsOk


/-! ## 9. A run that rotates its stream -/

theorem providerId_ne : "7" ≠ "" := by
  decide

/-- A writer with one worker and one frame per stream. -/
def oneFrameWriter : MLDPWriter Nat where
  cfg :=
    { name := "mldp"
      poolConfig :=
        { providerName := "driver", providerDescription := "driver", ingestionUrl := "ingest:1"
          queryUrl := "", annotationUrl := "", minConnections := 1, maxConnections := 2
          ordered := fun _ _ => by decide }
      threadPoolSize := .near 1
      streamMaxBytes := .near 100
      streamMaxAge := .near 200
      queueCapacity := .near 10
      maxFramesPerStream := .near 1 }
  pool := ⟨1, 2, Nat.one_pos, by decide⟩
  pool_eq := rfl
  providerId := "7"
  registered := providerId_ne
  byteSize := fun request => min (1 + request.ingestionDataFrame.columns.length) 1000

/-- A batch of two frames with a column each. -/
def twoFrames : EventBatch Nat where
  payload := .timeSeries
    { rootSourceName := "PV:A"
      frames :=
        [{ timestamps := [⟨10, 0⟩], columns := [⟨"PV:A", .scalar .double [1], []⟩] },
          { timestamps := [⟨11, 0⟩], columns := [⟨"PV:A", .scalar .double [2], []⟩] }] }

/-- The batch is pushed, and worker 0 sends both frames. -/
def rotatingActions : List (MLDPAction Nat) :=
  let seen : Seen := ⟨0, .opened, true⟩
  [.enter twoFrames, .prepare 0 [], .push 0, .push 0, .push 0, .push 0, .push 0, .push 0] ++
    List.replicate 12 (.worker 0 seen)

/-- The state after it. -/
def rotatedState : MLDPState Nat :=
  (exec oneFrameWriter.step anyStep oneFrameWriter.started rotatingActions).getD
    oneFrameWriter.started

theorem oneFrameWriter_sizes : SizesOk oneFrameWriter := by
  intro request _
  simp only [oneFrameWriter]
  omega

theorem streamsOk_of_run_rotating :
    (rotatedState.workerStates.map fun ws => (written ws.calls).map (·.1)) =
        [[⟨0, 0, 0⟩, ⟨0, 0, 1⟩]] ∧
      StreamsOk oneFrameWriter rotatedState :=
  ⟨by rfl, streamsOk_of_run oneFrameWriter oneFrameWriter_sizes rotatedState
    (Runs.of_exec rotatingActions (by rfl))⟩

end MldpDriver.Writer
