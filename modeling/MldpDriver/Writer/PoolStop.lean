/-
# Can a worker wait for a connection that no one will give back?

A worker keeps the connection of its stream between items, and leaves its loop with the stream
open; `doStop` closes the streams only after every worker has left.  `Starved` is the state in which
a worker waits inside `acquire()` while all connections are held by workers that have left.
-/
import Mathlib.Data.Finset.Card
import Mathlib.Data.Finset.Range
import MldpDriver.Writer.Fifo
import MldpDriver.Writer.MLDPWriter

namespace MldpDriver.Writer

open Bus Pool Lib.Run List Option

variable {V : Type}

/-! ## 1. The state -/

/-- A worker that has left its loop holds connection `c`. -/
def HeldByExited (s : MLDPState V) (c : Nat) : Prop :=
  ∃ (w : Nat) (ws : WorkerState V), s.base.workers[w]? = some .exited ∧
    s.workerStates[w]? = some ws ∧ ws.stream.handle = some c

/-- **A worker waits in `acquire()`, and every connection is held by a worker that has left.** -/
def Starved (W : MLDPWriter V) (s : MLDPState V) : Prop :=
  (∃ (w : Nat) (t : Ticket (QueueItem V)) (ws : WorkerState V) (next : Point V),
    s.base.workers[w]? = some (.processing t) ∧ s.workerStates[w]? = some ws ∧
      ws.pc = .acquiring next) ∧
    acquire W.pool.maxConnections s.items = none ∧ ∀ c < s.items.length, HeldByExited s c

/-! ## 2. A push delivers an item -/

section Run

variable {W : MLDPWriter V} {s : MLDPState V}

/-- A batch whose frame has timestamps but no column: its item opens a stream and writes nothing. -/
def bareBatch : EventBatch V where
  payload := .timeSeries { rootSourceName := "PV", frames := [{ timestamps := [⟨0, 0⟩] }] }

/-- The item it becomes. -/
def bareItem : QueueItem V := ⟨"PV", [], [{ timestamps := [⟨0, 0⟩] }]⟩

theorem toItems_bare : toItems (bareBatch : EventBatch V) = [bareItem] := rfl

/-- The steps of one push that finds room. -/
def deliver (p : Nat) : List (MLDPAction V) :=
  [.enter bareBatch, .prepare p [], .push p, .push p, .push p, .push p, .push p, .push p]

/-- The writer when the push has returned. -/
def delivered (s : MLDPState V) (j : Nat) : MLDPState V :=
  let t : Ticket (QueueItem V) := ⟨s.base.pushes.length, 0, bareItem⟩
  { s with
    base := { s.base with
      pushes := s.base.pushes ++
        [{ pc := .returned true, batch := bareBatch, items := [bareItem], sent := 1 }]
      channels := s.base.channels.set j { items := [t] }
      nextChannel := (j + 1) % sizeRange
      queuedItems := 1
      history := s.base.history ++ [.enqueued j t] } }

theorem deliver_exec {j n : Nat} (hfault : s.base.fault = none) (hrun : s.base.running = true)
    (hforce : s.base.forceQuit = false) (hqueued : s.base.queuedItems = 0)
    (hnext : s.base.nextChannel = j) (hlen : s.base.channels.length = n) (hj : j < n)
    (hch : s.base.channels[j]? = some {}) :
    exec W.step anyStep s (deliver s.base.pushes.length) = some (delivered s j) := by
  have hcap : 0 < toSize W.setup.cfg.queueCapacity := by
    have hpos := W.cfg.queueCapacity.pos
    have hlt := W.cfg.queueCapacity.lt
    simp only [toSize, MLDPWriter.setup, sizeRange]
    omega
  have hmod : j % n = j := Nat.mod_eq_of_lt hj
  have hn : n ≠ 0 := by omega
  have hkey : ∀ item, W.setup.itemRoutingKey item = "" := fun _ => rfl
  obtain ⟨base, lanes, items, closing⟩ := s
  simp only at hfault hrun hforce hqueued hnext hlen hch
  obtain ⟨hc, hch⟩ := List.getElem?_eq_some_iff.mp hch
  have hone : 1 % sizeRange = 1 := rfl
  simp [exec, deliver, anyStep, MLDPWriter.step, MLDPWriter.baseStep, Writer.step, hfault, hrun,
    prepare, runEnrichers, toItems_bare, State.setPush, Writer.pushNext, mayProceed, hqueued, hcap,
    hforce, route, hlen, hn, hnext, hmod, hch, hj, hone, delivered, hkey]

/-! ## 3. A worker sends an item and keeps its stream -/

/-- The clock stands still, streams open and writes succeed. -/
def calm : Seen := ⟨0, .opened, true⟩

/-- A worker's part once it has opened a stream on connection `c`. -/
def keeping (c : Nat) : WorkerState V where
  stream := { handle := some c, writer := some 0 }
  opened := 1
  calls := [.opened 0]

/-- The writer when worker `j` is back in its loop. -/
def served (s : MLDPState V) (j : Nat) (t : Ticket (QueueItem V)) (c : Nat) (items : List Bool) :
    MLDPState V :=
  { s with
    base := { s.base with
      workers := s.base.workers.set j .waiting
      channels := s.base.channels.set j {}
      queuedItems := (s.base.queuedItems + (sizeRange - 1)) % sizeRange
      history := s.base.history ++ [.processed j t] }
    workerStates := s.workerStates.set j (keeping c)
    items := items }

theorem not_aged (W : MLDPWriter V) (c : Nat) :
    ¬ W.aged 0 { handle := some c, writer := some 0 } := by
  have := W.cfg.streamMaxAge.pos
  simp only [MLDPWriter.aged]
  omega

theorem serve_exec {j c : Nat} {items : List Bool} {t : Ticket (QueueItem V)}
    (hitem : t.item = bareItem) (hfault : s.base.fault = none) (hforce : s.base.forceQuit = false)
    (hworker : s.base.workers[j]? = some .waiting)
    (hch : s.base.channels[j]? = some { items := [t] }) (hlane : s.workerStates[j]? = some {})
    (hfree : acquire W.pool.maxConnections s.items = some (c, items)) :
    exec W.step anyStep s (List.replicate 10 (.worker j calm)) = some (served s j t c items) := by
  have hbytes : W.cfg.streamMaxBytes.val ≠ 0 := Nat.ne_of_gt W.cfg.streamMaxBytes.pos
  obtain ⟨base, lanes, idle, closing⟩ := s
  simp only at hfault hforce hworker hch hlane hfree
  obtain ⟨hw, hworker⟩ := List.getElem?_eq_some_iff.mp hworker
  obtain ⟨hl, hlane⟩ := List.getElem?_eq_some_iff.mp hlane
  obtain ⟨hc, hch⟩ := List.getElem?_eq_some_iff.mp hch
  simp [exec, anyStep, replicate_succ, MLDPWriter.step, MLDPWriter.workerStep,
    MLDPWriter.baseStep, MLDPWriter.processNext, MLDPWriter.pointNext, Writer.step,
    Writer.workerNext, hfault, hforce, hworker, hch, hlane, hfree, hw, hl, hc, idles,
    State.setWorker, WorkerState.goto, WorkerState.openStream, calm, hitem, bareItem, not_aged,
    MLDPWriter.toRequest, columnCount, hbytes, creates, served, keeping]

/-- The first `j` workers have sent an item each and are back in their loops. -/
structure Ready (W : MLDPWriter V) (j : Nat) (s : MLDPState V) : Prop where
  reached : Runs W.step anyStep W.started s
  noFault : s.base.fault = none
  running : s.base.running = true
  noForce : s.base.forceQuit = false
  stopper : s.base.stopper = .idle
  queuedItems : s.base.queuedItems = 0
  nextChannel : s.base.nextChannel = j
  channelCount : s.base.channels.length = W.setup.cfg.channelCount
  channels : ∀ w < W.setup.cfg.channelCount, s.base.channels[w]? = some {}
  workers : ∀ w < W.setup.cfg.channelCount, s.base.workers[w]? = some .waiting
  keeps : ∀ w < j, s.workerStates[w]? = some (keeping w)
  rest : ∀ w, j ≤ w → w < W.setup.cfg.channelCount → s.workerStates[w]? = some {}
  items : s.items = List.replicate j true ++ List.replicate (W.pool.minConnections - j) false

theorem ready_started (W : MLDPWriter V) : Ready W 0 W.started where
  reached := Relation.ReflTransGen.refl
  noFault := rfl
  running := rfl
  noForce := rfl
  stopper := rfl
  queuedItems := rfl
  nextChannel := rfl
  channelCount := length_replicate
  channels := fun w hw => by simp [MLDPWriter.started, Writer.started, hw]
  workers := fun w hw => by simp [MLDPWriter.started, Writer.started, hw]
  keeps := fun w hw => absurd hw (Nat.not_lt_zero w)
  rest := fun w _ hw => by simp [MLDPWriter.started, hw]
  items := rfl

/-- With the first `j` connections taken, the next is connection `j`. -/
theorem acquire_next {m j k : Nat} (hj : j < m) :
    acquire m (List.replicate j true ++ List.replicate (k - j) false) =
      some (j, List.replicate (j + 1) true ++ List.replicate (k - (j + 1)) false) := by
  rcases Nat.lt_or_ge j k with hlt | hge
  · have hsub : k - j = (k - (j + 1)) + 1 := by omega
    rw [hsub, replicate_succ, acquire_idle, replicate_succ', append_assoc]
    rfl
  · have hsub : k - j = 0 := by omega
    have hsub' : k - (j + 1) = 0 := by omega
    rw [hsub, hsub', replicate_zero, append_nil, acquire_create hj, replicate_succ']
    simp

theorem succ_lt_sizeRange (W : MLDPWriter V) {j : Nat} (hj : j < W.setup.cfg.channelCount) :
    j + 1 < sizeRange := by
  have := W.cfg.threadPoolSize.lt
  have hn : W.setup.cfg.channelCount = max 1 W.cfg.threadPoolSize.val := by
    simp only [QueueConfig.channelCount, MLDPWriter.setup]
    omega
  simp only [sizeRange]
  omega

theorem queued_back : (1 + (sizeRange - 1)) % sizeRange = 0 := by decide

theorem Ready.push {j : Nat} (h : Ready W j s) (hj : j < W.setup.cfg.channelCount) :
    Runs W.step anyStep W.started (delivered s j) :=
  h.reached.trans (Runs.of_exec _ (deliver_exec h.noFault h.running h.noForce h.queuedItems
    h.nextChannel h.channelCount hj (h.channels j hj)))

/-- **One more worker keeps a connection.** -/
theorem Ready.succ {j : Nat} (h : Ready W j s) (hn : j < W.setup.cfg.channelCount)
    (hm : j < W.pool.maxConnections) : ∃ s', Ready W (j + 1) s' := by
  have hw := h.workers j hn
  have hlt := (List.getElem?_eq_some_iff.mp hw).1
  have hlane := h.rest j (Nat.le_refl j) hn
  have hl := (List.getElem?_eq_some_iff.mp hlane).1
  have hc : j < s.base.channels.length := h.channelCount ▸ hn
  have hfree := acquire_next (k := W.pool.minConnections) hm
  rw [← h.items] at hfree
  have hserve := serve_exec (W := W) (s := delivered s j) (j := j)
    (t := ⟨s.base.pushes.length, 0, bareItem⟩) rfl h.noFault h.noForce hw
    (by simp [delivered, hc]) hlane hfree
  exact ⟨_,
    { reached := (h.push hn).trans (Runs.of_exec _ hserve)
      noFault := h.noFault
      running := h.running
      noForce := h.noForce
      stopper := h.stopper
      queuedItems := queued_back
      nextChannel := by
        simp only [served, delivered]
        exact Nat.mod_eq_of_lt (succ_lt_sizeRange W hn)
      channelCount := by simp [served, delivered, h.channelCount]
      channels := by
        intro w hwn
        simp only [served, delivered, set_set, List.getElem?_set]
        split
        · simp
        · exact h.channels w hwn
      workers := by
        intro w hwn
        simp only [served, delivered, List.getElem?_set]
        split
        · simp
        · exact h.workers w hwn
      keeps := by
        intro w hwj
        simp only [served, delivered, List.getElem?_set]
        split
        · rename_i he
          subst he
          simp
        · exact h.keeps w (by omega)
      rest := by
        intro w hjw hwn
        simp only [served, delivered, List.getElem?_set]
        rw [if_neg (by omega)]
        exact h.rest w (by omega) hwn
      items := rfl }⟩

theorem exists_ready (W : MLDPWriter V) : ∀ j, j ≤ W.setup.cfg.channelCount →
    j ≤ W.pool.maxConnections → ∃ s, Ready W j s
  | 0, _, _ => ⟨W.started, ready_started W⟩
  | j + 1, hn, hm =>
    have ⟨_, h⟩ := exists_ready W j (Nat.le_of_succ_le hn) (Nat.le_of_succ_le hm)
    h.succ hn hm

/-! ## 4. stop() begins, and the workers leave one by one

It is reachable whenever there are more workers than the pool may have connections
(`starved_of_lt`): that many workers each send one item and keep their stream, `stop()` begins,
they leave, and the next worker takes its item. -/

/-- `stop()` has raised the first `i` flags and the first `i` workers have left; worker `m` still
has its item. -/
structure Stopping (W : MLDPWriter V) (m i : Nat) (s : MLDPState V) : Prop where
  reached : Runs W.step anyStep W.started s
  noFault : s.base.fault = none
  noForce : s.base.forceQuit = false
  stopper : s.base.stopper = .shutting i
  inLoop : ∀ w, i ≤ w → w < m →
    s.base.channels[w]? = some {} ∧ s.base.workers[w]? = some .waiting
  left : ∀ w < i, s.base.workers[w]? = some .exited
  keeps : ∀ w < m, s.workerStates[w]? = some (keeping w)
  last : s.workerStates[m]? = some {} ∧ s.base.workers[m]? = some .waiting ∧
    ∃ t, s.base.channels[m]? = some { items := [t] }
  items : s.items = List.replicate m true

/-- The call of `stop()`, with an item in the channel of the worker without a connection. -/
theorem Ready.stop (h : Ready W W.pool.maxConnections s)
    (hn : W.pool.maxConnections < W.setup.cfg.channelCount) :
    ∃ s', Stopping W W.pool.maxConnections 0 s' := by
  have hc : W.pool.maxConnections < s.base.channels.length := h.channelCount ▸ hn
  have hstop : W.step (delivered s W.pool.maxConnections) .stop =
      some { delivered s W.pool.maxConnections with
        base := { (delivered s W.pool.maxConnections).base with
          running := false, stopper := .shutting 0 } } := by
    simp [MLDPWriter.step, MLDPWriter.baseStep, Writer.step, stopNext, delivered, h.noFault,
      h.stopper, h.running]
  exact ⟨_,
    { reached := (h.push hn).tail ⟨.stop, trivial, hstop⟩
      noFault := h.noFault
      noForce := h.noForce
      stopper := rfl
      inLoop := by
        intro w _ hw
        refine ⟨?_, h.workers w (Nat.lt_trans hw hn)⟩
        simp only [delivered]
        rw [List.getElem?_set_ne (Nat.ne_of_gt hw)]
        exact h.channels w (Nat.lt_trans hw hn)
      left := fun w hw => absurd hw (Nat.not_lt_zero w)
      keeps := h.keeps
      last := ⟨h.rest _ (Nat.le_refl _) hn, h.workers _ hn, _, by simp [delivered, hc]; rfl⟩
      items := by
        have hsub : W.pool.minConnections - W.pool.maxConnections = 0 :=
          Nat.sub_eq_zero_of_le W.pool.minConnections_le
        simpa [delivered, hsub] using h.items }⟩

/-- Flag `i` is raised, and worker `i`, with nothing in its channel, leaves. -/
theorem Stopping.succ {m i : Nat} (h : Stopping W m i s) (hi : i < m) :
    ∃ s', Stopping W m (i + 1) s' := by
  obtain ⟨hch, hwork⟩ := h.inLoop i (Nat.le_refl i) hi
  obtain ⟨hlane, hlast, t, htm⟩ := h.last
  have hexec : exec W.step anyStep s [.stop, .worker i calm] = some { s with
      base := { s.base with
        channels := s.base.channels.set i { shutdown := true }
        stopper := .shutting (i + 1)
        workers := s.base.workers.set i .exited } } := by
    have hkeep := h.keeps i hi
    obtain ⟨hw, hwork⟩ := List.getElem?_eq_some_iff.mp hwork
    obtain ⟨hc, hch⟩ := List.getElem?_eq_some_iff.mp hch
    obtain ⟨hl, hkeep⟩ := List.getElem?_eq_some_iff.mp hkeep
    simp [exec, anyStep, MLDPWriter.step, MLDPWriter.workerStep, MLDPWriter.baseStep, Writer.step,
      stopNext, Writer.workerNext, h.noFault, h.noForce, h.stopper, hc, hch, hw, hwork, hl, idles,
      State.setWorker]
  have hlt := (List.getElem?_eq_some_iff.mp hwork).1
  exact ⟨_,
    { reached := h.reached.trans (Runs.of_exec _ hexec)
      noFault := h.noFault
      noForce := h.noForce
      stopper := rfl
      inLoop := by
        intro w hiw hwm
        have hne : i ≠ w := Nat.ne_of_lt hiw
        simp only [List.getElem?_set_ne hne]
        exact h.inLoop w (Nat.le_of_succ_le hiw) hwm
      left := by
        intro w hw
        simp only [List.getElem?_set]
        split
        · simp
        · exact h.left w (by omega)
      keeps := h.keeps
      last := by
        have hne : i ≠ m := Nat.ne_of_lt hi
        simp only [List.getElem?_set_ne hne]
        exact ⟨hlane, hlast, t, htm⟩
      items := h.items }⟩

theorem exists_stopping (W : MLDPWriter V)
    (hn : W.pool.maxConnections < W.setup.cfg.channelCount) :
    ∀ i, i ≤ W.pool.maxConnections → ∃ s, Stopping W W.pool.maxConnections i s
  | 0, _ =>
    have ⟨_, h⟩ := exists_ready W _ (Nat.le_of_lt hn) (Nat.le_refl _)
    h.stop hn
  | i + 1, hi =>
    have ⟨_, h⟩ := exists_stopping W hn i (Nat.le_of_succ_le hi)
    h.succ hi

/-- **More workers than connections: the last one waits for ever.** -/
theorem starved_of_lt (W : MLDPWriter V)
    (hn : W.pool.maxConnections < W.setup.cfg.channelCount) :
    ∃ s, Runs W.step anyStep W.started s ∧ Starved W s := by
  obtain ⟨s, h⟩ := exists_stopping W hn _ (Nat.le_refl _)
  obtain ⟨hlane, hwork, t, hch⟩ := h.last
  generalize hm : W.pool.maxConnections = m at h hlane hwork hch
  have hexec : exec W.step anyStep s (List.replicate 3 (.worker m calm)) = some { s with
      base := { s.base with
        channels := s.base.channels.set m {}
        workers := s.base.workers.set m (.processing t)
        queuedItems := (s.base.queuedItems + (sizeRange - 1)) % sizeRange }
      workerStates := s.workerStates.set m { pc := .acquiring .checkAge } } := by
    obtain ⟨hw, hwork⟩ := List.getElem?_eq_some_iff.mp hwork
    obtain ⟨hc, hch⟩ := List.getElem?_eq_some_iff.mp hch
    obtain ⟨hl, hlane⟩ := List.getElem?_eq_some_iff.mp hlane
    simp [exec, anyStep, replicate_succ, MLDPWriter.step, MLDPWriter.workerStep,
      MLDPWriter.baseStep, MLDPWriter.processNext, MLDPWriter.pointNext, Writer.step,
      Writer.workerNext, h.noFault, h.noForce, hw, hwork, hc, hch, hl, hlane, idles,
      State.setWorker, WorkerState.goto]
  have hw := (List.getElem?_eq_some_iff.mp hwork).1
  have hl := (List.getElem?_eq_some_iff.mp hlane).1
  refine ⟨_, h.reached.trans (Runs.of_exec _ hexec),
    ⟨m, t, { pc := .acquiring .checkAge }, .checkAge, ?_, ?_, rfl⟩,
    ?_, ?_⟩
  · simp [hw]
  · simp [hl]
  · rw [acquire_eq_none]
    simp [h.items, hm]
  · intro c hc
    have hcm : c < m := by simpa [h.items] using hc
    refine ⟨c, keeping c, ?_, ?_, rfl⟩
    · rw [List.getElem?_set_ne (Nat.ne_of_gt hcm)]
      exact h.left c hcm
    · rw [List.getElem?_set_ne (Nat.ne_of_gt hcm)]
      exact h.keeps c hcm

end Run

/-! ## 5. No more workers than connections

It is unreachable otherwise (`not_starved_of_le`): a worker holds one connection at most. -/

section Bounded

variable {W : MLDPWriter V} {s s' : MLDPState V}

theorem baseStep_length {a : Action (EventBatch V) (QueueItem V)}
    (hs : W.baseStep s a = some s') : s'.base.workers.length = s.base.workers.length := by
  obtain ⟨base, hbase, rfl⟩ := map_eq_some_iff.mp hs
  exact step_workers_length hbase

theorem workerStep_length {w : Nat} {seen : Seen} {ws : WorkerState V} {x : Worker (QueueItem V)}
    (hs : W.workerStep s w seen ws x = some s') :
    s'.base.workers.length = s.base.workers.length := by
  cases x with
  | processing t =>
    simp only [MLDPWriter.workerStep] at hs
    split at hs
    · obtain ⟨base, hbase, rfl⟩ := map_eq_some_iff.mp hs
      exact step_workers_length hbase
    · obtain ⟨r, -, rfl⟩ := map_eq_some_iff.mp hs
      rfl
  | waiting =>
    simp only [MLDPWriter.workerStep] at hs
    split at hs
    · cases hs; rfl
    · exact baseStep_length hs
  | taken t => exact baseStep_length hs
  | exited => exact baseStep_length hs

theorem mldpStep_length {a : MLDPAction V} (hs : W.step s a = some s') :
    s'.base.workers.length = s.base.workers.length := by
  unfold MLDPWriter.step at hs
  split at hs
  · cases hs
  · cases a with
    | worker w seen =>
      simp only at hs
      split at hs
      · exact workerStep_length hs
      · cases hs
    | stop =>
      simp only [MLDPWriter.doStop] at hs
      split at hs
      · split at hs
        · cases hs; rfl
        · split at hs
          · exact baseStep_length hs
          · cases hs
      · exact baseStep_length hs
    | finish =>
      simp only at hs
      split at hs
      · cases hs
      · cases hs; rfl
    | _ => exact baseStep_length hs

theorem workers_length (hrun : Runs W.step anyStep W.started s) :
    s.base.workers.length = W.setup.cfg.channelCount :=
  hrun.keeps (fun _ _ _ h _ hs => (mldpStep_length hs).trans h) length_replicate

/-- **A worker holds one connection at most.** So the workers that have left, without the one that
waits, do not hold them all. -/
theorem not_starved_of_le (hn : W.setup.cfg.channelCount ≤ W.pool.maxConnections)
    (hrun : Runs W.step anyStep W.started s) : ¬ Starved W s := by
  rintro ⟨⟨w, t, ws, next, hw, -, -⟩, hnone, hheld⟩
  have hfull := (acquire_eq_none.mp hnone).1
  -- the worker that holds connection `c`
  have hholder : ∀ c : Nat, ∃ v : Nat, c < W.pool.maxConnections → ∃ ws : WorkerState V,
      s.base.workers[v]? = some .exited ∧ s.workerStates[v]? = some ws ∧
        ws.stream.handle = some c := by
    intro c
    by_cases hc : c < W.pool.maxConnections
    · obtain ⟨v, hv⟩ := hheld c (Nat.lt_of_lt_of_le hc hfull)
      exact ⟨v, fun _ => hv⟩
    · exact ⟨0, fun h => absurd h hc⟩
  choose holder hholds using hholder
  have hlength := workers_length hrun
  have hlt : w < W.setup.cfg.channelCount := hlength ▸ (List.getElem?_eq_some_iff.mp hw).1
  have hcard : (Finset.range W.pool.maxConnections).card ≤
      ((Finset.range W.setup.cfg.channelCount).erase w).card := by
    refine Finset.card_le_card_of_injOn holder ?_ ?_
    · intro c hc
      obtain ⟨ws', hexit, -, -⟩ := hholds c (Finset.mem_range.mp hc)
      refine Finset.mem_coe.mpr (Finset.mem_erase.mpr ⟨?_, Finset.mem_range.mpr ?_⟩)
      · intro he
        rw [he, hw] at hexit
        cases hexit
      · exact hlength ▸ (List.getElem?_eq_some_iff.mp hexit).1
    · intro c hc c' hc' heq
      obtain ⟨ws₁, -, hstate₁, hhandle₁⟩ := hholds c (Finset.mem_range.mp hc)
      obtain ⟨ws₂, -, hstate₂, hhandle₂⟩ := hholds c' (Finset.mem_range.mp hc')
      rw [heq, hstate₂, Option.some.injEq] at hstate₁
      rw [← hstate₁, hhandle₂] at hhandle₁
      exact (some.inj hhandle₁).symm
  rw [Finset.card_range, Finset.card_erase_of_mem (Finset.mem_range.mpr hlt),
    Finset.card_range] at hcard
  omega

end Bounded

/-- **Draining can always go on exactly when there are no more workers than connections.** With
more of them, a run exists in which `stop()` lets as many workers leave as there are connections,
each with its stream open, while one more still has an item to send; nobody gives a connection back
then, because the streams are closed only after all workers have left. -/
theorem not_starved_iff (W : MLDPWriter V) :
    (∀ s, Runs W.step anyStep W.started s → ¬ Starved W s) ↔
      W.setup.cfg.channelCount ≤ W.pool.maxConnections := by
  constructor
  · intro hall
    by_contra hlt
    obtain ⟨s, hrun, hstarved⟩ := starved_of_lt W (Nat.lt_of_not_le hlt)
    exact hall s hrun hstarved
  · exact fun hn s hrun => not_starved_of_le hn hrun

/-! ## 6. Two workers, one connection -/

/-- A writer with two workers and one connection. -/
def twoWorkers : MLDPWriter Nat where
  cfg :=
    { name := "mldp"
      poolConfig :=
        { providerName := "driver", providerDescription := "driver", ingestionUrl := "ingest:1"
          queryUrl := "", annotationUrl := "", minConnections := 1, maxConnections := 1
          ordered := fun _ _ => Nat.le_refl 1 }
      threadPoolSize := .near 2
      streamMaxBytes := .near 100
      streamMaxAge := .near 200
      queueCapacity := .near 10
      maxFramesPerStream := .near 100 }
  pool := ⟨1, 1, Nat.one_pos, by decide⟩
  pool_eq := rfl
  providerId := "7"
  registered := by decide
  byteSize := fun request => 1 + request.ingestionDataFrame.columns.length

/-- Each worker gets an item; worker 0 sends its own, `stop()` begins and worker 0 leaves. -/
def starvingActions : List (MLDPAction Nat) :=
  deliver 0 ++ List.replicate 10 (.worker 0 calm) ++ deliver 1 ++ [.stop, .stop, .worker 0 calm] ++
    List.replicate 3 (.worker 1 calm)

/-- The state after it. -/
def starvedState : MLDPState Nat :=
  (exec twoWorkers.step anyStep twoWorkers.started starvingActions).getD twoWorkers.started

/-- The same writer with two connections. -/
def twoConnections : MLDPWriter Nat :=
  { twoWorkers with
    cfg :=
      { twoWorkers.cfg with
        poolConfig :=
          { twoWorkers.cfg.poolConfig with maxConnections := 2, ordered := fun _ _ => Nat.le_succ 1 } }
    pool := ⟨1, 2, Nat.one_pos, Nat.le_succ 1⟩
    pool_eq := rfl }

/-- The same steps: worker 1 gets the second connection. -/
theorem not_starved_iff_twoConnections :
    ∃ s, exec twoConnections.step anyStep twoConnections.started starvingActions = some s ∧
      ¬ Starved twoConnections s := by
  have hrun : (exec twoConnections.step anyStep twoConnections.started starvingActions).isSome := rfl
  obtain ⟨s, hs⟩ := isSome_iff_exists.mp hrun
  exact ⟨s, hs, (not_starved_iff twoConnections).mpr (by decide) s (Runs.of_exec _ hs)⟩

/-- **Draining does get stuck.** -/
theorem starved_reachable :
    ¬ ∀ (W : MLDPWriter Nat) (s : MLDPState Nat),
      Runs W.step anyStep W.started s → ¬ Starved W s := by
  intro hall
  refine hall twoWorkers starvedState (Runs.of_exec starvingActions (by rfl)) ?_
  refine ⟨⟨1, ⟨1, 0, bareItem⟩, { pc := .acquiring .checkAge }, .checkAge, by rfl, by rfl, rfl⟩,
    by rfl, fun c hc => ⟨0, keeping 0, by rfl, by rfl, ?_⟩⟩
  have hzero : c = 0 := Nat.lt_one_iff.mp hc
  rw [hzero]
  rfl

end MldpDriver.Writer
