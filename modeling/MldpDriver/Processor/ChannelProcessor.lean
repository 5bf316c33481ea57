/-
# A channel processor and its stop

The feeders of a processor raise the number of PENDING tasks and hand a task to its thread pool.  A
task looks whether the processor is running, puts its batch into the input buffer and, if there is a
snapshot, runs the algorithm and pushes what it returns; in any case it then lowers the number, and
if it is zero wakes `stop`, without the mutex that `stop` waits with.  `stop` tests the number with
the mutex; if there are pending tasks it still has the mutex when it is `dozing`, and falls `asleep`
in the same moment in which it releases it.
-/
import MldpDriver.Lib.Replace
import MldpDriver.Lib.Run
import MldpDriver.Processor.InputBuffer

namespace MldpDriver.Processor

open Bus Lib.Replace Lib.Run List Option

variable {V : Type}

/-! ## 1. The state -/

/-- `MLDPChannelProcessorConfig`, what the tasks read of it. -/
structure ProcessorConfig where
  name : String
  sources : List String := []
  alignment : AlignmentPolicy := .latestValue
  trigger : TriggerPolicy := .anyUpdate
  maxBufferDepth : Nat := 0

/-- Where a task is. -/
inductive TaskPc (V : Type)
  /-- The number is raised, the pool does not have the task yet. -/
  | counted
  | queued
  | ingesting (payload : TimeSeriesPayload V)
  | snapshotting
  | resetting (snapshot : AlignedSnapshot V)
  /-- The algorithm runs. -/
  | computing (snapshot : AlignedSnapshot V)
  | emitting (outputs : List (BatchPayload V))
  /-- It is about to lower the number. -/
  | finishing
  | notifying
  | done

structure Task (V : Type) where
  batch : EventBatch V
  pc : TaskPc V := .counted

/-- Where `stop` is. -/
inductive StopPc
  | notCalled
  | testing
  | dozing
  | asleep
  | clearing
  | returned
  deriving DecidableEq

structure State (V : Type) where
  buffer : InputBuffer V
  running : Bool := false
  pendingTasks : BitVec 32 := 0
  tasks : List (Task V) := []
  stopper : StopPc := .notCalled
  /-- What went to the bus, with the name of its reader. -/
  emitted : List (String × BatchPayload V) := []

/-- A new processor. -/
def State.new (cfg : ProcessorConfig) : State V where
  buffer :=
    { requiredSources := cfg.sources, alignment := cfg.alignment, maxDepth := cfg.maxBufferDepth }

/-! ## 2. The tasks -/

/-- Task `i` is now there. -/
def State.setTask (s : State V) (i : Nat) (t : Task V) (pc : TaskPc V) : State V :=
  { s with tasks := s.tasks.set i { t with pc := pc } }

/-- `drain_cv_.notify_all()`. -/
def StopPc.wake (pc : StopPc) : StopPc := if pc = .asleep then .testing else pc

/-- What a task does first. -/
def entered (running : Bool) (batch : EventBatch V) : TaskPc V :=
  match running, batch.payload with
  | true, .timeSeries payload => .ingesting payload
  | _, _ => .finishing

/-- The next thing task `i` does.  The algorithm returns `outputs`, or throws if there are none. -/
def runTask (cfg : ProcessorConfig) (s : State V) (i : Nat) (t : Task V)
    (outputs : Option (List (BatchPayload V))) : Option (State V) :=
  match t.pc with
  | .counted => some (s.setTask i t .queued)
  | .queued => some (s.setTask i t (entered s.running t.batch))
  | .ingesting payload =>
    some { s.setTask i t (if cfg.trigger = .interval then .finishing else .snapshotting) with
      buffer := s.buffer.ingest payload.rootSourceName payload }
  | .snapshotting =>
    some (s.setTask i t
      (match s.buffer.trySnapshot cfg.trigger with
        | some snapshot => .resetting snapshot
        | none => .finishing))
  | .resetting snapshot =>
    some { s.setTask i t (.computing snapshot) with buffer := s.buffer.resetFreshFlags }
  | .computing _ =>
    some (s.setTask i t
      (match outputs with
        | some outputs => .emitting outputs
        | none => .finishing))
  | .emitting [] => some (s.setTask i t .finishing)
  | .emitting (payload :: rest) =>
    some { s.setTask i t (.emitting rest) with emitted := s.emitted ++ [(cfg.name, payload)] }
  | .finishing =>
    some { s.setTask i t (if s.pendingTasks - 1 = 0 then .notifying else .done) with
      pendingTasks := s.pendingTasks - 1 }
  | .notifying => some { s.setTask i t .done with stopper := s.stopper.wake }
  | .done => none

/-! ## 3. The system

`step` is the system of the tasks, the feeders and one call of `stop`.  Tasks of the pool run in any
order and any number at a time; a started processor is not started again after its stop.  The number
is an `int` and wraps around. -/

inductive Action (V : Type)
  | start
  /-- A feeder pushes a batch. -/
  | push (batch : EventBatch V)
  | task (i : Nat) (outputs : Option (List (BatchPayload V)))
  /-- The next thing that `stop` does. -/
  | stop
  /-- It wakes without a notification. -/
  | spurious

/-- The next thing `stop` does. -/
def stopNext (s : State V) : Option (State V) :=
  match s.stopper with
  | .notCalled =>
    some { s with running := false, stopper := if s.running then .testing else .returned }
  | .testing => some { s with stopper := if s.pendingTasks = 0 then .clearing else .dozing }
  | .dozing => some { s with stopper := .asleep }
  | .asleep => none
  | .clearing => some { s with buffer := s.buffer.clear, stopper := .returned }
  | .returned => none

/-- One step of the system. -/
def step (cfg : ProcessorConfig) (s : State V) : Action V → Option (State V)
  | .start => if s.stopper = .notCalled then some { s with running := true } else none
  | .push batch =>
    some { s with pendingTasks := s.pendingTasks + 1, tasks := s.tasks ++ [{ batch := batch }] }
  | .task i outputs =>
    match s.tasks[i]? with
    | some t => runTask cfg s i t outputs
    | none => none
  | .stop => stopNext s
  | .spurious => if s.stopper = .asleep then some { s with stopper := .testing } else none

/-! ## 4. Quiet after `stop`, and stranded in it -/

/-- The task counts as pending. -/
def TaskPc.pending : TaskPc V → Bool
  | .notifying | .done => false
  | _ => true

/-- The task has seen that the processor is running, and is not finished with its batch. -/
def TaskPc.active : TaskPc V → Bool
  | .ingesting _ | .snapshotting | .resetting _ | .computing _ | .emitting _ => true
  | _ => false

/-- A thread of the pool executes the task. -/
def TaskPc.executing : TaskPc V → Bool
  | .counted | .queued | .done => false
  | _ => true

/-- The task runs the algorithm. -/
def TaskPc.computes : TaskPc V → Bool
  | .computing _ => true
  | _ => false

def State.pendingCount (s : State V) : Nat := s.tasks.countP (·.pc.pending)

/-- **`stop` sleeps, no task is pending and none runs**, so nobody is about to wake it. -/
structure Stranded (s : State V) : Prop where
  asleep : s.stopper = .asleep
  drained : s.pendingTasks = 0
  idle : ∀ t ∈ s.tasks, t.pc.executing = false

/-- **Nothing is buffered and no algorithm runs.** -/
structure Quiet (s : State V) : Prop where
  empty : s.buffer.Empty
  idle : ∀ t ∈ s.tasks, t.pc.computes = false

/-- The task brings the number to zero while `stop` has tested it and is not asleep yet. -/
def slipsThrough (s : State V) (i : Nat) : Bool :=
  match s.tasks[i]? with
  | some ⟨_, .finishing⟩ => decide (s.stopper = .dozing ∧ s.pendingTasks = 1)
  | _ => false

/-- No task slips through, and the number does not wrap around.  A task slips through if it brings
the number to zero between the test of `stop` and its falling asleep. -/
def orderly (s : State V) : Action V → Bool
  | .push _ => decide (s.pendingCount + 1 < 2 ^ 32)
  | .task i _ => !slipsThrough s i
  | _ => true

/-! ## 5. The invariant

`dozing` and `asleep` carry the argument: while `stop` waits, somebody is still to lower the
number, or about to notify. -/

section Invariant

variable {cfg : ProcessorConfig} {s s' : State V}

/-- What holds in every state of an orderly run. -/
structure Inv (s : State V) : Prop where
  counted : s.pendingTasks = BitVec.ofNat 32 s.pendingCount
  few : s.pendingCount < 2 ^ 32
  stopped : s.stopper ≠ .notCalled → s.running = false
  unstarted : s.stopper = .notCalled → s.running = false →
    s.buffer.Empty ∧ ∀ t ∈ s.tasks, t.pc.active = false
  drained : s.stopper = .clearing ∨ s.stopper = .returned → ∀ t ∈ s.tasks, t.pc.active = false
  empty : s.stopper = .returned → s.buffer.Empty
  dozing : s.stopper = .dozing → 0 < s.pendingCount
  asleep : s.stopper = .asleep → 0 < s.pendingCount ∨ ∃ t ∈ s.tasks, t.pc = .notifying

theorem inv_new (cfg : ProcessorConfig) : Inv (State.new cfg : State V) where
  counted := rfl
  few := Nat.two_pow_pos 32
  stopped h := absurd rfl h
  unstarted _ _ := ⟨⟨rfl, rfl, rfl⟩, fun t ht => absurd ht not_mem_nil⟩
  drained h := by rcases h with h | h <;> cases h
  empty h := by cases h
  dozing h := by cases h
  asleep h := by cases h

theorem Inv.pendingTasks_eq (h : Inv s) : s.pendingTasks = 0 ↔ s.pendingCount = 0 := by
  have hfew := h.few
  rw [h.counted]
  constructor
  · intro hzero
    have hnat := congrArg BitVec.toNat hzero
    rw [BitVec.toNat_ofNat, Nat.mod_eq_of_lt hfew] at hnat
    exact hnat
  · intro hzero
    rw [hzero]
    rfl

theorem entered_pending (running : Bool) (batch : EventBatch V) :
    (entered running batch).pending = true := by
  obtain ⟨metadata, payload⟩ := batch
  cases running <;> cases payload <;> rfl

theorem entered_active {running : Bool} {batch : EventBatch V}
    (h : (entered running batch).active = true) : running = true := by
  cases running with
  | true => rfl
  | false => cases h

variable {i : Nat}

theorem Inv.move (h : Inv s) {t : Task V} (hi : s.tasks[i]? = some t) {pc : TaskPc V}
    (hold : t.pc.pending = true) (hnew : pc.pending = true)
    (hactive : pc.active = true → t.pc.active = true ∨ s.running = true) {buffer : InputBuffer V}
    (hbuffer : buffer = s.buffer ∨ t.pc.active = true) (emitted : List (String × BatchPayload V)) :
    Inv { s.setTask i t pc with buffer := buffer, emitted := emitted } := by
  have hmem := mem_of_getElem? hi
  have hcount : (s.tasks.set i { t with pc := pc }).countP (·.pc.pending) = s.pendingCount :=
    countP_replace_same hi (hnew.trans hold.symm)
  have hidle : s.running = false → (∀ x ∈ s.tasks, x.pc.active = false) →
      ∀ x ∈ s.tasks.set i { t with pc := pc }, x.pc.active = false := by
    intro hrunning hall x hx
    rcases mem_replace hx with rfl | hx
    · by_contra hne
      rcases hactive (eq_true_of_ne_false hne) with hact | hrun
      · exact absurd (hact.symm.trans (hall t hmem)) Bool.noConfusion
      · exact absurd (hrun.symm.trans hrunning) Bool.noConfusion
    · exact hall x hx
  have hkept : (∀ x ∈ s.tasks, x.pc.active = false) → buffer = s.buffer := fun hall =>
    hbuffer.resolve_right fun hact => absurd (hact.symm.trans (hall t hmem)) Bool.noConfusion
  refine ⟨?_, ?_, h.stopped, fun hcall hrun => ?_, fun hpc => ?_, fun hpc => ?_, fun hpc => ?_,
    fun hpc => ?_⟩
  · exact h.counted.trans (congrArg _ hcount.symm)
  · exact Nat.lt_of_le_of_lt (Nat.le_of_eq hcount) h.few
  · obtain ⟨hempty, hall⟩ := h.unstarted hcall hrun
    exact ⟨hkept hall ▸ hempty, hidle hrun hall⟩
  · have hcall : s.stopper ≠ .notCalled := by
      rintro hcall
      rcases hpc with hpc | hpc <;> exact absurd (hcall.symm.trans hpc) StopPc.noConfusion
    exact hidle (h.stopped hcall) (h.drained hpc)
  · exact hkept (h.drained (.inr hpc)) ▸ h.empty hpc
  · exact Nat.lt_of_lt_of_eq (h.dozing hpc) hcount.symm
  · rcases h.asleep hpc with hpos | ⟨x, hx, hnotify⟩
    · exact .inl (Nat.lt_of_lt_of_eq hpos hcount.symm)
    · rcases stays_replace hi { t with pc := pc } hx with rfl | hstays
      · rw [hnotify] at hold
        cases hold
      · exact .inr ⟨x, hstays, hnotify⟩

theorem Inv.finish (h : Inv s) {t : Task V} (hi : s.tasks[i]? = some t) (hpc : t.pc = .finishing)
    (hslip : ¬ (s.stopper = .dozing ∧ s.pendingTasks = 1)) :
    Inv { s.setTask i t (if s.pendingTasks - 1 = 0 then .notifying else .done) with
      pendingTasks := s.pendingTasks - 1 } := by
  generalize hnext : (if s.pendingTasks - 1 = 0 then TaskPc.notifying else TaskPc.done) = next
  have hout : next.pending = false ∧ next.active = false := by
    rw [← hnext]
    split <;> exact ⟨rfl, rfl⟩
  have hcount : (s.tasks.set i { t with pc := next }).countP (·.pc.pending) + 1 =
      s.pendingCount := by
    have hchange := countP_replace hi { t with pc := next } (·.pc.pending)
    rw [hout.1, hpc] at hchange
    exact hchange
  generalize hleft : (s.tasks.set i { t with pc := next }).countP (·.pc.pending) = left at hcount
  have hnumber : s.pendingTasks - 1 = BitVec.ofNat 32 left := by
    rw [h.counted, ← hcount]
    apply BitVec.eq_of_toNat_eq
    have hone : (1 : BitVec 32).toNat = 1 := rfl
    rw [BitVec.toNat_sub, BitVec.toNat_ofNat, BitVec.toNat_ofNat, hone]
    omega
  have hidle : (∀ x ∈ s.tasks, x.pc.active = false) →
      ∀ x ∈ s.tasks.set i { t with pc := next }, x.pc.active = false := by
    intro hall x hx
    rcases mem_replace hx with rfl | hx
    · exact hout.2
    · exact hall x hx
  have hfew : left < 2 ^ 32 := Nat.lt_trans (hcount ▸ Nat.lt_succ_self left) h.few
  refine ⟨hnumber.trans (congrArg _ hleft.symm), Nat.lt_of_le_of_lt (Nat.le_of_eq hleft) hfew, h.stopped,
    fun hcall hrun => ?_, fun hstop => hidle (h.drained hstop), h.empty, fun hdozing => ?_,
    fun hasleep => ?_⟩
  · obtain ⟨hempty, hall⟩ := h.unstarted hcall hrun
    exact ⟨hempty, hidle hall⟩
  · refine Nat.lt_of_lt_of_eq (Nat.pos_of_ne_zero fun hzero => hslip ⟨hdozing, ?_⟩) hleft.symm
    rw [h.counted, ← hcount, hzero]
    rfl
  · by_cases hzero : left = 0
    · refine .inr ⟨_, new_replace hi _, ?_⟩
      rw [← hnext, hnumber, hzero]
      rfl
    · exact .inl (Nat.lt_of_lt_of_eq (Nat.pos_of_ne_zero hzero) hleft.symm)

/-- A task wakes `stop`. -/
theorem Inv.notify (h : Inv s) {t : Task V} (hi : s.tasks[i]? = some t) (hpc : t.pc = .notifying) :
    Inv { s.setTask i t .done with stopper := s.stopper.wake } := by
  have hcount : (s.tasks.set i { t with pc := .done }).countP (·.pc.pending) = s.pendingCount :=
    countP_replace_same hi (by rw [hpc]; rfl)
  have hidle : (∀ x ∈ s.tasks, x.pc.active = false) →
      ∀ x ∈ s.tasks.set i { t with pc := .done }, x.pc.active = false := by
    intro hall x hx
    rcases mem_replace hx with rfl | hx
    · rfl
    · exact hall x hx
  have hwake : s.stopper.wake ≠ .asleep ∧
      ∀ pc, pc ≠ .testing → s.stopper.wake = pc → s.stopper = pc := by
    refine ⟨?_, fun pc hne hwoken => ?_⟩
    · cases s.stopper <;> exact StopPc.noConfusion
    · rw [StopPc.wake] at hwoken
      split at hwoken
      · exact absurd hwoken.symm hne
      · exact hwoken
  refine ⟨h.counted.trans (congrArg _ hcount.symm), Nat.lt_of_le_of_lt (Nat.le_of_eq hcount) h.few,
    fun hcall => h.stopped fun hpc => hcall ?_, fun hcall hrun => ?_, fun hstop => ?_,
    fun hstop => ?_, fun hstop => ?_, fun hstop => absurd hstop hwake.1⟩
  · rw [hpc]
    rfl
  · obtain ⟨hempty, hall⟩ := h.unstarted (hwake.2 _ StopPc.noConfusion hcall) hrun
    exact ⟨hempty, hidle hall⟩
  · exact hidle (h.drained (hstop.imp (hwake.2 _ StopPc.noConfusion)
      (hwake.2 _ StopPc.noConfusion)))
  · exact h.empty (hwake.2 _ StopPc.noConfusion hstop)
  · exact Nat.lt_of_lt_of_eq (h.dozing (hwake.2 _ StopPc.noConfusion hstop)) hcount.symm

variable {outputs : Option (List (BatchPayload V))}

/-- What `step` does for a task. -/
theorem task_cases (hs : step cfg s (.task i outputs) = some s') :
    ∃ t, s.tasks[i]? = some t ∧ runTask cfg s i t outputs = some s' := by
  simp only [step] at hs
  cases hi : s.tasks[i]? with
  | none => simp [hi] at hs
  | some t => exact ⟨t, rfl, by simpa [hi] using hs⟩

/-- **A task keeps the invariant**, if it does not slip through. -/
theorem Inv.task (h : Inv s) (hok : slipsThrough s i = false)
    (hs : step cfg s (.task i outputs) = some s') : Inv s' := by
  obtain ⟨t, hi, hs⟩ := task_cases hs
  unfold runTask at hs
  cases hpc : t.pc with
  | counted =>
    rw [hpc] at hs
    obtain rfl := some.inj hs
    exact h.move hi (by rw [hpc]; rfl) rfl (fun hact => by cases hact) (.inl rfl) _
  | queued =>
    rw [hpc] at hs
    obtain rfl := some.inj hs
    exact h.move hi (by rw [hpc]; rfl) (entered_pending s.running t.batch)
      (fun hact => .inr (entered_active hact)) (.inl rfl) _
  | ingesting payload =>
    rw [hpc] at hs
    obtain rfl := some.inj hs
    have hact : t.pc.active = true := by rw [hpc]; rfl
    refine h.move hi (by rw [hpc]; rfl) ?_ (fun _ => .inl hact) (.inr hact) _
    split <;> rfl
  | snapshotting =>
    rw [hpc] at hs
    obtain rfl := some.inj hs
    have hact : t.pc.active = true := by rw [hpc]; rfl
    refine h.move hi (by rw [hpc]; rfl) ?_ (fun _ => .inl hact) (.inr hact) _
    cases s.buffer.trySnapshot cfg.trigger <;> rfl
  | resetting snapshot =>
    rw [hpc] at hs
    obtain rfl := some.inj hs
    have hact : t.pc.active = true := by rw [hpc]; rfl
    exact h.move hi (by rw [hpc]; rfl) rfl (fun _ => .inl hact) (.inr hact) _
  | computing snapshot =>
    rw [hpc] at hs
    obtain rfl := some.inj hs
    have hact : t.pc.active = true := by rw [hpc]; rfl
    refine h.move hi (by rw [hpc]; rfl) ?_ (fun _ => .inl hact) (.inr hact) _
    cases outputs <;> rfl
  | emitting outputs =>
    rw [hpc] at hs
    have hact : t.pc.active = true := by rw [hpc]; rfl
    cases outputs with
    | nil =>
      obtain rfl := some.inj hs
      exact h.move hi (by rw [hpc]; rfl) rfl (fun _ => .inl hact) (.inr hact) _
    | cons payload rest =>
      obtain rfl := some.inj hs
      exact h.move hi (by rw [hpc]; rfl) rfl (fun _ => .inl hact) (.inr hact) _
  | finishing =>
    rw [hpc] at hs
    obtain rfl := some.inj hs
    refine h.finish hi hpc fun hslip => ?_
    obtain ⟨batch, pc⟩ := t
    obtain rfl : pc = .finishing := hpc
    rw [slipsThrough, hi] at hok
    exact of_decide_eq_false hok hslip
  | notifying =>
    rw [hpc] at hs
    obtain rfl := some.inj hs
    exact h.notify hi hpc
  | done =>
    rw [hpc] at hs
    cases hs

theorem Inv.push (h : Inv s) (batch : EventBatch V) (hok : s.pendingCount + 1 < 2 ^ 32) :
    Inv { s with pendingTasks := s.pendingTasks + 1, tasks := s.tasks ++ [{ batch := batch }] } := by
  have hcount : (s.tasks ++ [({ batch := batch } : Task V)]).countP (·.pc.pending) =
      s.pendingCount + 1 := by
    rw [countP_append]
    rfl
  have hidle : (∀ x ∈ s.tasks, x.pc.active = false) →
      ∀ x ∈ s.tasks ++ [({ batch := batch } : Task V)], x.pc.active = false := by
    intro hall x hx
    rcases mem_append.mp hx with hx | hx
    · exact hall x hx
    · rw [mem_singleton.mp hx]
      rfl
  have hpos : 0 < (s.tasks ++ [({ batch := batch } : Task V)]).countP (·.pc.pending) :=
    hcount ▸ Nat.succ_pos _
  refine ⟨?_, Nat.lt_of_le_of_lt (Nat.le_of_eq hcount) hok, h.stopped, fun hcall hrun => ?_,
    fun hpc => hidle (h.drained hpc), h.empty, fun _ => hpos, fun _ => .inl hpos⟩
  · refine Eq.trans ?_ (congrArg _ hcount.symm)
    rw [h.counted, BitVec.ofNat_add]
    rfl
  · obtain ⟨hempty, hall⟩ := h.unstarted hcall hrun
    exact ⟨hempty, hidle hall⟩

theorem Inv.start (h : Inv s) (hpc : s.stopper = .notCalled) : Inv { s with running := true } :=
  ⟨h.counted, h.few, fun hcall => absurd hpc hcall, fun _ hrun => Bool.noConfusion hrun, h.drained,
    h.empty, h.dozing, h.asleep⟩

/-- `stop` goes on. -/
theorem Inv.stopTo (h : Inv s) {running : Bool} (hrun : running = false) {pc : StopPc}
    (hcall : pc ≠ .notCalled) {buffer : InputBuffer V}
    (hdrained : pc = .clearing ∨ pc = .returned → ∀ t ∈ s.tasks, t.pc.active = false)
    (hempty : pc = .returned → buffer.Empty)
    (hpending : pc = .dozing ∨ pc = .asleep → 0 < s.pendingCount) :
    Inv { s with buffer := buffer, running := running, stopper := pc } :=
  ⟨h.counted, h.few, fun _ => hrun, fun hpc => absurd hpc hcall, hdrained, hempty,
    fun hpc => hpending (.inl hpc), fun hpc => .inl (hpending (.inr hpc))⟩

/-- `stop` keeps the invariant. -/
theorem Inv.stop (h : Inv s) (hs : stopNext s = some s') : Inv s' := by
  unfold stopNext at hs
  cases hpc : s.stopper with
  | notCalled =>
    rw [hpc] at hs
    obtain rfl := some.inj hs
    cases hrun : s.running with
    | true =>
      refine h.stopTo rfl ?_ (fun hpc => ?_) (fun hpc => ?_) fun hpc => ?_
      · exact StopPc.noConfusion
      · rcases hpc with hpc | hpc <;> cases hpc
      · cases hpc
      · rcases hpc with hpc | hpc <;> cases hpc
    | false =>
      -- it was never started
      obtain ⟨hempty, hall⟩ := h.unstarted hpc hrun
      refine h.stopTo rfl StopPc.noConfusion (fun _ => hall) (fun _ => hempty) fun hpc => ?_
      rcases hpc with hpc | hpc <;> cases hpc
  | testing =>
    rw [hpc] at hs
    obtain rfl := some.inj hs
    have hrun : s.running = false := h.stopped (hpc ▸ StopPc.noConfusion)
    by_cases hzero : s.pendingTasks = 0
    · rw [if_pos hzero]
      refine h.stopTo hrun StopPc.noConfusion (fun _ t ht => ?_) (fun hpc => ?_) fun hpc => ?_
      · have hnone := countP_eq_zero.mp (h.pendingTasks_eq.mp hzero) t ht
        revert hnone
        cases t.pc <;> simp [TaskPc.pending, TaskPc.active]
      · cases hpc
      · rcases hpc with hpc | hpc <;> cases hpc
    · rw [if_neg hzero]
      refine h.stopTo hrun StopPc.noConfusion (fun hpc => ?_) (fun hpc => ?_) fun _ => ?_
      · rcases hpc with hpc | hpc <;> cases hpc
      · cases hpc
      · exact Nat.pos_of_ne_zero fun hnone => hzero (h.pendingTasks_eq.mpr hnone)
  | dozing =>
    rw [hpc] at hs
    obtain rfl := some.inj hs
    refine h.stopTo (h.stopped (hpc ▸ StopPc.noConfusion)) StopPc.noConfusion (fun hpc => ?_)
      (fun hpc => ?_) fun _ => h.dozing hpc
    · rcases hpc with hpc | hpc <;> cases hpc
    · cases hpc
  | asleep =>
    rw [hpc] at hs
    cases hs
  | clearing =>
    rw [hpc] at hs
    obtain rfl := some.inj hs
    refine h.stopTo (h.stopped (hpc ▸ StopPc.noConfusion)) StopPc.noConfusion
      (fun _ => h.drained (.inl hpc)) (fun _ => s.buffer.empty_clear) fun hpc => ?_
    rcases hpc with hpc | hpc <;> cases hpc
  | returned =>
    rw [hpc] at hs
    cases hs

theorem Inv.spurious (h : Inv s) (hpc : s.stopper = .asleep) :
    Inv { s with stopper := .testing } := by
  refine h.stopTo (h.stopped (hpc ▸ StopPc.noConfusion)) StopPc.noConfusion (fun hpc => ?_)
    (fun hpc => ?_) fun hpc => ?_
  · rcases hpc with hpc | hpc <;> cases hpc
  · cases hpc
  · rcases hpc with hpc | hpc <;> cases hpc

/-- **An orderly step keeps the invariant.** -/
theorem Inv.step {a : Action V} (h : Inv s) (hok : orderly s a = true)
    (hs : step cfg s a = some s') : Inv s' := by
  cases a with
  | start =>
    rw [Processor.step] at hs
    split at hs
    · rename_i hpc
      obtain rfl := some.inj hs
      exact h.start hpc
    · cases hs
  | push batch =>
    obtain rfl := some.inj hs
    exact h.push batch (of_decide_eq_true hok)
  | task i outputs => exact h.task (by simpa [orderly] using hok) hs
  | stop => exact h.stop hs
  | spurious =>
    rw [Processor.step] at hs
    split at hs
    · rename_i hpc
      obtain rfl := some.inj hs
      exact h.spurious hpc
    · cases hs

/-- **Every orderly run keeps the invariant.** -/
theorem inv_run (cfg : ProcessorConfig)
    (hrun : Runs (Processor.step cfg) (orderly · ·) (State.new cfg) s) : Inv s :=
  hrun.keeps (fun _ _ _ h hok hs => h.step hok hs) (inv_new cfg)

/-- What keeps `stop` from its wake-up would have to be executing. -/
theorem Inv.not_stranded (h : Inv s) : ¬ Stranded s := by
  intro hstranded
  rcases h.asleep hstranded.asleep with hpos | ⟨t, ht, hnotify⟩
  · exact Nat.ne_of_gt hpos (h.pendingTasks_eq.mp hstranded.drained)
  · have hidle := hstranded.idle t ht
    rw [hnotify] at hidle
    cases hidle

theorem Inv.quiet (h : Inv s) (hpc : s.stopper = .returned) : Quiet s := by
  refine ⟨h.empty hpc, fun t ht => ?_⟩
  have hidle := h.drained (.inr hpc) t ht
  revert hidle
  cases t.pc <;> simp [TaskPc.active, TaskPc.computes]

/-! ## 6. Stop and drain -/

/-- **In an orderly run `stop` is never stranded, and after it returned all is quiet**: it is not
left asleep without pending tasks, nothing is buffered any more and no algorithm runs.  No task may
bring the number of pending ones to zero while `stop` is dozing, for its notify would be lost
(`stranded_reachable`), and they are always fewer than 2^32. -/
theorem drained_of_orderly (cfg : ProcessorConfig) {s : State V}
    (hrun : Runs (Processor.step cfg) (orderly · ·) (State.new cfg) s) :
    ¬ Stranded s ∧ (s.stopper = .returned → Quiet s) :=
  ⟨(inv_run cfg hrun).not_stranded, (inv_run cfg hrun).quiet⟩

end Invariant

/-- A processor without algorithm output. -/
def plainProcessor : ProcessorConfig := { name := "p" }

def plainBatch : EventBatch Nat :=
  { payload := .timeSeries { rootSourceName := "a", frames := [{ timestamps := [⟨1, 0⟩] }] } }

/-- The next so many things of the first task. -/
def taskSteps (n : Nat) : List (Action Nat) := List.replicate n (.task 0 none)

/-- `stop` falls asleep beside a pending batch, and the task that finishes it wakes `stop`. -/
theorem drained_plain : ∃ s : State Nat,
    Runs (Processor.step plainProcessor) (orderly · ·) (State.new plainProcessor) s ∧
      s.stopper = .returned ∧ Quiet s :=
  have hrun : Runs (Processor.step plainProcessor) (orderly · ·) (State.new plainProcessor) _ :=
    Runs.of_exec ([.start, .push plainBatch] ++ taskSteps 6 ++ [.stop, .stop, .stop] ++
      taskSteps 2 ++ [.stop, .stop]) rfl
  ⟨_, hrun, rfl, (drained_of_orderly plainProcessor hrun).2 rfl⟩

/-- **`stop` can sleep for ever**: the last task brings the number to zero after the test. -/
theorem stranded_reachable :
    ¬ ∀ s : State Nat, Runs (Processor.step plainProcessor) anyStep (State.new plainProcessor) s →
      ¬ Stranded s := by
  intro hall
  have hrun : Runs (Processor.step plainProcessor) anyStep (State.new plainProcessor) _ :=
    Runs.of_exec ([.start, .push plainBatch] ++ taskSteps 6 ++ [.stop, .stop] ++
      taskSteps 2 ++ [.stop]) rfl
  refine hall _ hrun ⟨rfl, rfl, fun t ht => ?_⟩
  obtain rfl := mem_singleton.mp ht
  rfl

end MldpDriver.Processor
