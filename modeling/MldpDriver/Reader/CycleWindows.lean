/-
# Every PV with the window of its cycle

A worker reads the window of the cycle when it wakes and keeps it until it finds the queue empty.  A
worker that is still fetching when the next poll comes takes PVs of the new cycle with the window of
the old one: they are fetched twice for the old window and not for the new.

The queue is always empty when it is filled, since the coordinator takes from it as well.
-/
import MldpDriver.Reader.PeriodicTail

namespace MldpDriver.Reader.PeriodicTail

open Lib.Replace Lib.Run List

variable {cfg : Config} {s s' : State}

/-! ## 1. Cycles in order, and nobody asleep for ever

`CyclesOk` says that every PV is fetched with the window of the cycle that queued it, that the
cycles before the present one are fetched whole, and that nobody sleeps once `stopWorkers` has
notified. -/

/-- About to sleep or asleep until the next cycle. -/
def Pc.sleepsCycle : Pc → Bool
  | .dozing | .asleep => true
  | _ => false

/-- About to sleep or asleep for the poll interval. -/
def Pc.sleepsPoll : Pc → Bool
  | .pollDozing | .pollAsleep => true
  | _ => false

/-- `stopWorkers` has notified `worker_cv_`. -/
def StopPc.pollsNotified : StopPc → Bool
  | .notifyCycle | .joining | .returned => true
  | _ => false

/-- `stopWorkers` has notified `cycle_cv_`. -/
def StopPc.cyclesNotified : StopPc → Bool
  | .joining | .returned => true
  | _ => false

/-- The PVs of a cycle that were taken from the queue. -/
def fetchedIn (s : State) (cycle : Nat) : List String :=
  (s.fetched.filter fun f => f.cycle == cycle).map (·.pv)

/-- **Every PV has the window of its cycle, no PV of a cycle is left out, and nobody misses that
`stopWorkers` notified.** -/
structure CyclesOk (cfg : Config) (s : State) : Prop where
  window : ∀ f ∈ s.fetched, ∃ w, s.windows[f.cycle]? = some w ∧ f.window = some w
  past : ∀ k, k + 1 < s.populates → (fetchedIn s k).Perm cfg.pvNames
  present : ∀ k, k + 1 = s.populates →
    (fetchedIn s k ++ s.queue.map (·.2)).Perm cfg.pvNames ∧ ∀ e ∈ s.queue, e.1 = k
  polls : s.stopper.pollsNotified = true → ∀ t ∈ s.workers, t.pc.sleepsPoll = false
  cycles : s.stopper.cyclesNotified = true → ∀ t ∈ s.workers, t.pc.sleepsCycle = false

/-- The window with which a worker takes PVs from the queue. -/
def Pc.held : Pc → Option (Option Window)
  | .looping w | .popping w | .fetching w => some w
  | _ => none

/-- The queue is filled when every window held is the present one, and `stopWorkers` notifies when
nobody is about to sleep. -/
def inTime (s : State) : Action → Bool
  | .run i =>
    match s.workers[i]? with
    | some t =>
      decide (t.pc ≠ .populate) ||
        s.workers.all fun u => decide (u.pc.held = none ∨ u.pc.held = some s.window)
    | none => true
  | .stop =>
    match s.stopper with
    | .notifyWorkers => s.workers.all fun t => decide (t.pc ≠ .pollDozing)
    | .notifyCycle => s.workers.all fun t => decide (t.pc ≠ .dozing)
    | _ => true
  | _ => true

/-! ## 2. What a worker does -/

/-- What only the coordinator does. -/
def Pc.coordinates : Pc → Bool
  | .setWindow | .populate | .announce | .notify | .pollTesting | .pollDozing | .pollAsleep => true
  | _ => false

/-- Where the coordinator is between two cycles. -/
def Pc.rests : Pc → Bool
  | .check | .pollTesting | .pollDozing | .pollAsleep => true
  | _ => false

/-- Where it prepares a cycle. -/
def Pc.prepares : Pc → Bool
  | .setWindow | .populate => true
  | _ => false

theorem coordinates_of_prepares {pc : Pc} (h : pc.prepares = true) : pc.coordinates = true := by
  cases pc with
  | setWindow => rfl
  | populate => rfl
  | _ => cases h

/-- A move that changes neither window nor queue. -/
structure Quiet (s : State) (i : Nat) (pc pc' : Pc) : Prop where
  before : pc ≠ .populate
  after : pc' ≠ .populate
  coordinates : pc'.coordinates = true → pc.coordinates = true ∨ i = 0
  rests : pc'.rests = true → i = 0 → pc.rests = true ∨ s.running = false ∨ s.queue = []
  prepares : pc'.prepares = true → pc.rests = true ∧ s.running = true ∧ i = 0
  held : ∀ w, pc'.held = some w → pc.held = some w ∨ s.window = w
  sleepsPoll : pc'.sleepsPoll = true → pc.sleepsPoll = true ∨ s.running = true
  sleepsCycle : pc'.sleepsCycle = true → pc.sleepsCycle = true ∨ s.running = true

/-- What a worker that goes on does. -/
inductive Effect (cfg : Config) (s : State) (i : Nat) (t : Worker) : State → Prop
  | quiet (t' : Worker) (cycleReady : Nat) (h : Quiet s i t.pc t'.pc) :
    Effect cfg s i t { s.setWorker i t' with cycleReady := cycleReady }
  | setWindow (hpc : t.pc = .setWindow) :
    Effect cfg s i t
      { s.setWorker i { t with pc := .populate } with
        window := some (nextWindow cfg s)
        windows := s.windows ++ [nextWindow cfg s]
        previousIterationEnd := some s.now }
  | populate (hpc : t.pc = .populate) :
    Effect cfg s i t
      { s.setWorker i { t with pc := .announce } with
        queue := cfg.pvNames.map fun pv => (s.populates, pv)
        populates := s.populates + 1 }
  | notify (hpc : t.pc = .notify) :
    Effect cfg s i t
      { s with workers := (s.workers.map wakeCycle).set i { t with pc := .testing } }
  | pop (window : Option Window) (hpc : t.pc = .popping window) (cycle : Nat) (pv : String)
      (rest : List (Nat × String)) (hqueue : s.queue = (cycle, pv) :: rest) :
    Effect cfg s i t
      { s.setWorker i { t with pc := .fetching window } with
        queue := rest
        fetched := s.fetched ++ [⟨cycle, pv, window⟩] }

theorem quiet_afterQueue {i : Nat} {pc : Pc} (hpc : pc ≠ .populate)
    (hrests : s.running = false ∨ s.queue = []) : Quiet s i pc (afterQueue i) := by
  rw [afterQueue]
  split
  · next hi =>
    exact ⟨hpc, nofun, fun _ => .inr hi, fun _ _ => .inr hrests, nofun, nofun, nofun, nofun⟩
  · next hi => exact ⟨hpc, nofun, nofun, fun _ h => absurd h hi, nofun, nofun, nofun, nofun⟩

variable {t : Worker}

/-- **What a worker does, once for all.** -/
theorem run_effect {i : Nat} (h : runWorker cfg s i t = some s') :
    Effect cfg s i t s' := by
  obtain ⟨pc, seen⟩ := t
  cases pc with
  | check =>
    obtain rfl := Option.some.inj h
    refine .quiet _ s.cycleReady ?_
    cases hrunning : s.running with
    | false => exact ⟨nofun, nofun, nofun, nofun, nofun, nofun, nofun, nofun⟩
    | true =>
      by_cases hi : i = 0
      · rw [if_pos rfl, if_pos hi]
        exact ⟨nofun, nofun, fun _ => .inr hi, nofun, fun _ => ⟨rfl, hrunning, hi⟩, nofun, nofun, nofun⟩
      · rw [if_pos rfl, if_neg hi]
        exact ⟨nofun, nofun, nofun, nofun, nofun, nofun, nofun, nofun⟩
  | setWindow =>
    obtain ⟨-, h⟩ := Option.ite_none_right_eq_some.mp h
    obtain rfl := Option.some.inj h
    exact .setWindow rfl
  | populate =>
    obtain rfl := Option.some.inj h
    exact .populate rfl
  | announce =>
    obtain rfl := Option.some.inj h
    exact .quiet _ _ ⟨nofun, nofun, fun _ => .inl rfl, nofun, nofun, nofun, nofun, nofun⟩
  | notify =>
    obtain rfl := Option.some.inj h
    exact .notify rfl
  | testing =>
    obtain ⟨-, h⟩ := Option.ite_none_right_eq_some.mp h
    split at h
    · next hrunning =>
      split at h
      · obtain rfl := Option.some.inj h
        exact .quiet _ s.cycleReady ⟨nofun, nofun, nofun, nofun, nofun, nofun, nofun, nofun⟩
      · obtain rfl := Option.some.inj h
        exact .quiet _ s.cycleReady
          ⟨nofun, nofun, nofun, nofun, nofun, nofun, nofun, fun _ => .inr hrunning⟩
    · obtain rfl := Option.some.inj h
      exact .quiet _ s.cycleReady ⟨nofun, nofun, nofun, nofun, nofun, nofun, nofun, nofun⟩
  | dozing =>
    obtain rfl := Option.some.inj h
    exact .quiet _ s.cycleReady
      ⟨nofun, nofun, nofun, nofun, nofun, nofun, nofun, fun _ => .inl rfl⟩
  | reading =>
    obtain ⟨-, h⟩ := Option.ite_none_right_eq_some.mp h
    obtain rfl := Option.some.inj h
    exact .quiet _ s.cycleReady
      ⟨nofun, nofun, nofun, nofun, nofun, fun w hw => .inr (Option.some.inj hw), nofun, nofun⟩
  | looping window =>
    obtain rfl := Option.some.inj h
    refine .quiet _ s.cycleReady ?_
    cases hrunning : s.running with
    | true =>
      rw [if_pos rfl]
      exact ⟨nofun, nofun, nofun, nofun, nofun, fun w hw => .inl hw, nofun, nofun⟩
    | false => exact quiet_afterQueue nofun (.inl hrunning)
  | popping window =>
    cases hqueue : s.queue with
    | nil =>
      simp only [runWorker, hqueue] at h
      obtain rfl := Option.some.inj h
      exact .quiet _ s.cycleReady (quiet_afterQueue nofun (.inr hqueue))
    | cons e rest =>
      simp only [runWorker, hqueue] at h
      obtain rfl := Option.some.inj h
      exact .pop window rfl e.1 e.2 rest hqueue
  | fetching window =>
    obtain rfl := Option.some.inj h
    exact .quiet _ s.cycleReady
      ⟨nofun, nofun, nofun, nofun, nofun, fun w hw => .inl hw, nofun, nofun⟩
  | pollTesting =>
    obtain rfl := Option.some.inj h
    refine .quiet _ s.cycleReady ?_
    cases hrunning : s.running with
    | true =>
      rw [if_pos rfl]
      exact ⟨nofun, nofun, fun _ => .inl rfl, fun _ _ => .inl rfl, nofun, nofun,
        fun _ => .inr hrunning, nofun⟩
    | false =>
      exact ⟨nofun, nofun, nofun, fun _ _ => .inl rfl, nofun, nofun, nofun, nofun⟩
  | pollDozing =>
    obtain rfl := Option.some.inj h
    exact .quiet _ s.cycleReady
      ⟨nofun, nofun, fun _ => .inl rfl, fun _ _ => .inl rfl, nofun, nofun, fun _ => .inl rfl, nofun⟩
  | asleep => cases h
  | pollAsleep => cases h
  | exited => cases h

theorem quiet_notify {i : Nat} {pc : Pc} (h : pc = .notify) : Quiet s i pc .testing := by
  rw [h]
  exact ⟨nofun, nofun, nofun, nofun, nofun, nofun, nofun, nofun⟩

theorem quiet_spuriously {i : Nat} {pc pc' : Pc} (h : spuriously pc = some pc') :
    Quiet s i pc pc' := by
  cases pc with
  | asleep =>
    obtain rfl := Option.some.inj h
    exact ⟨nofun, nofun, nofun, nofun, nofun, nofun, nofun, nofun⟩
  | pollAsleep =>
    obtain rfl := Option.some.inj h
    exact ⟨nofun, nofun, fun _ => .inl rfl, fun _ _ => .inl rfl, nofun, nofun, nofun, nofun⟩
  | _ => cases h

theorem quiet_timedOut {i : Nat} {pc pc' : Pc} (h : timedOut pc = some pc') : Quiet s i pc pc' := by
  cases pc with
  | pollAsleep =>
    obtain rfl := Option.some.inj h
    exact ⟨nofun, nofun, nofun, fun _ _ => .inl rfl, nofun, nofun, nofun, nofun⟩
  | _ => cases h

theorem quiet_thrown {i : Nat} {pc pc' : Pc} (h : thrown s.running pc = some pc') :
    Quiet s i pc pc' := by
  cases pc with
  | fetching window =>
    obtain ⟨-, h⟩ := Option.ite_none_left_eq_some.mp h
    obtain rfl := Option.some.inj h
    exact ⟨nofun, nofun, nofun, nofun, nofun, nofun, nofun, nofun⟩
  | _ => cases h

/-! ## 3. The invariant

`held` carries the argument: as long as the queue has a PV, nobody goes on with an older window. -/

/-- The windows, the queue and the fetches of the cycles. -/
structure Cycles (cfg : Config) (s : State) : Prop where
  current : s.windows.getLast? = s.window
  counts : s.windows.length = s.populates + s.workers.countP fun t => decide (t.pc = .populate)
  one : ∀ (i : Nat) (t : Worker), s.workers[i]? = some t → t.pc.coordinates = true → i = 0
  rests : ∀ t, s.workers[0]? = some t → t.pc.rests = true → s.running = true → s.queue = []
  prepares : ∀ t ∈ s.workers, t.pc.prepares = true → s.queue = []
  held : ∀ t ∈ s.workers, ∀ w, t.pc.held = some w → s.queue = [] ∨ s.window = w
  queued : ∀ e ∈ s.queue, e.1 + 1 = s.populates
  made : ∀ f ∈ s.fetched, f.cycle < s.populates
  windowed : ∀ f ∈ s.fetched, s.windows[f.cycle]? = f.window
  past : ∀ k, k + 1 < s.populates → (fetchedIn s k).Perm cfg.pvNames
  present : ∀ k, k + 1 = s.populates → (fetchedIn s k ++ s.queue.map (·.2)).Perm cfg.pvNames

/-- What `stopWorkers` has done is known, and who sleeps has not been notified. -/
structure Stops (s : State) : Prop where
  stopped : s.stopper ≠ .notCalled → s.running = false
  polls : s.stopper.pollsNotified = true → ∀ t ∈ s.workers, t.pc.sleepsPoll = false
  cycles : s.stopper.cyclesNotified = true → ∀ t ∈ s.workers, t.pc.sleepsCycle = false

theorem Cycles.aside (h : Cycles cfg s) (cycleReady : Nat) (now : Int) (stopper : StopPc) :
    Cycles cfg { s with cycleReady := cycleReady, now := now, stopper := stopper } :=
  ⟨h.current, h.counts, h.one, h.rests, h.prepares, h.held, h.queued, h.made, h.windowed, h.past,
    h.present⟩

theorem replaced {i j : Nat} {t t' u : Worker} (hi : s.workers[i]? = some t)
    (hj : (s.workers.set i t')[j]? = some u) : (j = i ∧ u = t') ∨ s.workers[j]? = some u := by
  rw [getElem?_replace hi] at hj
  split at hj
  · next hji => exact .inl ⟨hji, (Option.some.inj hj).symm⟩
  · exact .inr hj

/-- **A quiet move keeps the cycles.** -/
theorem Cycles.quiet (h : Cycles cfg s) {i : Nat} {t t' : Worker} (hi : s.workers[i]? = some t)
    (hquiet : Quiet s i t.pc t'.pc) : Cycles cfg (s.setWorker i t') := by
  refine ⟨h.current, ?_, ?_, ?_, ?_, ?_, h.queued, h.made, h.windowed, h.past, h.present⟩
  · have hsame := countP_replace_same (b := t') (f := fun t => decide (t.pc = .populate)) hi
      (by rw [decide_eq_false hquiet.before, decide_eq_false hquiet.after])
    exact h.counts.trans (congrArg (s.populates + ·) hsame.symm)
  · intro j u hj hcoordinates
    rcases replaced hi hj with ⟨rfl, rfl⟩ | hj
    · rcases hquiet.coordinates hcoordinates with hold | hzero
      · exact h.one j t hi hold
      · exact hzero
    · exact h.one j u hj hcoordinates
  · intro u hu hrests hrunning
    rcases replaced hi hu with ⟨rfl, rfl⟩ | hu
    · rcases hquiet.rests hrests rfl with hold | hstopped | hqueue
      · exact h.rests t hi hold hrunning
      · have hrunning : s.running = true := hrunning
        rw [hstopped] at hrunning
        cases hrunning
      · exact hqueue
    · exact h.rests u hu hrests hrunning
  · intro u hu hprepares
    rcases mem_replace hu with rfl | hu
    · obtain ⟨hold, hrunning, rfl⟩ := hquiet.prepares hprepares
      exact h.rests t hi hold hrunning
    · exact h.prepares u hu hprepares
  · intro u hu w hw
    rcases mem_replace hu with rfl | hu
    · rcases hquiet.held w hw with hold | hnow
      · exact h.held t (mem_of_getElem? hi) w hold
      · exact .inr hnow
    · exact h.held u hu w hw

/-- Two places that the cycles do not tell apart. -/
structure Alike (pc pc' : Pc) : Prop where
  populate : pc' = .populate ↔ pc = .populate
  coordinates : pc'.coordinates = pc.coordinates
  rests : pc'.rests = pc.rests
  prepares : pc'.prepares = pc.prepares
  held : pc'.held = pc.held

theorem alike_wakeCycle (t : Worker) : Alike t.pc (wakeCycle t).pc := by
  rw [wakeCycle]
  split
  · next h =>
    rw [h]
    exact ⟨⟨nofun, nofun⟩, rfl, rfl, rfl, rfl⟩
  · exact ⟨Iff.rfl, rfl, rfl, rfl, rfl⟩

theorem alike_wakePoll (t : Worker) : Alike t.pc (wakePoll t).pc := by
  rw [wakePoll]
  split
  · next h =>
    rw [h]
    exact ⟨⟨nofun, nofun⟩, rfl, rfl, rfl, rfl⟩
  · exact ⟨Iff.rfl, rfl, rfl, rfl, rfl⟩

theorem Cycles.map (h : Cycles cfg s) {f : Worker → Worker} (hf : ∀ t, Alike t.pc (f t).pc) :
    Cycles cfg { s with workers := s.workers.map f } := by
  have hget : ∀ (i : Nat) (u : Worker), (s.workers.map f)[i]? = some u →
      ∃ t, s.workers[i]? = some t ∧ u = f t := by
    intro i u hu
    rw [List.getElem?_map] at hu
    obtain ⟨t, ht, rfl⟩ := Option.map_eq_some_iff.mp hu
    exact ⟨t, ht, rfl⟩
  refine ⟨h.current, ?_, ?_, ?_, ?_, ?_, h.queued, h.made, h.windowed, h.past, h.present⟩
  · rw [countP_map, h.counts]
    refine congrArg (s.populates + ·) (countP_congr fun t _ => ?_)
    simp only [Function.comp_apply, decide_eq_true_eq]
    exact (hf t).populate.symm
  · intro i u hu hcoordinates
    obtain ⟨t, ht, rfl⟩ := hget i u hu
    exact h.one i t ht ((hf t).coordinates ▸ hcoordinates)
  · intro u hu hrests hrunning
    obtain ⟨t, ht, rfl⟩ := hget 0 u hu
    exact h.rests t ht ((hf t).rests ▸ hrests) hrunning
  · intro u hu hprepares
    obtain ⟨t, ht, rfl⟩ := mem_map.mp hu
    exact h.prepares t ht ((hf t).prepares ▸ hprepares)
  · intro u hu w hw
    obtain ⟨t, ht, rfl⟩ := mem_map.mp hu
    exact h.held t ht w ((hf t).held ▸ hw)

/-! ## 4. Windows and queue -/

theorem Cycles.setWindow (h : Cycles cfg s) {i : Nat} (hi : s.workers[i]? = some t)
    (hpc : t.pc = .setWindow) :
    Cycles cfg { s.setWorker i { t with pc := .populate } with
      window := some (nextWindow cfg s)
      windows := s.windows ++ [nextWindow cfg s]
      previousIterationEnd := some s.now } := by
  have hqueue : s.queue = [] := h.prepares t (mem_of_getElem? hi) (by rw [hpc]; rfl)
  have hzero : i = 0 := h.one i t hi (by rw [hpc]; rfl)
  refine ⟨List.getLast?_concat, ?_, ?_, fun _ _ _ _ => hqueue, fun _ _ _ => hqueue,
    fun _ _ _ _ => .inl hqueue, h.queued, h.made, ?_, h.past, h.present⟩
  · have hcount := countP_replace hi { t with pc := .populate } fun t => decide (t.pc = .populate)
    have hcounts := h.counts
    simp only [hpc, State.setWorker, length_append, length_singleton, reduceCtorEq,
      decide_false, decide_true, Bool.toNat_false, Bool.toNat_true] at hcount ⊢
    omega
  · intro j u hj hcoordinates
    rcases replaced hi hj with ⟨rfl, -⟩ | hj
    · exact hzero
    · exact h.one j u hj hcoordinates
  · intro f hf
    have hlt : f.cycle < s.windows.length :=
      h.counts ▸ Nat.lt_of_lt_of_le (h.made f hf) (Nat.le_add_right _ _)
    exact (List.getElem?_append_left hlt).trans (h.windowed f hf)

theorem Cycles.populate (h : Cycles cfg s) {i : Nat} (hi : s.workers[i]? = some t)
    (hpc : t.pc = .populate) (hheld : ∀ u ∈ s.workers, u.pc.held = none ∨ u.pc.held = some
    s.window) :
    Cycles cfg { s.setWorker i { t with pc := .announce } with
      queue := cfg.pvNames.map fun pv => (s.populates, pv)
      populates := s.populates + 1 } := by
  have hqueue : s.queue = [] := h.prepares t (mem_of_getElem? hi) (by rw [hpc]; rfl)
  have hzero : i = 0 := h.one i t hi (by rw [hpc]; rfl)
  have hfirst : ∀ u, (s.workers.set i { t with pc := .announce })[0]? = some u →
      u = { t with pc := .announce } := by
    intro u hu
    rw [getElem?_replace hi, if_pos hzero.symm] at hu
    exact (Option.some.inj hu).symm
  refine ⟨h.current, ?_, ?_, ?_, ?_, ?_, ?_, ?_, h.windowed, ?_, ?_⟩
  · have hcount := countP_replace hi { t with pc := .announce } fun t => decide (t.pc = .populate)
    have hcounts := h.counts
    simp only [hpc, State.setWorker, reduceCtorEq, decide_false, decide_true, Bool.toNat_false,
      Bool.toNat_true] at hcount ⊢
    omega
  · intro j u hj hcoordinates
    rcases replaced hi hj with ⟨rfl, -⟩ | hj
    · exact hzero
    · exact h.one j u hj hcoordinates
  · intro u hu hrests _
    rw [hfirst u hu] at hrests
    cases hrests
  · intro u hu hprepares
    obtain ⟨j, hj⟩ := List.getElem?_of_mem hu
    have hj0 : j = 0 := by
      rcases replaced hi hj with ⟨rfl, -⟩ | hj
      · exact hzero
      · exact h.one j u hj (coordinates_of_prepares hprepares)
    rw [hfirst u (hj0 ▸ hj)] at hprepares
    cases hprepares
  · intro u hu w hw
    rcases mem_replace hu with rfl | hu
    · cases hw
    · rcases hheld u hu with hnone | hsome
      · rw [hnone] at hw
        cases hw
      · exact .inr (Option.some.inj (hsome.symm.trans hw))
  · intro e he
    obtain ⟨pv, -, rfl⟩ := mem_map.mp he
    rfl
  · intro f hf
    exact Nat.lt_succ_of_lt (h.made f hf)
  · intro k hk
    rcases Nat.lt_succ_iff_lt_or_eq.mp hk with hk | hk
    · exact h.past k hk
    · have hpresent := h.present k hk
      rwa [hqueue, map_nil, append_nil] at hpresent
  · intro k hk
    obtain rfl : k = s.populates := Nat.succ.inj hk
    have hnone : fetchedIn s s.populates = [] := by
      rw [fetchedIn, map_eq_nil_iff, filter_eq_nil_iff]
      intro f hf hcycle
      exact Nat.ne_of_lt (h.made f hf) (eq_of_beq hcycle)
    have hqueued : (cfg.pvNames.map fun pv => (s.populates, pv)).map (·.2) = cfg.pvNames := by
      rw [map_map]
      exact map_id _
    refine List.Perm.of_eq ?_
    exact (congrArg₂ (· ++ ·) hnone hqueued).trans (nil_append _)

theorem Cycles.pop (h : Cycles cfg s) {i : Nat} (hi : s.workers[i]? = some t)
    {window : Option Window} (hpc : t.pc = .popping window) {cycle : Nat} {pv : String}
    {rest : List (Nat × String)} (hqueue : s.queue = (cycle, pv) :: rest) :
    Cycles cfg { s.setWorker i { t with pc := .fetching window } with
      queue := rest
      fetched := s.fetched ++ [⟨cycle, pv, window⟩] } := by
  have hcycle : cycle + 1 = s.populates := h.queued (cycle, pv) (hqueue ▸ mem_cons_self)
  have hne : s.queue ≠ [] := by
    rw [hqueue]
    exact cons_ne_nil _ _
  have hcount : (s.workers.countP fun t => decide (t.pc = .populate)) = 0 := by
    refine countP_eq_zero.mpr fun u hu hpopulate => hne ?_
    exact h.prepares u hu (by rw [of_decide_eq_true hpopulate]; rfl)
  have hheld : s.window = window :=
    (h.held t (mem_of_getElem? hi) window (by rw [hpc]; rfl)).resolve_left hne
  have hwindow : s.windows[cycle]? = window := by
    have hlength : s.windows.length = cycle + 1 := by
      rw [h.counts, hcount, hcycle, Nat.add_zero]
    rw [← hheld, ← h.current, List.getLast?_eq_getElem?, hlength, Nat.add_sub_cancel]
  have hfetched : ∀ k, fetchedIn { s.setWorker i { t with pc := .fetching window } with
        queue := rest, fetched := s.fetched ++ [⟨cycle, pv, window⟩] } k =
      fetchedIn s k ++ if cycle = k then [pv] else [] := by
    intro k
    by_cases hk : cycle = k <;> simp [fetchedIn, hk]
  refine ⟨h.current, ?_, ?_, ?_, ?_, ?_, ?_, ?_, ?_, ?_, ?_⟩
  · have hsame := countP_replace_same (b := { t with pc := .fetching window })
      (f := fun t => decide (t.pc = .populate)) hi (by rw [hpc]; rfl)
    exact h.counts.trans (congrArg (s.populates + ·) hsame.symm)
  · intro j u hj hcoordinates
    rcases replaced hi hj with ⟨-, rfl⟩ | hj
    · cases hcoordinates
    · exact h.one j u hj hcoordinates
  · intro u hu hrests hrunning
    rcases replaced hi hu with ⟨-, rfl⟩ | hu
    · cases hrests
    · exact absurd (h.rests u hu hrests hrunning) hne
  · intro u hu hprepares
    rcases mem_replace hu with rfl | hu
    · cases hprepares
    · exact absurd (h.prepares u hu hprepares) hne
  · intro u hu w hw
    rcases mem_replace hu with rfl | hu
    · exact .inr (hheld.trans (Option.some.inj hw))
    · exact .inr ((h.held u hu w hw).resolve_left hne)
  · intro e he
    exact h.queued e (hqueue ▸ mem_cons_of_mem _ he)
  · intro f hf
    rcases mem_append.mp hf with hf | hf
    · exact h.made f hf
    · obtain rfl := mem_singleton.mp hf
      exact hcycle ▸ Nat.lt_succ_self cycle
  · intro f hf
    rcases mem_append.mp hf with hf | hf
    · exact h.windowed f hf
    · obtain rfl := mem_singleton.mp hf
      exact hwindow
  · intro k hk
    have hold : cycle ≠ k := by
      rintro rfl
      exact Nat.ne_of_lt hk hcycle
    rw [hfetched, if_neg hold, append_nil]
    exact h.past k hk
  · intro k hk
    obtain rfl : cycle = k := Nat.succ.inj (hcycle.trans hk.symm)
    have hpresent := h.present cycle hk
    rw [hqueue, map_cons] at hpresent
    rw [hfetched, if_pos rfl, append_assoc, singleton_append]
    exact hpresent

/-! ## 5. Every run -/

/-- **A step in time keeps the cycles.** -/
theorem Cycles.step (h : Cycles cfg s) {a : Action} (hok : inTime s a = true)
    (ha : step cfg s a = some s') : Cycles cfg s' := by
  cases a with
  | run i =>
    obtain ⟨t, hi, hrun⟩ := run_cases ha
    cases run_effect hrun with
    | quiet t' cycleReady hquiet => exact (h.quiet hi hquiet).aside cycleReady s.now s.stopper
    | setWindow hpc => exact h.setWindow hi hpc
    | populate hpc =>
      refine h.populate hi hpc ?_
      simp only [inTime, hi, hpc, ne_eq, not_true_eq_false, decide_false, Bool.false_or,
        all_eq_true, decide_eq_true_eq] at hok
      exact hok
    | notify hpc =>
      have hmoved : wakeCycle t = t := by
        rw [wakeCycle, if_neg]
        rw [hpc]
        decide
      have hi' : (s.workers.map wakeCycle)[i]? = some t := by
        rw [List.getElem?_map, hi, Option.map_some, hmoved]
      exact @Cycles.quiet _ _ (h.map alike_wakeCycle) i t { t with pc := .testing } hi'
        (quiet_notify hpc)
    | pop window hpc cycle pv rest hqueue => exact h.pop hi hpc hqueue
  | clock now =>
    obtain rfl := Option.some.inj ha
    exact h.aside s.cycleReady now s.stopper
  | wake i =>
    obtain ⟨t, pc, hi, hpc, rfl⟩ := move_cases ha
    exact h.quiet hi (quiet_spuriously hpc)
  | timeout i =>
    obtain ⟨t, pc, hi, hpc, rfl⟩ := move_cases ha
    exact h.quiet hi (quiet_timedOut hpc)
  | throw_ i =>
    obtain ⟨t, pc, hi, hpc, rfl⟩ := move_cases ha
    exact h.quiet hi (quiet_thrown hpc)
  | stop =>
    rw [PeriodicTail.step, stopNext] at ha
    split at ha
    · obtain rfl := Option.some.inj ha
      exact ⟨h.current, h.counts, h.one, fun _ _ _ hrunning => absurd hrunning Bool.false_ne_true,
        h.prepares, h.held, h.queued, h.made, h.windowed, h.past, h.present⟩
    · obtain rfl := Option.some.inj ha
      exact (h.map alike_wakePoll).aside s.cycleReady s.now .notifyCycle
    · obtain rfl := Option.some.inj ha
      exact (h.map alike_wakeCycle).aside s.cycleReady s.now .joining
    · obtain ⟨-, ha⟩ := Option.ite_none_right_eq_some.mp ha
      obtain rfl := Option.some.inj ha
      exact h.aside s.cycleReady s.now .returned
    · cases ha

theorem StopPc.ne_of_pollsNotified {pc : StopPc} (h : pc.pollsNotified = true) :
    pc ≠ .notCalled := by
  rintro rfl
  cases h

theorem StopPc.ne_of_cyclesNotified {pc : StopPc} (h : pc.cyclesNotified = true) :
    pc ≠ .notCalled := by
  rintro rfl
  cases h

theorem Stops.setWorker (h : Stops s) {i : Nat} {t t' : Worker} (hi : s.workers[i]? = some t)
    (hpoll : t'.pc.sleepsPoll = true → t.pc.sleepsPoll = true ∨ s.running = true)
    (hcycle : t'.pc.sleepsCycle = true → t.pc.sleepsCycle = true ∨ s.running = true) :
    Stops (s.setWorker i t') := by
  have ht : t ∈ s.workers := mem_of_getElem? hi
  refine ⟨h.stopped, ?_, ?_⟩
  · intro hnotified u hu
    rcases mem_replace hu with rfl | hu
    · have hstopped : s.running = false := h.stopped (StopPc.ne_of_pollsNotified hnotified)
      refine Bool.eq_false_iff.mpr fun hsleeps => ?_
      rcases hpoll hsleeps with hold | hrunning
      · exact Bool.eq_false_iff.mp (h.polls hnotified t ht) hold
      · exact Bool.eq_false_iff.mp hstopped hrunning
    · exact h.polls hnotified u hu
  · intro hnotified u hu
    rcases mem_replace hu with rfl | hu
    · have hstopped : s.running = false := h.stopped (StopPc.ne_of_cyclesNotified hnotified)
      refine Bool.eq_false_iff.mpr fun hsleeps => ?_
      rcases hcycle hsleeps with hold | hrunning
      · exact Bool.eq_false_iff.mp (h.cycles hnotified t ht) hold
      · exact Bool.eq_false_iff.mp hstopped hrunning
    · exact h.cycles hnotified u hu

theorem sleeps_wakeCycle (t : Worker) :
    ((wakeCycle t).pc.sleepsPoll = true → t.pc.sleepsPoll = true) ∧
      ((wakeCycle t).pc.sleepsCycle = true → t.pc = .dozing) := by
  rw [wakeCycle]
  split
  · exact ⟨nofun, nofun⟩
  · next h =>
    refine ⟨fun hsleeps => hsleeps, ?_⟩
    intro hsleeps
    cases hpc : t.pc with
    | dozing => rfl
    | asleep => exact absurd hpc h
    | _ =>
      rw [hpc] at hsleeps
      cases hsleeps

theorem sleeps_wakePoll (t : Worker) :
    ((wakePoll t).pc.sleepsPoll = true → t.pc = .pollDozing) ∧
      ((wakePoll t).pc.sleepsCycle = true → t.pc.sleepsCycle = true) := by
  rw [wakePoll]
  split
  · exact ⟨nofun, nofun⟩
  · next h =>
    refine ⟨?_, fun hsleeps => hsleeps⟩
    intro hsleeps
    cases hpc : t.pc with
    | pollDozing => rfl
    | pollAsleep => exact absurd hpc h
    | _ =>
      rw [hpc] at hsleeps
      cases hsleeps

theorem Stops.wakeCycle (h : Stops s) : Stops { s with workers := s.workers.map wakeCycle } := by
  refine ⟨h.stopped, ?_, ?_⟩
  · intro hnotified u hu
    obtain ⟨t, ht, rfl⟩ := mem_map.mp hu
    exact Bool.eq_false_iff.mpr fun hsleeps =>
      Bool.eq_false_iff.mp (h.polls hnotified t ht) ((sleeps_wakeCycle t).1 hsleeps)
  · intro hnotified u hu
    obtain ⟨t, ht, rfl⟩ := mem_map.mp hu
    refine Bool.eq_false_iff.mpr fun hsleeps => ?_
    have hawake := h.cycles hnotified t ht
    rw [(sleeps_wakeCycle t).2 hsleeps] at hawake
    cases hawake

/-- **A step in time leaves nobody asleep who was to be woken.** -/
theorem Stops.step (h : Stops s) {a : Action} (hok : inTime s a = true)
    (ha : step cfg s a = some s') : Stops s' := by
  have hawake : ∀ {p : Prop}, false = true → p := fun h => absurd h Bool.false_ne_true
  cases a with
  | run i =>
    obtain ⟨t, hi, hrun⟩ := run_cases ha
    cases run_effect hrun with
    | quiet t' cycleReady hquiet =>
      have hmoved := h.setWorker hi hquiet.sleepsPoll hquiet.sleepsCycle
      exact ⟨hmoved.stopped, hmoved.polls, hmoved.cycles⟩
    | setWindow hpc =>
      have hmoved : Stops (s.setWorker i { t with pc := .populate }) := h.setWorker hi hawake hawake
      exact ⟨hmoved.stopped, hmoved.polls, hmoved.cycles⟩
    | populate hpc =>
      have hmoved : Stops (s.setWorker i { t with pc := .announce }) := h.setWorker hi hawake hawake
      exact ⟨hmoved.stopped, hmoved.polls, hmoved.cycles⟩
    | notify hpc =>
      have hi' : (s.workers.map PeriodicTail.wakeCycle)[i]? = some (PeriodicTail.wakeCycle t) := by
        rw [List.getElem?_map, hi, Option.map_some]
      exact h.wakeCycle.setWorker hi' hawake hawake
    | pop window hpc cycle pv rest hqueue =>
      have hmoved : Stops (s.setWorker i { t with pc := .fetching window }) :=
        h.setWorker hi hawake hawake
      exact ⟨hmoved.stopped, hmoved.polls, hmoved.cycles⟩
  | clock now =>
    obtain rfl := Option.some.inj ha
    exact ⟨h.stopped, h.polls, h.cycles⟩
  | wake i =>
    obtain ⟨t, pc, hi, hpc, rfl⟩ := move_cases ha
    have hquiet : Quiet s i t.pc pc := quiet_spuriously hpc
    exact h.setWorker hi hquiet.sleepsPoll hquiet.sleepsCycle
  | timeout i =>
    obtain ⟨t, pc, hi, hpc, rfl⟩ := move_cases ha
    have hquiet : Quiet s i t.pc pc := quiet_timedOut hpc
    exact h.setWorker hi hquiet.sleepsPoll hquiet.sleepsCycle
  | throw_ i =>
    obtain ⟨t, pc, hi, hpc, rfl⟩ := move_cases ha
    have hquiet : Quiet s i t.pc pc := quiet_thrown hpc
    exact h.setWorker hi hquiet.sleepsPoll hquiet.sleepsCycle
  | stop =>
    rw [PeriodicTail.step, stopNext] at ha
    split at ha
    · obtain rfl := Option.some.inj ha
      exact ⟨fun _ => rfl, hawake, hawake⟩
    · next hstopper =>
      obtain rfl := Option.some.inj ha
      simp only [inTime, hstopper, all_eq_true, decide_eq_true_eq] at hok
      refine ⟨fun _ => h.stopped (by rw [hstopper]; decide), ?_, hawake⟩
      intro _ u hu
      obtain ⟨t, ht, rfl⟩ := mem_map.mp hu
      exact Bool.eq_false_iff.mpr fun hsleeps => hok t ht ((sleeps_wakePoll t).1 hsleeps)
    · next hstopper =>
      obtain rfl := Option.some.inj ha
      simp only [inTime, hstopper, all_eq_true, decide_eq_true_eq] at hok
      refine ⟨fun _ => h.stopped (by rw [hstopper]; decide), ?_, ?_⟩
      · intro _
        exact h.wakeCycle.polls (by rw [hstopper]; rfl)
      · intro _ u hu
        obtain ⟨t, ht, rfl⟩ := mem_map.mp hu
        exact Bool.eq_false_iff.mpr fun hsleeps => hok t ht ((sleeps_wakeCycle t).2 hsleeps)
    · next hstopper =>
      obtain ⟨-, ha⟩ := Option.ite_none_right_eq_some.mp ha
      obtain rfl := Option.some.inj ha
      exact ⟨fun _ => h.stopped (by rw [hstopper]; decide),
        fun _ => h.polls (by rw [hstopper]; rfl), fun _ => h.cycles (by rw [hstopper]; rfl)⟩
    · cases ha

theorem cycles_started (cfg : Config) (fetchThreads : Nat) : Cycles cfg (started fetchThreads) where
  current := rfl
  counts := by
    have hnone : (started fetchThreads).workers.countP (fun t => decide (t.pc = .populate)) = 0 := by
      refine countP_eq_zero.mpr fun t ht => ?_
      rw [eq_of_mem_replicate ht]
      decide
    rw [hnone]
    rfl
  one i t hi hcoordinates := by
    rw [eq_of_mem_replicate (mem_of_getElem? hi)] at hcoordinates
    cases hcoordinates
  rests _ _ _ _ := rfl
  prepares _ _ _ := rfl
  held _ _ _ _ := .inl rfl
  queued := nofun
  made := nofun
  windowed := nofun
  past := nofun
  present := nofun

theorem stops_started (fetchThreads : Nat) : Stops (started fetchThreads) :=
  ⟨fun h => absurd rfl h, nofun, nofun⟩

theorem Cycles.cyclesOk (h : Cycles cfg s) (hstops : Stops s) : CyclesOk cfg s where
  window f hf := by
    have hlt : f.cycle < s.windows.length :=
      h.counts ▸ Nat.lt_of_lt_of_le (h.made f hf) (Nat.le_add_right _ _)
    exact ⟨s.windows[f.cycle], List.getElem?_eq_getElem hlt,
      ((List.getElem?_eq_getElem hlt).symm.trans (h.windowed f hf)).symm⟩
  past := h.past
  present k hk := by
    refine ⟨h.present k hk, ?_⟩
    intro e he
    exact Nat.succ.inj ((h.queued e he).trans hk.symm)
  polls := hstops.polls
  cycles := hstops.cycles

/-- **Every PV is fetched with the window of its cycle, none is left out, and `stopWorkers` waits
for nobody who sleeps, in every run in time**: the queue is filled when nobody goes on with an
older window, and `stopWorkers` does not notify while somebody is about to sleep.  `cyclesOk_fails`
has a run for each of the two. -/
theorem cyclesOk_of_inTime (cfg : Config) (fetchThreads : Nat)
    (hrun : Runs (step cfg) (fun s a => inTime s a = true) (started fetchThreads) s) :
    CyclesOk cfg s := by
  have hcycles : Cycles cfg s :=
    hrun.keeps (fun _ _ _ h hok ha => h.step hok ha) (cycles_started cfg fetchThreads)
  have hstops : Stops s :=
    hrun.keeps (fun _ _ _ h hok ha => h.step hok ha) (stops_started fetchThreads)
  exact hcycles.cyclesOk hstops

/-- Two PVs, polled every ten seconds. -/
def sampleConfig : Config where
  pvNames := ["A", "B"]
  lookbackSec := 10
  pollIntervalSec := 10

/-- The first cycle of two workers, each with a PV in hand. -/
def firstCycle : List Action :=
  [.run 1, .run 1, .run 1, .clock 20000, .run 0, .run 0, .run 0, .run 0, .run 0, .run 0, .run 0,
    .run 0, .run 0, .run 1, .run 1, .run 1, .run 1]

/-- The coordinator finds the queue empty, rests, and fills it again. -/
def nextPoll : List Action :=
  [.run 0, .run 0, .run 0, .run 0, .run 0, .clock 30000, .timeout 0, .run 0, .run 0, .run 0]

/-- Worker 1 is done before the next poll, and takes a PV of the next cycle; then the reader
stops. -/
def timelyActions : List Action :=
  firstCycle ++ [.run 1, .run 1, .run 1] ++ nextPoll ++
    [.run 1, .run 0, .run 1, .run 1, .run 1, .run 1, .run 0, .stop, .stop, .stop, .throw_ 1,
      .run 0, .stop]

/-- What comes of it. -/
theorem timelyActions_cyclesOk : ∃ s,
    exec (step sampleConfig) (fun s a => inTime s a = true) (started 2) timelyActions = some s ∧
      s.fetched = [⟨0, "A", some (10000, 20000)⟩, ⟨0, "B", some (10000, 20000)⟩,
        ⟨1, "A", some (20000, 30000)⟩] ∧
      s.stopper = .returned ∧ CyclesOk sampleConfig s := by
  have hsample : (exec (step sampleConfig) (fun s a => inTime s a = true) (started 2)
      timelyActions).map (fun s => (s.fetched, s.stopper)) =
        some ([⟨0, "A", some (10000, 20000)⟩, ⟨0, "B", some (10000, 20000)⟩,
          ⟨1, "A", some (20000, 30000)⟩], .returned) := by
    decide +kernel
  obtain ⟨s, hs, hshows⟩ := Option.map_eq_some_iff.mp hsample
  obtain ⟨hfetched, hstopper⟩ := Prod.mk.inj hshows
  exact ⟨s, hs, hfetched, hstopper, cyclesOk_of_inTime sampleConfig 2 (Runs.of_exec _ hs)⟩

/-- Worker 1 is still at its PV when the queue is filled, and goes on. -/
def slowActions : List Action := firstCycle ++ nextPoll ++ [.run 1, .run 1, .run 1]

/-- Worker 1 has found no cycle and is about to sleep when `stopWorkers` notifies. -/
def missedActions : List Action := [.run 1, .run 1, .stop, .stop, .stop, .run 1, .run 0]

/-- What a state has when worker 1 sleeps for ever. -/
def missed : State :=
  { started 2 with
    workers := [{ pc := .exited }, { pc := .asleep }]
    running := false
    stopper := .joining }

/-- **A slow worker fetches a PV of the next cycle with its old window; and a worker that misses the
notification is waited for, though no thread can go on.** -/
theorem cyclesOk_fails :
    (∃ s, Runs (step sampleConfig) anyStep (started 2) s ∧
      s.windows = [(10000, 20000), (20000, 30000)] ∧
      (⟨1, "A", some (10000, 20000)⟩ : Fetch) ∈ s.fetched ∧ ¬ CyclesOk sampleConfig s) ∧
    ∃ s, Runs (step sampleConfig) anyStep (started 2) s ∧ s.stopper = .joining ∧
      (∀ i, step sampleConfig s (.run i) = none) ∧ step sampleConfig s .stop = none ∧
      ¬ CyclesOk sampleConfig s := by
  constructor
  · have hslow : (exec (step sampleConfig) anyStep (started 2) slowActions).map
        (fun s => (s.windows, s.fetched)) =
          some ([(10000, 20000), (20000, 30000)], [⟨0, "A", some (10000, 20000)⟩,
            ⟨0, "B", some (10000, 20000)⟩, ⟨1, "A", some (10000, 20000)⟩]) := by
      decide +kernel
    obtain ⟨s, hs, hshows⟩ := Option.map_eq_some_iff.mp hslow
    obtain ⟨hwindows, hfetched⟩ := Prod.mk.inj hshows
    have hmem : (⟨1, "A", some (10000, 20000)⟩ : Fetch) ∈ s.fetched := by
      rw [hfetched]
      decide
    refine ⟨s, Runs.of_exec _ hs, hwindows, hmem, ?_⟩
    intro hok
    obtain ⟨w, hw, hfetch⟩ := hok.window _ hmem
    rw [hwindows] at hw
    obtain rfl := Option.some.inj hw
    exact absurd hfetch (by decide)
  · have hmissed : exec (step sampleConfig) anyStep (started 2) missedActions = some missed := by
      decide +kernel
    refine ⟨missed, Runs.of_exec _ hmissed, rfl, ?_, by decide, ?_⟩
    · intro i
      match i with
      | 0 => rfl
      | 1 => rfl
      | _ + 2 => rfl
    · intro hok
      exact absurd (hok.cycles rfl { pc := .asleep } (by decide)) (by decide)

end MldpDriver.Reader.PeriodicTail
