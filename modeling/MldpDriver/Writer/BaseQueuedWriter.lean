/-
# The queued writer base: push(), the worker loops and stop()

`BaseQueuedWriter<Item>` gives every writer a bounded queue: callers of `push()` convert a batch to
items and append each to one of the worker channels, one worker per channel drains it, and `stop()`
shuts the channels down, waits for the workers and destroys the channel list.

Here the three pieces of code are one transition system.  An action is the next atomic step of one
of them, so a run is an interleaving.  Waiting on a condition variable is a step that is enabled
when the predicate holds; wake-ups decide only how soon such a step is taken and are left out.

* The running check, the append and a worker's exit are SEPARATE steps (section 4): nothing orders
  a push that passed its last check before the exit of the worker it appends to.
* `queuedItems_` is a `size_t` that the worker may decrement before the push increments it.
-/
import Mathlib.Algebra.Group.Nat.Defs
import Mathlib.Data.List.Basic
import MldpDriver.Lib.Run

namespace MldpDriver.Writer

/-! ## 1. Configuration, channels, items -/

/-- `BaseQueuedWriter::QueueConfig`. -/
structure QueueConfig where
  queueCapacity : Int := 200
  workerCount : Int := 8
  pushTimeoutMs : Int := 0
  idleCheckMs : Int := 0

/-- The number of channels, and of workers, `start()` creates. -/
def QueueConfig.channelCount (cfg : QueueConfig) : Nat := (max 1 cfg.workerCount).toNat

theorem QueueConfig.channelCount_pos (cfg : QueueConfig) : 0 < cfg.channelCount := by
  simp only [QueueConfig.channelCount]
  omega

/-- The number of values of `size_t`. -/
def sizeRange : Nat := 2 ^ 64

/-- `static_cast<std::size_t>`. -/
def toSize (i : Int) : Nat := (i % sizeRange).toNat

/-- What the subclass and the standard library supply: `itemRoutingKey` and `std::hash`. -/
structure Setup (Item : Type) where
  cfg : QueueConfig
  itemRoutingKey : Item → String
  hash : String → Nat

/-- An item in the queue, named by the push that made it and its place in that push's batch. -/
structure Ticket (Item : Type) where
  push : Nat
  index : Nat
  item : Item
  deriving DecidableEq

/-- `WorkerChannel`. -/
structure WorkerChannel (Item : Type) where
  items : List (Ticket Item) := []
  shutdown : Bool := false
  deriving DecidableEq

/-! ## 2. From a batch to items -/

/-- The outcome of one `enricher->run(batch)`. -/
inductive Enriched (Batch : Type)
  | kept (batch : Batch)
  | dropped
  | threw

/-- The enricher loop of `push()`. -/
def runEnrichers {Batch : Type} : List (Batch → Enriched Batch) → Batch → Enriched Batch
  | [], batch => .kept batch
  | e :: es, batch =>
    match e batch with
    | .kept batch' => runEnrichers es batch'
    | .dropped => .dropped
    | .threw => .threw

/-- The part of `push()` before its loop: the items to enqueue, or what `push()` returns at once.
`toItems` throws where it has no value. -/
def prepare {Batch Item : Type} (enrichers : List (Batch → Enriched Batch))
    (toItems : Batch → Option (List Item)) (batch : Batch) : Except Bool (List Item) :=
  match runEnrichers enrichers batch with
  | .dropped => .error true
  | .threw => .error false
  | .kept batch' =>
    match toItems batch' with
    | none => .error false
    | some [] => .error true
    | some (item :: items) => .ok (item :: items)

theorem prepare_ne_nil {Batch Item : Type} {enrichers : List (Batch → Enriched Batch)}
    {toItems : Batch → Option (List Item)} {batch : Batch} {items : List Item}
    (h : prepare enrichers toItems batch = .ok items) : 0 < items.length := by
  unfold prepare at h
  split at h
  · cases h
  · cases h
  · split at h
    · cases h
    · cases h
    · cases h
      exact Nat.succ_pos _

/-! ## 3. States -/

/-- Where a call of `push()` stands; `passed` is after the second running check, with the
back-pressure lock released. -/
inductive PushAt
  | entered
  | waiting
  | woken
  | passed
  | routed (idx : Nat)
  | appended (idx : Nat)
  | notified
  | returned (ok : Bool)
  deriving DecidableEq

/-- A call of `push()`; `sent` items have been appended, so `enqueued` is `0 < sent`. -/
structure Push (Batch Item : Type) where
  pc : PushAt
  batch : Batch
  items : List Item := []
  sent : Nat := 0
  deriving DecidableEq

/-- Where a `workerLoop` stands. -/
inductive Worker (Item : Type)
  | waiting
  | taken (t : Ticket Item)
  | processing (t : Ticket Item)
  | exited
  deriving DecidableEq

/-- Where `stop()` stands; `shutting i` has raised the shutdown flags below `i`. -/
inductive StopAt
  | idle
  | shutting (i : Nat)
  | cleared
  | returned
  deriving DecidableEq

/-- Reading `channels_` after `stop()` cleared it. -/
inductive Fault
  | remainderByZero
  | channelGone
  deriving DecidableEq

/-- What an observer records. -/
inductive Event (Item : Type)
  | enqueued (channel : Nat) (t : Ticket Item)
  | processed (worker : Nat) (t : Ticket Item)
  | stopReturned
  deriving DecidableEq

/-- The writer, its callers and its threads. -/
structure State (Batch Item : Type) where
  running : Bool := true
  forceQuit : Bool := false
  channels : List (WorkerChannel Item)
  nextChannel : Nat := 0
  queuedItems : Nat := 0
  pushes : List (Push Batch Item) := []
  workers : List (Worker Item)
  stopper : StopAt := .idle
  fault : Option Fault := none
  history : List (Event Item) := []
  deriving DecidableEq

variable {Batch Item : Type}

/-- The state when `start()` has returned. -/
def started (cfg : QueueConfig) : State Batch Item where
  channels := List.replicate cfg.channelCount {}
  workers := List.replicate cfg.channelCount .waiting

def State.setPush (s : State Batch Item) (p : Nat) (q : Push Batch Item) : State Batch Item :=
  { s with pushes := s.pushes.set p q }

def State.setWorker (s : State Batch Item) (w : Nat) (at' : Worker Item) : State Batch Item :=
  { s with workers := s.workers.set w at' }

/-! ## 4. Steps -/

/-- An action: a new call of `push()`, or the next step of a call, a worker, `stop()`. -/
inductive Action (Batch Item : Type)
  | enter (batch : Batch)
  | prepare (p : Nat) (enrichers : List (Batch → Enriched Batch))
      (toItems : Batch → Option (List Item))
  | timeout (p : Nat)
  | push (p : Nat)
  | worker (w : Nat)
  | stop
  | forceStop

/-- The predicate `push()` waits for. -/
def mayProceed (cfg : QueueConfig) (s : State Batch Item) : Bool :=
  decide (s.queuedItems < toSize cfg.queueCapacity) || !s.running || s.forceQuit

/-- The channel of an item, and the round-robin counter after it was read. -/
def route (setup : Setup Item) (s : State Batch Item) (item : Item) : Nat × Nat :=
  let key := setup.itemRoutingKey item
  if key = "" then
    (s.nextChannel % s.channels.length, (s.nextChannel + 1) % sizeRange)
  else
    (setup.hash key % s.channels.length, s.nextChannel)

/-- The next step of a call of `push()` that has its items. -/
def pushNext (setup : Setup Item) (s : State Batch Item) (p : Nat) (q : Push Batch Item) :
    Option (State Batch Item) :=
  match q.pc with
  | .entered => none
  | .waiting => if mayProceed setup.cfg s then some (s.setPush p { q with pc := .woken }) else none
  | .woken =>
    if !s.running || s.forceQuit then
      some (s.setPush p { q with pc := .returned (decide (0 < q.sent)) })
    else some (s.setPush p { q with pc := .passed })
  | .passed =>
    match q.items[q.sent]? with
    | none => none
    | some item =>
      if s.channels.length = 0 then some { s with fault := some .remainderByZero }
      else
        let r := route setup s item
        some { s.setPush p { q with pc := .routed r.1 } with nextChannel := r.2 }
  | .routed idx =>
    match s.channels[idx]?, q.items[q.sent]? with
    | some ch, some item =>
      let t : Ticket Item := ⟨p, q.sent, item⟩
      some { s.setPush p { q with pc := .appended idx, sent := q.sent + 1 } with
        channels := s.channels.set idx { ch with items := ch.items ++ [t] }
        history := s.history ++ [.enqueued idx t] }
    | none, _ => some { s with fault := some .channelGone }
    | _, none => none
  | .appended idx =>
    if idx < s.channels.length then some (s.setPush p { q with pc := .notified })
    else some { s with fault := some .channelGone }
  | .notified =>
    some { s.setPush p { q with
        pc := if q.sent < q.items.length then .waiting else .returned true } with
      queuedItems := (s.queuedItems + 1) % sizeRange }
  | .returned _ => none

/-- The next step of a `workerLoop`. -/
def workerNext (cfg : QueueConfig) (s : State Batch Item) (w : Nat) :
    Worker Item → Option (State Batch Item)
  | .waiting =>
    match s.channels[w]? with
    | none => none
    | some ch =>
      if s.forceQuit then some (s.setWorker w .exited)
      else
        match ch.items with
        | [] =>
          if ch.shutdown then some (s.setWorker w .exited)
          -- `wait_for` ran out: `onWorkerIdle`, then around the loop again
          else if 0 < cfg.idleCheckMs then some s
          else none
        | t :: rest =>
          some { s.setWorker w (.taken t) with
            channels := s.channels.set w { ch with items := rest } }
  | .taken t =>
    some { s.setWorker w (.processing t) with
      queuedItems := (s.queuedItems + (sizeRange - 1)) % sizeRange }
  | .processing t =>
    some { s.setWorker w .waiting with history := s.history ++ [.processed w t] }
  | .exited => none

/-- The next step of `stop()`. -/
def stopNext (s : State Batch Item) : Option (State Batch Item) :=
  match s.stopper with
  | .idle =>
    if s.running then some { s with running := false, stopper := .shutting 0 }
    else some { s with stopper := .returned, history := s.history ++ [.stopReturned] }
  | .shutting i =>
    match s.channels[i]? with
    | some ch =>
      some { s with
        channels := s.channels.set i { ch with shutdown := true }
        stopper := .shutting (i + 1) }
    | none =>
      if s.workers.all (· matches .exited) then some { s with channels := [], stopper := .cleared }
      else none
  | .cleared => some { s with stopper := .returned, history := s.history ++ [.stopReturned] }
  | .returned => none

/-- One step of the system; after a fault nothing is promised and nothing is modelled. -/
def step (setup : Setup Item) (s : State Batch Item) (a : Action Batch Item) :
    Option (State Batch Item) :=
  if s.fault.isSome then none
  else
    match a with
    | .enter batch =>
      some { s with pushes := s.pushes ++
        [{ pc := if s.running then .entered else .returned false, batch := batch }] }
    | .prepare p enrichers toItems =>
      match s.pushes[p]? with
      | none => none
      | some q =>
        if q.pc = .entered then
          match prepare enrichers toItems q.batch with
          | .error ok => some (s.setPush p { q with pc := .returned ok })
          | .ok items => some (s.setPush p { q with pc := .waiting, items := items })
        else none
    | .timeout p =>
      match s.pushes[p]? with
      | none => none
      | some q =>
        if q.pc = .waiting ∧ 0 < setup.cfg.pushTimeoutMs ∧ mayProceed setup.cfg s = false then
          some (s.setPush p { q with pc := .returned false })
        else none
    | .push p => s.pushes[p]?.bind (pushNext setup s p)
    | .worker w => s.workers[w]?.bind (workerNext setup.cfg s w)
    | .stop => stopNext s
    | .forceStop => some { s with forceQuit := true }

/-- What a step can do. -/
inductive StepMove (setup : Setup Item) (s : State Batch Item) :
    Action Batch Item → State Batch Item → Prop
  | entered (batch : Batch) :
      StepMove setup s (.enter batch) { s with pushes := s.pushes ++
        [{ pc := if s.running then .entered else .returned false, batch := batch }] }
  | refused {p enrichers toItems q ok} (hq : s.pushes[p]? = some q) (hpc : q.pc = .entered)
      (hprep : prepare enrichers toItems q.batch = .error ok) :
      StepMove setup s (.prepare p enrichers toItems) (s.setPush p { q with pc := .returned ok })
  | ready {p enrichers toItems q items} (hq : s.pushes[p]? = some q) (hpc : q.pc = .entered)
      (hprep : prepare enrichers toItems q.batch = .ok items) :
      StepMove setup s (.prepare p enrichers toItems)
        (s.setPush p { q with pc := .waiting, items := items })
  | timedOut {p q} (hq : s.pushes[p]? = some q) (hpc : q.pc = .waiting) :
      StepMove setup s (.timeout p) (s.setPush p { q with pc := .returned false })
  | pushed {p q s'} (hq : s.pushes[p]? = some q) (hs : pushNext setup s p q = some s') :
      StepMove setup s (.push p) s'
  | worked {w x s'} (hx : s.workers[w]? = some x) (hs : workerNext setup.cfg s w x = some s') :
      StepMove setup s (.worker w) s'
  | stopped {s'} (hs : stopNext s = some s') : StepMove setup s .stop s'
  | forced : StepMove setup s .forceStop { s with forceQuit := true }

theorem stepMove_of_step {setup : Setup Item} {s s' : State Batch Item} {a : Action Batch Item}
    (hs : step setup s a = some s') : StepMove setup s a s' := by
  unfold step at hs
  split at hs
  · cases hs
  cases a with
  | enter batch => cases hs; exact .entered batch
  | prepare p enrichers toItems =>
    simp only at hs
    split at hs
    · cases hs
    · rename_i q hq
      split at hs
      · rename_i hpc
        split at hs
        · rename_i ok hprep
          cases hs
          exact .refused hq hpc hprep
        · rename_i items hprep
          cases hs
          exact .ready hq hpc hprep
      · cases hs
  | timeout p =>
    simp only at hs
    split at hs
    · cases hs
    · rename_i q hq
      split at hs
      · rename_i hcond
        cases hs
        exact .timedOut hq hcond.1
      · cases hs
  | push p =>
    obtain ⟨q, hq, hnext⟩ := Option.bind_eq_some_iff.mp hs
    exact .pushed hq hnext
  | worker w =>
    obtain ⟨x, hx, hnext⟩ := Option.bind_eq_some_iff.mp hs
    exact .worked hx hnext
  | stop => exact .stopped hs
  | forceStop => cases hs; exact .forced

end MldpDriver.Writer
