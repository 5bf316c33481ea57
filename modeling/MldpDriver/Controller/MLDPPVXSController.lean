/-
# The controller's bus: push(), the consumer thread, start() and stop()

`MLDPPVXSController` owns the bus queue.  Readers (and processors, recursively) call `push()`, which
offers the batch to the processors and enqueues it under back-pressure; ONE consumer thread swaps
the queue out and dispatches each batch to the writers its route accepts; `start()` creates the
readers, builds the route table and creates the consumer, in this order; `stop()` undoes it.

The threads take turns at the granularity of the code's locks.  `queue_mutex_` is held from a `lock`
step to the step that releases it, `wait` releases it and falls asleep in one step, and a sleeper is
woken by a notify (or spuriously) and takes the mutex again.  The atomic flag `running_` is stored
by `stop()` WITHOUT the mutex, between any two steps of the others.

`forceStop()` is left out, and with it `force_quit_`.
-/
import MldpDriver.Controller.RouteTable
import MldpDriver.Lib.Run

namespace MldpDriver.Controller

/-! ## 1. Batches, targets, configuration -/

/-- What `push()` and the targets look at in a batch's payload. -/
inductive BatchPayload
  | timeSeries (rootSourceName : String) (frameCount : Nat) (endOfBatchGroup : Bool)
  | sourceMetadata (rootSourceName : String)
  | configuration (rootSourceName : String)
  | configurationActivation (configurationName : String)
  deriving DecidableEq

/-- `EventBatch`. -/
structure EventBatch where
  readerName : String
  payload : BatchPayload
  deriving DecidableEq

/-- `getRootSourceName`. -/
def EventBatch.rootSource (b : EventBatch) : String :=
  match b.payload with
  | .timeSeries name _ _ => name
  | .sourceMetadata name => name
  | .configuration name => name
  | .configurationActivation name => name

/-- The checks of `push()` on the batch itself. -/
def EventBatch.wellFormed (b : EventBatch) : Bool :=
  decide (b.rootSource ≠ "") &&
    match b.payload with
    | .timeSeries _ frameCount endOfBatchGroup => decide (frameCount ≠ 0) || endOfBatchGroup
    | _ => true

/-- A writer or a processor; the output reader name of a processor is its name. -/
structure Target where
  name : String
  acceptsPayload : BatchPayload → Bool

/-- A configuration that `start()` accepts: it has readers and writers, and its routing entries name
configured ones. -/
structure Setup where
  capacity : Nat
  routes : List RouteFilterEntry
  readers : List String
  processors : List Target
  writers : List Target
  fnmatch : String → String → Bool
  readers_ne : readers ≠ []
  writers_ne : writers ≠ []
  routes_known : RouteTable.build routes (readers ++ processors.map Target.name)
    ((writers ++ processors).map Target.name) = .ok (RouteTable.ofRoutes routes)

/-! ## 2. States -/

/-- Where a call of `push()` stands.  `locked`, `admitted` and `dozing` hold `queue_mutex_`: the
wait predicate is about to be evaluated, was true, was false. -/
inductive PushAt
  | fanout (i : Nat)
  | ready
  | locked
  | admitted
  | dozing
  | asleep
  | pushed
  | returned (ok : Bool)
  deriving DecidableEq

/-- A call of `push()`: by a thread of the reader `origin`, or by another thread; `passed` says that
it was not turned away at once. -/
structure Push where
  batch : EventBatch
  origin : Option Nat
  passed : Bool := true
  pc : PushAt

/-- A batch on its way, named by its push. -/
structure Ticket where
  push : Nat
  batch : EventBatch
  deriving DecidableEq

/-- Where `consumerLoop` stands; `drained` has swapped the queue out and not yet notified. -/
inductive Consumer
  | absent
  | top
  | locked
  | admitted
  | dozing
  | asleep
  | drained (batches : List Ticket)
  | dispatching (batches : List Ticket)
  | exited
  deriving DecidableEq

/-- Where `start()` stands, from the creation of the readers on. -/
inductive StartAt
  | creating
  | tableBuilt
  | returned
  | failed (message : String)

/-- Where `stop()` stands: `running_` is false from `clearingReaders` on, the mutex was passed from
`wakingPushers` on. -/
inductive StopAt
  | idle
  | stopping
  | clearingReaders
  | flushing
  | wakingPushers
  | wakingConsumer
  | joining
  | clearingProcessors
  | clearingWriters
  | stopped
  deriving DecidableEq

/-- Who holds `queue_mutex_`. -/
inductive Holder
  | push (p : Nat)
  | consumer

/-- What an observer records: a push asks the route table about a processor (`byDefault`: the table
is the all-to-all one; `given`: the processor gets the batch), a batch is accepted, a batch is
dispatched to writers (`late`: the writer list was cleared). -/
inductive Event
  | asked (p i : Nat) (byDefault given : Bool)
  | accepted (t : Ticket)
  | dispatched (t : Ticket) (writers : List Nat) (late : Bool)

/-- The controller and its threads. -/
structure State where
  running : Bool := true
  mutex : Option Holder := none
  queue : List Ticket := []
  table : RouteTable := {}
  created : Nat := 0
  readers : List Nat := []
  processors : List Target
  writers : List Target
  pushes : List Push := []
  consumer : Consumer := .absent
  starter : StartAt := .creating
  stopper : StopAt := .idle
  history : List Event := []

/-- The state when `start()` is about to create the readers. -/
def starting (setup : Setup) : State where
  processors := setup.processors
  writers := setup.writers

def State.setPush (s : State) (p : Nat) (pc : PushAt) : State :=
  { s with pushes := s.pushes.modify p (fun q => { q with pc := pc }) }

section SetPush

variable (s : State) (p : Nat) (pc : PushAt)

@[simp] theorem State.setPush_running : (s.setPush p pc).running = s.running := rfl
@[simp] theorem State.setPush_mutex : (s.setPush p pc).mutex = s.mutex := rfl
@[simp] theorem State.setPush_queue : (s.setPush p pc).queue = s.queue := rfl
@[simp] theorem State.setPush_table : (s.setPush p pc).table = s.table := rfl
@[simp] theorem State.setPush_processors : (s.setPush p pc).processors = s.processors := rfl
@[simp] theorem State.setPush_writers : (s.setPush p pc).writers = s.writers := rfl
@[simp] theorem State.setPush_consumer : (s.setPush p pc).consumer = s.consumer := rfl
@[simp] theorem State.setPush_starter : (s.setPush p pc).starter = s.starter := rfl
@[simp] theorem State.setPush_stopper : (s.setPush p pc).stopper = s.stopper := rfl
@[simp] theorem State.setPush_history : (s.setPush p pc).history = s.history := rfl

end SetPush

/-- `queue_not_full_.notify_all()`: every sleeper will take the mutex again. -/
def wakePush (q : Push) : Push := if q.pc = .asleep then { q with pc := .ready } else q

/-- A notify of `queue_not_empty_`, on which only the consumer waits. -/
def wakeConsumer (c : Consumer) : Consumer := if c = .asleep then .top else c

/-! ## 3. Steps -/

/-- A target gets a batch. -/
def takes (setup : Setup) (table : RouteTable) (t : Target) (b : EventBatch) : Bool :=
  table.takes setup.fnmatch t.name b.readerName b.rootSource && t.acceptsPayload b.payload

/-- The targets of a list that get a batch, by position. -/
def selected (setup : Setup) (table : RouteTable) (targets : List Target) (b : EventBatch) :
    List Nat :=
  (List.range targets.length).filter fun i => targets[i]?.any (takes setup table · b)

/-- The predicate of the wait in `push()`. -/
def hasRoom (setup : Setup) (s : State) : Bool :=
  decide (s.queue.length < setup.capacity) || !s.running

/-- The predicate of the wait in `consumerLoop`. -/
def hasWork (s : State) : Bool := !s.queue.isEmpty || !s.running

/-- The start of a call of `push()`. -/
def enterAt (s : State) (b : EventBatch) : PushAt :=
  if s.running && b.wellFormed then
    if s.processors.any (fun t => decide (t.name = b.readerName)) then .ready else .fanout 0
  else .returned false

/-- The next step of a call of `push()`. -/
def pushNext (setup : Setup) (s : State) (p : Nat) (q : Push) : Option State :=
  match q.pc with
  | .fanout i =>
    match s.processors[i]? with
    | none => some (s.setPush p .ready)
    | some t =>
      some { s.setPush p (.fanout (i + 1)) with
        history := s.history ++ [.asked p i s.table.allToAll (takes setup s.table t q.batch)] }
  | .ready =>
    if s.mutex = none then some { s.setPush p .locked with mutex := some (.push p) } else none
  | .locked => some (s.setPush p (if hasRoom setup s then .admitted else .dozing))
  | .admitted =>
    if s.running then
      some { s.setPush p .pushed with
        mutex := none
        queue := s.queue ++ [⟨p, q.batch⟩]
        history := s.history ++ [.accepted ⟨p, q.batch⟩] }
    else some { s.setPush p (.returned false) with mutex := none }
  | .dozing => some { s.setPush p .asleep with mutex := none }
  | .asleep => none
  | .pushed => some { s.setPush p (.returned true) with consumer := wakeConsumer s.consumer }
  | .returned _ => none

/-- The next step of `consumerLoop`, with `dispatchToWriters` as one step. -/
def consumerNext (setup : Setup) (s : State) : Option State :=
  match s.consumer with
  | .absent => none
  | .top =>
    if s.mutex = none then some { s with consumer := .locked, mutex := some .consumer } else none
  | .locked => some { s with consumer := if hasWork s then .admitted else .dozing }
  | .admitted =>
    if !s.running && s.queue.isEmpty then some { s with consumer := .exited, mutex := none }
    else some { s with consumer := .drained s.queue, queue := [], mutex := none }
  | .dozing => some { s with consumer := .asleep, mutex := none }
  | .asleep => none
  | .drained batches =>
    some { s with consumer := .dispatching batches, pushes := s.pushes.map wakePush }
  | .dispatching [] => some { s with consumer := .top }
  | .dispatching (t :: rest) =>
    some { s with
      consumer := .dispatching rest
      history := s.history ++ [.dispatched t (selected setup s.table s.writers t.batch)
        (decide (s.stopper = .stopped))] }
  | .exited => none

/-- The next step of `start()`: the next reader, the route table, the consumer thread. -/
def startNext (setup : Setup) (s : State) : Option State :=
  match s.starter with
  | .creating =>
    if s.created < setup.readers.length then
      some { s with created := s.created + 1, readers := s.readers ++ [s.created] }
    else
      let knownReaders := s.readers.filterMap (setup.readers[·]?)
      match RouteTable.build setup.routes (knownReaders ++ s.processors.map Target.name)
          ((s.writers ++ s.processors).map Target.name) with
      | .ok table => some { s with table := table, starter := .tableBuilt }
      | .error message => some { s with starter := .failed message }
  | .tableBuilt => some { s with consumer := .top, starter := .returned }
  | .returned => none
  | .failed _ => none

/-- A push of a reader that has not returned. -/
def Push.readerBusy (q : Push) : Bool :=
  q.origin.isSome && !(q.pc matches .returned _)

/-- The next step of `stop()`.  Destroying the readers joins their threads; the writers are stopped
and cleared in the last step. -/
def stopNext (s : State) : Option State :=
  match s.stopper with
  | .idle => some { s with stopper := .stopping }
  | .stopping => some { s with running := false, stopper := .clearingReaders }
  | .clearingReaders =>
    if s.pushes.any Push.readerBusy then none else some { s with readers := [], stopper := .flushing }
  | .flushing => if s.mutex = none then some { s with stopper := .wakingPushers } else none
  | .wakingPushers => some { s with pushes := s.pushes.map wakePush, stopper := .wakingConsumer }
  | .wakingConsumer => some { s with consumer := wakeConsumer s.consumer, stopper := .joining }
  | .joining =>
    if s.consumer = .absent ∨ s.consumer = .exited then
      some { s with stopper := .clearingProcessors }
    else none
  | .clearingProcessors => some { s with processors := [], stopper := .clearingWriters }
  | .clearingWriters => some { s with writers := [], stopper := .stopped }
  | .stopped => none

/-- `removeCompletedReader`: the first registered reader of that name goes. -/
def removeReader (setup : Setup) (name : Option String) (readers : List Nat) : List Nat :=
  readers.eraseP fun r => decide (setup.readers[r]? = name)

/-- An action.  When the last reader completes, a detached thread calls `stop()`; that call is the
same action as any other call of it. -/
inductive Action
  | enter (batch : EventBatch) (origin : Option Nat)
  | push (p : Nat)
  | spuriousPush (p : Nat)
  | consumer
  | spuriousConsumer
  | start
  | complete (r : Nat)
  | stop
  deriving DecidableEq

/-- One step of the system.  A reader that exists pushes under its own name. -/
def step (setup : Setup) (s : State) : Action → Option State
  | .enter b origin =>
    let push : Push :=
      { batch := b, origin := origin, passed := s.running && b.wellFormed, pc := enterAt s b }
    match origin with
    | none => some { s with pushes := s.pushes ++ [push] }
    | some r =>
      if r < s.created ∧ setup.readers[r]? = some b.readerName then
        some { s with pushes := s.pushes ++ [push] }
      else none
  | .push p => s.pushes[p]?.bind (pushNext setup s p)
  | .spuriousPush p =>
    if s.pushes[p]?.any (fun q => decide (q.pc = .asleep)) then some (s.setPush p .ready) else none
  | .consumer => consumerNext setup s
  | .spuriousConsumer => if s.consumer = .asleep then some { s with consumer := .top } else none
  | .start => startNext setup s
  | .complete r =>
    if s.running ∧ r < s.created then
      some { s with readers := removeReader setup setup.readers[r]? s.readers }
    else none
  | .stop => stopNext s

end MldpDriver.Controller
