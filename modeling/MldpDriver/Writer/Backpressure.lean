/-
# Waiting for a queue slot

A `push()` that finds `queuedItems_` at the capacity sleeps on `backpressureCv_`; a worker that
takes an item lowers `queuedItems_` and calls `notify_one()`.  `BaseQueuedWriter.step` leaves the
sleeping out.  Here it is put in: the place `.waiting` of a push is split into the steps of
`condition_variable::wait`, and every notify is a step of its own.

The system moves with `BaseQueuedWriter.step` under it, so what holds of the writer
on all runs holds here.  A notify does not take `backpressureMutex_`: a push that has found the
queue full and not yet fallen asleep (`dozing`) misses it.
-/
import Mathlib.Algebra.GroupWithZero.Nat
import MldpDriver.Writer.Drain

namespace MldpDriver.Writer

variable {Batch Item : Type}

/-! ## 1. States -/

/-- Where a push at `.waiting` stands in the wait.  `testing`, `lastTest` and `dozing` hold
`backpressureMutex_`: the predicate is tested next, is tested for the last time as the deadline is
over, was false. -/
inductive WaitAt
  | arriving
  | testing
  | dozing
  | asleep
  | notified
  | expired
  | lastTest
  deriving DecidableEq

/-- The writer with its sleepers.  `owing` marks the workers that lowered the counter and have not
called `notify_one()`; `stopOwes` and `forceOwes` are the `notify_all()` calls still to come of
`stop()` and of `forceStop()`.  `balance` is what `queuedItems_` would be if it did not wrap. -/
structure Backpressure (Batch Item : Type) where
  writer : State Batch Item
  waits : List WaitAt := []
  mutex : Option Nat := none
  owing : List Bool
  stopOwes : Bool := false
  forceOwes : Nat := 0
  balance : Int := 0
  deriving DecidableEq

namespace Backpressure

def started (cfg : QueueConfig) : Backpressure Batch Item where
  writer := Writer.started cfg
  owing := List.replicate cfg.channelCount false

def setWait (s : Backpressure Batch Item) (p : Nat) (at' : WaitAt) : Backpressure Batch Item :=
  { s with waits := s.waits.set p at' }

/-- `notify_all()`, seen by one push. -/
def wake (at' : WaitAt) : WaitAt := if at' = .asleep then .notified else at'

/-! ## 2. Steps -/

/-- The predicate was true: the push leaves the wait with the mutex. -/
def leave (setup : Setup Item) (s : Backpressure Batch Item) (p : Nat) :
    Option (Backpressure Batch Item) :=
  (Writer.step setup s.writer (.push p)).map fun w => { s.setWait p .arriving with writer := w }

/-- The next step of a push inside the wait. -/
def waitNext (setup : Setup Item) (s : Backpressure Batch Item) (p : Nat) :
    WaitAt → Option (Backpressure Batch Item)
  | .arriving | .notified =>
    if s.mutex = none then some { s.setWait p .testing with mutex := some p } else none
  | .testing =>
    if mayProceed setup.cfg s.writer then s.leave setup p else some (s.setWait p .dozing)
  | .dozing => some { s.setWait p .asleep with mutex := none }
  | .asleep => none
  | .expired => if s.mutex = none then some { s.setWait p .lastTest with mutex := some p } else none
  | .lastTest =>
    if mayProceed setup.cfg s.writer then s.leave setup p
    else (Writer.step setup s.writer (.timeout p)).map fun w =>
      { s.setWait p .arriving with writer := w, mutex := none }

/-- The next step of a push. -/
def pushNext (setup : Setup Item) (s : Backpressure Batch Item) (p : Nat)
    (q : Push Batch Item) (at' : WaitAt) : Option (Backpressure Batch Item) :=
  match q.pc with
  | .waiting => s.waitNext setup p at'
  | .woken =>
    (Writer.step setup s.writer (.push p)).map fun w => { s with writer := w, mutex := none }
  | .notified =>
    (Writer.step setup s.writer (.push p)).map fun w =>
      { s with writer := w, balance := s.balance + 1 }
  | _ => (Writer.step setup s.writer (.push p)).map fun w => { s with writer := w }

/-- The next step of a worker that owes no notify. -/
def workerNext (setup : Setup Item) (s : Backpressure Batch Item) (w : Nat) :
    Worker Item → Option (Backpressure Batch Item)
  | .taken _ =>
    (Writer.step setup s.writer (.worker w)).map fun x =>
      { s with writer := x, owing := s.owing.set w true, balance := s.balance - 1 }
  | _ => (Writer.step setup s.writer (.worker w)).map fun x => { s with writer := x }

/-- `notify_one()` of a worker; `sleeper` is the push it wakes, if one sleeps. -/
def notifyNext (s : Backpressure Batch Item) (w : Nat) :
    Option Nat → Option (Backpressure Batch Item)
  | none => if .asleep ∈ s.waits then none else some { s with owing := s.owing.set w false }
  | some p =>
    if s.waits[p]? = some .asleep then
      some { s.setWait p .notified with owing := s.owing.set w false }
    else none

/-- An action: one of the writer, where `.timeout` is the deadline of a wait passing, or a notify,
or a spurious wake-up. -/
inductive Action (Batch Item : Type)
  | writer (a : Writer.Action Batch Item)
  | notify (w : Nat) (sleeper : Option Nat)
  | notifyAllOfStop
  | notifyAllOfForceStop
  | spurious (p : Nat)

/-- The next step of the writer's part of an action. -/
def writerNext (setup : Setup Item) (s : Backpressure Batch Item) :
    Writer.Action Batch Item → Option (Backpressure Batch Item)
  | .enter batch =>
    (Writer.step setup s.writer (.enter batch)).map fun w =>
      { s with writer := w, waits := s.waits ++ [.arriving] }
  | .prepare p enrichers toItems =>
    (Writer.step setup s.writer (.prepare p enrichers toItems)).map fun w => { s with writer := w }
  | .timeout p =>
    if 0 < setup.cfg.pushTimeoutMs ∧
        (s.waits[p]? = some .asleep ∨ s.waits[p]? = some .notified) then
      some (s.setWait p .expired)
    else none
  | .push p =>
    match s.writer.pushes[p]?, s.waits[p]? with
    | some q, some at' => s.pushNext setup p q at'
    | _, _ => none
  | .worker w =>
    match s.writer.workers[w]? with
    | some x => if s.owing[w]? = some false then s.workerNext setup w x else none
    | none => none
  | .stop =>
    if s.stopOwes then none
    else
      (Writer.step setup s.writer .stop).map fun w =>
        { s with writer := w, stopOwes := s.writer.running && !w.running }
  | .forceStop =>
    (Writer.step setup s.writer .forceStop).map fun w =>
      { s with writer := w, forceOwes := s.forceOwes + 1 }

/-- One step of the system; as for the writer, nothing moves after a fault. -/
def step (setup : Setup Item) (s : Backpressure Batch Item) (a : Action Batch Item) :
    Option (Backpressure Batch Item) :=
  if s.writer.fault.isSome then none
  else
    match a with
    | .writer a => s.writerNext setup a
    | .notify w sleeper => if s.owing[w]? = some true then s.notifyNext w sleeper else none
    | .notifyAllOfStop =>
      if s.stopOwes then some { s with waits := s.waits.map wake, stopOwes := false } else none
    | .notifyAllOfForceStop =>
      if 0 < s.forceOwes then
        some { s with waits := s.waits.map wake, forceOwes := s.forceOwes - 1 }
      else none
    | .spurious p => if s.waits[p]? = some .asleep then some (s.setWait p .notified) else none

/-! ## 3. What the queue is for -/

/-- The number of items in the queues. -/
def queueLength (s : Backpressure Batch Item) : Nat :=
  (s.writer.channels.map fun ch => ch.items.length).sum

/-- The push has appended its item and not counted it. -/
def uncounted (q : Push Batch Item) : Bool := q.pc matches .appended _ | .notified

/-- The worker has taken an item and not lowered the counter. -/
def isTaken (x : Worker Item) : Bool := x matches .taken _

/-- No push or pop is between the queue and the counter. -/
def AtRest (s : Backpressure Batch Item) : Prop :=
  (∀ q ∈ s.writer.pushes, uncounted q = false) ∧ ∀ x ∈ s.writer.workers, isTaken x = false

/-- A step of the threads at work: no new call, no deadline, no spurious wake-up. -/
def ownStep (_ : Backpressure Batch Item) : Action Batch Item → Prop
  | .writer (.push _) | .writer (.worker _) => True
  | .notify _ _ | .notifyAllOfStop | .notifyAllOfForceStop => True
  | _ => False

/-- The push sleeps, and sleeps on whatever the threads at work do. -/
def BlockedForEver (setup : Setup Item) (s : Backpressure Batch Item) (p : Nat) : Prop :=
  ∀ s', Lib.Run.Runs (step setup) ownStep s s' → s'.waits[p]? = some .asleep

/-- **What back-pressure promises.** -/
structure Regulated (setup : Setup Item) (s : Backpressure Batch Item) : Prop where
  counts : s.AtRest → s.writer.queuedItems = s.queueLength
  nonneg : 0 ≤ s.balance
  capacity : s.writer.queuedItems ≤ toSize setup.cfg.queueCapacity
  wakes : s.queueLength < toSize setup.cfg.queueCapacity → ∀ p, ¬ s.BlockedForEver setup p

/-! ## 4. The condition -/

/-- The push is past the wait and has not counted its item. -/
def underWay (q : Push Batch Item) : Bool :=
  q.pc matches .passed | .routed _ | .appended _ | .notified

/-- The push that appended the item has counted it. -/
def counted (pushes : List (Push Batch Item)) (t : Ticket Item) : Bool :=
  match pushes[t.push]? with
  | some q => !(uncounted q && decide (q.sent = t.index + 1))
  | none => true

/-- A step that stays clear of the races: a worker lowers the counter for a counted item, a push
leaves the wait when there is room for it and for all that are under way, `stop()` destroys empty
queues, and while a push dozes nothing is changed that its wait is about. -/
def orderly (setup : Setup Item) (s : Backpressure Batch Item) : Action Batch Item → Bool
  | .writer (.worker w) =>
    match s.writer.workers[w]? with
    | some (.taken t) => counted s.writer.pushes t && decide (.dozing ∉ s.waits)
    | _ => true
  | .writer (.push p) =>
    match s.writer.pushes[p]? with
    | none => true
    | some q =>
      match q.pc with
      | .woken =>
        !s.writer.running || s.writer.forceQuit ||
          decide (s.writer.queuedItems + s.writer.pushes.countP underWay <
            toSize setup.cfg.queueCapacity)
      | _ => true
  | .writer .stop =>
    (!s.writer.running || decide (.dozing ∉ s.waits)) &&
      (!clearing s.writer || s.writer.channels.all fun ch => ch.items.isEmpty)
  | .writer .forceStop => decide (.dozing ∉ s.waits)
  | _ => true

end Backpressure

end MldpDriver.Writer
