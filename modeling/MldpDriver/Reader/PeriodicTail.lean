/-
# The poll cycles of the archiver reader

In periodic mode worker 0 is also the COORDINATOR: at each poll it sets the window of the cycle,
fills the queue with the PVs and wakes the others.  Every worker waits for a cycle, reads the
window, and takes PVs from the queue until it is empty.  Window, queue and the number of the cycle
are changed one after another, and `stopWorkers` wakes the workers without their mutex.  -/
import MldpDriver.Lib.Replace
import MldpDriver.Lib.Run
import Mathlib.Algebra.Group.Int.Defs

namespace MldpDriver.Reader.PeriodicTail

open Lib.Replace Lib.Run

/-! ## 1. The state -/

/-- `[from, to]`, in milliseconds. -/
abbrev Window : Type := Int × Int

/-- The configuration of the cycles. -/
structure Config where
  pvNames : List String
  lookbackSec : Nat
  pollIntervalSec : Nat

/-- Where a worker is. -/
inductive Pc
  | check
  | setWindow
  | populate
  | announce
  | notify
  | testing
  | dozing
  | asleep
  | reading
  | looping (window : Option Window)
  | popping (window : Option Window)
  | fetching (window : Option Window)
  | pollTesting
  | pollDozing
  | pollAsleep
  | exited
  deriving DecidableEq

structure Worker where
  pc : Pc := .check
  lastCycleSeen : Nat := 0
  deriving DecidableEq

/-- Where `stopWorkers` is. -/
inductive StopPc
  | notCalled
  | notifyWorkers
  | notifyCycle
  | joining
  | returned
  deriving DecidableEq

/-- A PV that was taken from the queue, with the cycle that queued it and the window it is fetched
with. -/
structure Fetch where
  cycle : Nat
  pv : String
  window : Option Window
  deriving DecidableEq

structure State where
  workers : List Worker
  now : Int := 0
  running : Bool := true
  cycleReady : Nat := 0
  window : Option Window := none
  previousIterationEnd : Option Int := none
  queue : List (Nat × String) := []
  stopper : StopPc := .notCalled
  windows : List Window := []
  populates : Nat := 0
  fetched : List Fetch := []
  deriving DecidableEq

/-- So many workers. -/
def started (fetchThreads : Nat) : State where
  workers := List.replicate fetchThreads {}

/-! ## 2. The workers -/

/-- Worker `i` is now so. -/
def State.setWorker (s : State) (i : Nat) (t : Worker) : State :=
  { s with workers := s.workers.set i t }

/-- Nobody has the mutex of the cycles. -/
def State.cycleMutexFree (s : State) : Bool := s.workers.all fun t => decide (t.pc ≠ .dozing)

/-- `cycle_cv_.notify_all()`. -/
def wakeCycle (t : Worker) : Worker :=
  if t.pc = .asleep then { t with pc := .testing } else t

/-- `worker_cv_.notify_all()`. -/
def wakePoll (t : Worker) : Worker :=
  if t.pc = .pollAsleep then { t with pc := .pollTesting } else t

/-- The window of the next cycle. -/
def nextWindow (cfg : Config) (s : State) : Window :=
  let start :=
    if cfg.lookbackSec = cfg.pollIntervalSec then
      s.previousIterationEnd.getD (s.now - cfg.lookbackSec * 1000)
    else s.now - cfg.lookbackSec * 1000
  (start, s.now)

/-- After the last PV the coordinator waits for the poll interval. -/
def afterQueue (i : Nat) : Pc := if i = 0 then .pollTesting else .check

/-- `runWorker`: the next thing worker `i` does, if it can go on. -/
def runWorker (cfg : Config) (s : State) (i : Nat) (t : Worker) : Option State :=
  match t.pc with
  | .check =>
    some (s.setWorker i
      { t with pc := if s.running then if i = 0 then .setWindow else .testing else .exited })
  | .setWindow =>
    if s.cycleMutexFree then
      some { s.setWorker i { t with pc := .populate } with
        window := some (nextWindow cfg s)
        windows := s.windows ++ [nextWindow cfg s]
        previousIterationEnd := some s.now }
    else none
  | .populate =>
    some { s.setWorker i { t with pc := .announce } with
      queue := cfg.pvNames.map fun pv => (s.populates, pv)
      populates := s.populates + 1 }
  | .announce =>
    some { s.setWorker i { t with pc := .notify } with cycleReady := s.cycleReady + 1 }
  | .notify =>
    some { s with workers := (s.workers.map wakeCycle).set i { t with pc := .testing } }
  | .testing =>
    if s.cycleMutexFree then
      if s.running then
        if t.lastCycleSeen < s.cycleReady then
          some (s.setWorker i { pc := .reading, lastCycleSeen := s.cycleReady })
        else some (s.setWorker i { t with pc := .dozing })
      else some (s.setWorker i { t with pc := .exited })
    else none
  | .dozing => some (s.setWorker i { t with pc := .asleep })
  | .reading =>
    if s.cycleMutexFree then some (s.setWorker i { t with pc := .looping s.window }) else none
  | .looping window =>
    some (s.setWorker i { t with pc := if s.running then .popping window else afterQueue i })
  | .popping window =>
    match s.queue with
    | [] => some (s.setWorker i { t with pc := afterQueue i })
    | (cycle, pv) :: rest =>
      some { s.setWorker i { t with pc := .fetching window } with
        queue := rest
        fetched := s.fetched ++ [⟨cycle, pv, window⟩] }
  | .fetching window => some (s.setWorker i { t with pc := .looping window })
  | .pollTesting =>
    some (s.setWorker i { t with pc := if s.running then .pollDozing else .check })
  | .pollDozing => some (s.setWorker i { t with pc := .pollAsleep })
  | .asleep | .pollAsleep | .exited => none

/-! ## 3. Steps

A worker that waits tests whether there is a new cycle, with the mutex; if there is none it still
has the mutex when it is `dozing`, and releases it as it falls `asleep`.  Who is awake again must
test again.  The poll interval of the coordinator is a wait of the same kind, with a timeout.
`step` is the system; a state also has what happened: the windows set, how often the queue was
filled, and the fetches, each with the cycle whose filling put the PV into the queue.  What is
pushed after a cycle plays no part. -/

/-- A worker goes on; the clock; a spurious wake-up; the poll interval is over; a fetch that throws
when the reader stops; `stopWorkers` goes on. -/
inductive Action
  | run (i : Nat)
  | clock (now : Int)
  | wake (i : Nat)
  | timeout (i : Nat)
  | throw_ (i : Nat)
  | stop

/-- Where a worker is after a spurious wake-up. -/
def spuriously : Pc → Option Pc
  | .asleep => some .testing
  | .pollAsleep => some .pollTesting
  | _ => none

/-- Where it is after the poll interval. -/
def timedOut : Pc → Option Pc
  | .pollAsleep => some .check
  | _ => none

/-- Where it is after an exception, which leaves the worker when the reader stops. -/
def thrown (running : Bool) : Pc → Option Pc
  | .fetching _ => if running then none else some .exited
  | _ => none

/-- Worker `i` is moved. -/
def State.move (s : State) (i : Nat) (f : Pc → Option Pc) : Option State :=
  match s.workers[i]? with
  | some t =>
    match f t.pc with
    | some pc => some (s.setWorker i { t with pc := pc })
    | none => none
  | none => none

/-- `stopWorkers`. -/
def stopNext (s : State) : Option State :=
  match s.stopper with
  | .notCalled => some { s with running := false, stopper := .notifyWorkers }
  | .notifyWorkers => some { s with workers := s.workers.map wakePoll, stopper := .notifyCycle }
  | .notifyCycle => some { s with workers := s.workers.map wakeCycle, stopper := .joining }
  | .joining =>
    if s.workers.all fun t => decide (t.pc = .exited) then some { s with stopper := .returned }
    else none
  | .returned => none

/-- One step of the reader. -/
def step (cfg : Config) (s : State) : Action → Option State
  | .run i =>
    match s.workers[i]? with
    | some t => runWorker cfg s i t
    | none => none
  | .clock now => some { s with now := now }
  | .wake i => s.move i spuriously
  | .timeout i => s.move i timedOut
  | .throw_ i => s.move i (thrown s.running)
  | .stop => stopNext s

/-! ## 4. What a step does -/

section Cases

variable {cfg : Config} {s s' : State} {i : Nat}

theorem run_cases (h : step cfg s (.run i) = some s') :
    ∃ t, s.workers[i]? = some t ∧ runWorker cfg s i t = some s' := by
  simp only [step] at h
  cases hi : s.workers[i]? with
  | none => simp [hi] at h
  | some t => exact ⟨t, rfl, by simpa [hi] using h⟩

theorem move_cases {f : Pc → Option Pc} (h : s.move i f = some s') :
    ∃ t pc, s.workers[i]? = some t ∧ f t.pc = some pc ∧
      s' = s.setWorker i { t with pc := pc } := by
  rw [State.move] at h
  cases hi : s.workers[i]? with
  | none => simp [hi] at h
  | some t =>
    cases hf : f t.pc with
    | none => simp [hi, hf] at h
    | some pc => exact ⟨t, pc, rfl, hf, by simpa [hi, hf] using h.symm⟩

end Cases

end MldpDriver.Reader.PeriodicTail
