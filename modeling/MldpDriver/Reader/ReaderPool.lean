/-
# The thread pool of the PVXS reader

Every update of a PV is a task of the reader pool, a queue in front of some threads.  The task of a
table update submits one task for each column to the SAME pool, then gets the futures one after
another, emits the columns and pushes what that makes, and pushes the marker.  A pool of one thread
converts the columns in the task of the update.
-/
import MldpDriver.Lib.Replace
import MldpDriver.Lib.Run
import MldpDriver.Reader.TableBatching

namespace MldpDriver.Reader.Pool

open Bus Lib.Replace Lib.Run

variable {V : Type}

/-! ## 1. Tasks and threads -/

/-- An update of a PV with a table: for each column what its conversion is emitted with, if it
is. -/
structure TableUpdate (V : Type) where
  pvName : String
  cfg : TableConfig
  columns : List (Option (List (DataBatch V)))

/-- A task: an update, or the conversion of a column of an update. -/
inductive Task (V : Type)
  | update (id : Nat) (u : TableUpdate V)
  | column (id k : Nat)

/-- What a thread does: nothing, submit the columns, get the futures and emit, push the marker, or
convert a column. -/
inductive Thread (V : Type)
  | idle
  | submitting (id : Nat) (u : TableUpdate V) (k : Nat)
  | emitting (id : Nat) (u : TableUpdate V) (k : Nat) (b : Batching V)
  | marking (id : Nat) (u : TableUpdate V)
  | converting (id k : Nat)

/-- A batch on the bus, with the update it is of. -/
structure Pushed (V : Type) where
  id : Nat
  pvName : String
  frames : List (DataBatch V)
  marker : Bool
  deriving DecidableEq

/-- The pool; `ready` are the columns whose futures are ready. -/
structure State (V : Type) where
  threads : List (Thread V)
  queue : List (Task V) := []
  nextId : Nat := 0
  ready : List (Nat × Nat) := []
  history : List (Pushed V) := []

/-- A pool of so many threads. -/
def started (V : Type) (threadPoolSize : Nat) : State V where
  threads := List.replicate threadPoolSize .idle

/-! ## 2. Steps

`step` is the pool, with what arrives from the network and what the threads do; the `history` of a
state is what has been put on the bus. -/

/-- An update arrives, a thread takes the first task of the queue, a thread goes on. -/
inductive Action (V : Type)
  | arrive (u : TableUpdate V)
  | take (i : Nat)
  | run (i : Nat)

/-- The batches pushed since. -/
def pushedSince (id : Nat) (u : TableUpdate V) (b b' : Batching V) : List (Pushed V) :=
  (b'.pushed.drop b.pushed.length).map fun frames => ⟨id, u.pvName, frames, false⟩

/-- `get_thread_count() > 1`. -/
def State.pooled (s : State V) : Bool := decide (1 < s.threads.length)

/-- The first thing a task does. -/
def begin_ (s : State V) : Task V → Thread V
  | .update id u => if s.pooled then .submitting id u 0 else .emitting id u 0 {}
  | .column id k => .converting id k

/-- `emitColumn`, if the column is emitted. -/
def emitResult (keep : DataBatch V → Bool) (u : TableUpdate V) (b : Batching V) :
    Option (List (DataBatch V)) → Batching V
  | some batches => b.emitColumn keep u.cfg.busBatchSize u.cfg.perPvBatchSize batches
  | none => b

/-- The last flush, if anything was emitted. -/
def lastFlush (u : TableUpdate V) (b : Batching V) : Batching V :=
  if u.columns.any Option.isSome then b.flushCurrentFrame u.cfg.busBatchSize true else b

/-- What a thread does next; none if it has nothing to do or waits for a future. -/
def runThread (keep : DataBatch V → Bool) (s : State V) (i : Nat) : Thread V → Option (State V)
  | .idle => none
  | .submitting id u k =>
    if k < u.columns.length then
      some { s with
        threads := s.threads.set i (.submitting id u (k + 1))
        queue := s.queue ++ [.column id k] }
    else some { s with threads := s.threads.set i (.emitting id u 0 {}) }
  | .emitting id u k b =>
    match u.columns[k]? with
    | some result =>
      if s.pooled = true ∧ (id, k) ∉ s.ready then none
      else
        some { s with
          threads := s.threads.set i (.emitting id u (k + 1) (emitResult keep u b result))
          history := s.history ++ pushedSince id u b (emitResult keep u b result) }
    | none =>
      some { s with
        threads := s.threads.set i (.marking id u)
        history := s.history ++ pushedSince id u b (lastFlush u b) }
  | .marking id u =>
    some { s with
      threads := s.threads.set i .idle
      history := s.history ++ [⟨id, u.pvName, [], true⟩] }
  | .converting id k =>
    some { s with threads := s.threads.set i .idle, ready := s.ready ++ [(id, k)] }

/-- One step of the pool. -/
def step (keep : DataBatch V → Bool) (s : State V) : Action V → Option (State V)
  | .arrive u => some { s with queue := s.queue ++ [.update s.nextId u], nextId := s.nextId + 1 }
  | .take i =>
    match s.threads[i]?, s.queue with
    | some .idle, task :: rest =>
      some { s with threads := s.threads.set i (begin_ s task), queue := rest }
    | _, _ => none
  | .run i =>
    match s.threads[i]? with
    | some thread => runThread keep s i thread
    | none => none

/-! ## 3. What a step does -/

section Cases

variable {keep : DataBatch V → Bool} {s s' : State V} {i : Nat}

/-- **Taking a task.** -/
theorem take_cases (h : step keep s (.take i) = some s') :
    ∃ task rest, s.threads[i]? = some .idle ∧ s.queue = task :: rest ∧
      s' = { s with threads := s.threads.set i (begin_ s task), queue := rest } := by
  simp only [step] at h
  cases hthread : s.threads[i]? with
  | none => simp [hthread] at h
  | some thread =>
    cases hqueue : s.queue with
    | nil => cases thread <;> simp [hthread, hqueue] at h
    | cons task rest =>
      cases thread with
      | idle =>
        simp only [hthread, hqueue, Option.some.injEq] at h
        exact ⟨task, rest, rfl, rfl, h.symm⟩
      | submitting id u k => simp [hthread] at h
      | emitting id u k b => simp [hthread] at h
      | marking id u => simp [hthread] at h
      | converting id k => simp [hthread] at h

/-- **A thread that goes on.** -/
theorem run_cases (h : step keep s (.run i) = some s') :
    ∃ thread, s.threads[i]? = some thread ∧ runThread keep s i thread = some s' := by
  simp only [step] at h
  cases hthread : s.threads[i]? with
  | none => simp [hthread] at h
  | some thread => exact ⟨thread, rfl, by simpa [hthread] using h⟩

end Cases

end MldpDriver.Reader.Pool
