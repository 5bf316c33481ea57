/-
# What a rejected push leaves in the queue

`push()` promises its caller that `false` means nothing was taken: the caller may offer the batch
again.  The items of a batch are appended one by one, each after a wait of its own, and the wait
of a later item may run out when earlier items are in the queue already.  `push()` keeps track of
this (`enqueued`) and uses it when it is stopped, but not when it times out.
-/
import MldpDriver.Writer.Fifo
import MldpDriver.Writer.QueuedItems

namespace MldpDriver.Writer

open Lib.Run Lib.Tagged

variable {Batch Item : Type} {setup : Setup Item} {s s' : State Batch Item}

/-! ## 1. The promise -/

/-- What `push()` promises.  `calls` are the rejected calls for a batch and `last` is the call after
them; the items of a batch are named by their places in it. -/
structure Honest (s : State Batch Item) : Prop where
  rejected : ∀ p q, s.pushes[p]? = some q → q.pc = .returned false →
    ∀ x ∈ enqueued s.history, x.2.push ≠ p
  once : ∀ (calls : List Nat) (last : Nat),
    (∀ p ∈ calls, ∃ q, s.pushes[p]? = some q ∧ q.pc = .returned false) →
      ∀ i, ((processed s.history).filter fun x =>
        decide (x.2.push ∈ calls ++ [last]) && x.2.index == i).length ≤ 1

/-- A push that times out has appended nothing.  Only a timeout needs a guard: a push that is
stopped returns what `enqueued` says. -/
def clean (s : State Batch Item) : Action Batch Item → Bool
  | .timeout p => (s.pushes[p]?).all fun q => q.sent == 0
  | _ => true

/-! ## 2. Processed once -/

theorem Flow.mem_enqueued (h : Flow s) {x : Nat × Ticket Item} (hx : x ∈ processed s.history) :
    x ∈ enqueued s.history := by
  obtain ⟨lost, hflow, -⟩ := h.flow x.1
  have htag : x ∈ onTag x.1 (processed s.history) := List.mem_filter.mpr ⟨hx, by simp⟩
  have henqueued : x ∈ onTag x.1 (enqueued s.history) := by
    rw [hflow]
    exact List.mem_append_left _ htag
  exact (List.mem_filter.mp henqueued).1

theorem Flow.processed_once (h : Flow s) (name : Nat × Nat) :
    ((processed s.history).filter fun x => decide (x.2.name = name)).length ≤ 1 := by
  by_cases hnone : ∃ x ∈ processed s.history, x.2.name = name
  · obtain ⟨x, hx, rfl⟩ := hnone
    have hmem := h.mem_enqueued hx
    obtain ⟨lost, hflow, -⟩ := h.flow x.1
    have hchannel : ∀ y ∈ enqueued s.history, decide (y.2.name = x.2.name) = true → y.1 = x.1 := by
      intro y hy hname
      rw [h.same hy hmem (by simpa using hname)]
    have hprefix := filter_prefix hchannel (fun y hy => hchannel y (h.mem_enqueued hy)) hflow
    have hone := filter_name_eq (fun y : Nat × Ticket Item => y.2.name) h.names hmem
    rw [hone] at hprefix
    exact hprefix.length_le
  · rw [List.filter_eq_nil_iff.mpr fun x hx => ?_]
    · exact Nat.zero_le 1
    · simpa using fun hname => hnone ⟨x, hx, hname⟩

/-! ## 3. Rejected pushes have appended nothing -/

/-- The invariant of clean runs. -/
def Rejects (s : State Batch Item) : Prop :=
  ∀ q ∈ s.pushes, q.pc = .returned false → q.sent = 0

theorem Rejects.set (h : Rejects s) {p : Nat} {q : Push Batch Item}
    (hq : q.pc = .returned false → q.sent = 0) (hpushes : s'.pushes = s.pushes.set p q) :
    Rejects s' := by
  intro x hx hpc
  rw [hpushes] at hx
  rcases mem_set_pushes hx with rfl | hx
  · exact hq hpc
  · exact h x hx hpc

theorem Rejects.pushMove (h : Rejects s) {p : Nat} {q : Push Batch Item}
    (hm : PushMove setup s p q s') : Rejects s' := by
  cases hm with
  | woke => exact h.set (fun hpc => by cases hpc) rfl
  | turnedAway =>
    refine h.set (fun hpc => ?_) rfl
    injection hpc with hpc
    simpa using hpc
  | passed => exact h.set (fun hpc => by cases hpc) rfl
  | routed => exact h.set (fun hpc => by cases hpc) rfl
  | appended => exact h.set (fun hpc => by cases hpc) rfl
  | notified => exact h.set (fun hpc => by cases hpc) rfl
  | counted =>
    refine h.set (fun hpc => ?_) rfl
    simp only at hpc
    split at hpc <;> cases hpc
  | faulted => exact h

/-- `stop()` and the workers leave the pushes and what was appended alone. -/
theorem stopNext_frame (hs : Writer.stopNext s = some s') :
    s'.pushes = s.pushes ∧ enqueued s'.history = enqueued s.history := by
  unfold Writer.stopNext at hs
  repeat' split at hs
  all_goals first | (cases hs; exact ⟨rfl, by simp⟩) | cases hs

theorem workerMove_frame {w : Nat} {x : Worker Item} (hm : WorkerMove s w x s') :
    s'.pushes = s.pushes ∧ enqueued s'.history = enqueued s.history := by
  cases hm <;> exact ⟨rfl, by simp [State.setWorker]⟩

/-- **The step lemma.** A clean step keeps the invariant. -/
theorem Rejects.step (h : Rejects s) (hflow : Flow s) {a : Action Batch Item}
    (hclean : clean s a = true) (hs : step setup s a = some s') : Rejects s' := by
  cases stepMove_of_step hs with
  | entered batch =>
    intro q hq hpc
    rcases List.mem_append.mp hq with hq | hq
    · exact h q hq hpc
    · obtain rfl := List.mem_singleton.mp hq
      rfl
  | refused hq hpc _ =>
    have hzero := hflow.fresh _ (List.mem_of_getElem? hq) hpc
    refine h.set ?_ rfl
    exact fun _ => hzero
  | ready hq hpc _ => exact h.set (fun hpc => by cases hpc) rfl
  | timedOut hq _ =>
    rw [clean, hq] at hclean
    refine h.set ?_ rfl
    exact fun _ => by simpa using hclean
  | pushed _ hnext => exact h.pushMove (pushMove_of_pushNext hnext)
  | worked _ hnext =>
    intro q hq
    rw [(workerMove_frame (workerMove_of_workerNext hnext)).1] at hq
    exact h q hq
  | stopped hnext =>
    intro q hq
    rw [(stopNext_frame hnext).1] at hq
    exact h q hq
  | forced => exact h

theorem Rejects.honest (h : Rejects s) (hflow : Flow s) : Honest s := by
  have hrejected : ∀ p q, s.pushes[p]? = some q → q.pc = .returned false →
      ∀ x ∈ enqueued s.history, x.2.push ≠ p := by
    rintro p q hq hpc x hx rfl
    obtain ⟨q', hq', hlt, -⟩ := hflow.tickets x hx
    obtain rfl := Option.some.inj (hq.symm.trans hq')
    rw [h q (List.mem_of_getElem? hq) hpc] at hlt
    cases hlt
  refine ⟨hrejected, fun calls last hcalls i => ?_⟩
  -- an item of a rejected call was never in the queue, so it is one of the last call
  have hlast : (processed s.history).filter (fun x =>
      decide (x.2.push ∈ calls ++ [last]) && x.2.index == i) =
        (processed s.history).filter fun x => decide (x.2.name = (last, i)) := by
    refine List.filter_congr fun x hx => ?_
    have hnot : x.2.push ∉ calls := by
      intro hmem
      obtain ⟨q, hq, hpc⟩ := hcalls _ hmem
      exact hrejected _ q hq hpc x (hflow.mem_enqueued hx) rfl
    simp [hnot, Ticket.name, Bool.decide_and, beq_eq_decide]
  rw [hlast]
  exact hflow.processed_once (last, i)

/-- **On clean runs a rejected push has taken nothing**, and a batch that is offered again until it
is accepted is processed once.  A run is clean when only pushes without an appended item time out;
after any other timeout the caller is told that nothing was taken, and offers again what is in the
queue (`honest_fails`). -/
theorem honest_of_clean (setup : Setup Item) (s : State Batch Item)
    (hrun : Runs (step setup) (fun s a => clean s a = true) (started setup.cfg) s) :
    Honest s := by
  have hstep : ∀ (s : State Batch Item) a s', Flow s ∧ Rejects s → clean s a = true →
      step setup s a = some s' → Flow s' ∧ Rejects s' :=
    fun s a s' h hclean hs => ⟨h.1.step hs, h.2.step h.1 hclean hs⟩
  obtain ⟨hflow, hrejects⟩ := hrun.keeps hstep
    ⟨flow_started setup.cfg, fun q hq => absurd hq List.not_mem_nil⟩
  exact hrejects.honest hflow

/-! ## 4. A batch offered twice -/

/-- One worker, one slot, a push timeout. -/
def impatient : Setup Nat where
  cfg := { queueCapacity := 1, workerCount := 1, pushTimeoutMs := 5 }
  itemRoutingKey := fun _ => ""
  hash := String.length

/-- A call of `push()` up to its first wait. -/
def offer (p : Nat) (batch : List Nat) : List (Action (List Nat) Nat) :=
  [.enter batch, .prepare p [] some]

/-- A push appends an item and is back at its wait, or has returned. -/
def sendOne (p : Nat) : List (Action (List Nat) Nat) := List.replicate 6 (.push p)

/-- The worker takes an item and processes it. -/
def workOne : List (Action (List Nat) Nat) := List.replicate 3 (.worker 0)

/-- The queue is full: the second call times out at once and is repeated. -/
def repeatedActions : List (Action (List Nat) Nat) :=
  offer 0 [7] ++ sendOne 0 ++ offer 1 [8, 9] ++ [.timeout 1] ++ workOne ++
    offer 2 [8, 9] ++ sendOne 2 ++ workOne ++ sendOne 2 ++ workOne

/-- The call times out when its first item is in the queue, and is repeated. -/
def doubledActions : List (Action (List Nat) Nat) :=
  offer 0 [8, 9] ++ sendOne 0 ++ [.timeout 0] ++ workOne ++
    offer 1 [8, 9] ++ sendOne 1 ++ workOne ++ sendOne 1 ++ workOne

def afterCalls (nextChannel : Nat) (pushes : List (Push (List Nat) Nat))
    (history : List (Event Nat)) : State (List Nat) Nat where
  channels := [{}]
  nextChannel := nextChannel
  pushes := pushes
  workers := [.waiting]
  history := history

theorem honest_of_clean_repeated :
    Honest (afterCalls 3
      [⟨.returned true, [7], [7], 1⟩, ⟨.returned false, [8, 9], [8, 9], 0⟩,
        ⟨.returned true, [8, 9], [8, 9], 2⟩]
      [.enqueued 0 ⟨0, 0, 7⟩, .processed 0 ⟨0, 0, 7⟩, .enqueued 0 ⟨2, 0, 8⟩,
        .processed 0 ⟨2, 0, 8⟩, .enqueued 0 ⟨2, 1, 9⟩, .processed 0 ⟨2, 1, 9⟩]) :=
  honest_of_clean impatient _ (Runs.of_exec repeatedActions rfl)

/-- **An item is processed twice.**  The rejected call left item 8 in the queue. -/
theorem honest_fails :
    ¬∀ (setup : Setup Nat) (s : State (List Nat) Nat),
      Runs (step setup) anyStep (started setup.cfg) s → Honest s := by
  intro hall
  have hhonest := hall impatient (afterCalls 3
    [⟨.returned false, [8, 9], [8, 9], 1⟩, ⟨.returned true, [8, 9], [8, 9], 2⟩]
    [.enqueued 0 ⟨0, 0, 8⟩, .processed 0 ⟨0, 0, 8⟩, .enqueued 0 ⟨1, 0, 8⟩,
      .processed 0 ⟨1, 0, 8⟩, .enqueued 0 ⟨1, 1, 9⟩, .processed 0 ⟨1, 1, 9⟩])
    (Runs.of_exec doubledActions rfl)
  have honce := hhonest.once [0] 1 (fun p hp => by
    obtain rfl := List.mem_singleton.mp hp
    exact ⟨_, rfl, rfl⟩) 0
  exact absurd honce (by decide)

end MldpDriver.Writer
