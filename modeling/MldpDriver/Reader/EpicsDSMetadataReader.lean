/-
# The results of the directory service

With more than one thread the worker of the reader pushes the results of its RPCs into a bounded
queue, and the consumers pop and process them.  When it runs once, the worker closes the queue,
waits for the consumers and signals its completion; the destructor requests a stop, joins the
worker and does the same.  A wait of `push` also ends on a stop request, and `push` then looks only
whether the queue is closed.  -/
import MldpDriver.Lib.Replace
import MldpDriver.Lib.Run

namespace MldpDriver.Reader.EpicsDS

open Lib.Replace Lib.Run List

variable {R : Type}

/-! ## 1. The threads -/

/-- Where the worker is; the sweep over the PVs does not touch the queue. -/
inductive WorkerPc (R : Type)
  | looping
  | fetching
  | pushing (result : R)
  | deciding
  | sleeping
  | closing
  | joining
  | signalling
  | exited

inductive ConsumerPc (R : Type)
  | popping
  | processing (result : R)
  | exited

inductive DestructorPc
  | notCalled
  | joiningWorker
  | closing
  | joining
  | returned

structure State (R : Type) where
  queue : List R := []
  closed : Bool := false
  stopRequested : Bool := false
  worker : WorkerPc R := .looping
  destructor : DestructorPc := .notCalled
  consumers : List (ConsumerPc R)
  /-- What `push` returned true for, and what was processed. -/
  accepted : List R := []
  processed : List R := []
  /-- A `drainResultConsumers` has returned. -/
  drained : Bool := false
  completed : Bool := false

/-- The queue is there if there are consumers. -/
def State.new (consumers : Nat) : State R where
  consumers := List.replicate consumers .popping

def WorkerPc.isPushing : WorkerPc R → Bool
  | .pushing _ => true
  | _ => false

def ConsumerPc.isExited : ConsumerPc R → Bool
  | .exited => true
  | _ => false

/-! ## 2. Their steps -/

inductive RpcOutcome (R : Type)
  | result (r : R)
  | interrupted
  | failed

/-- The wait of `push` is over. -/
def State.mayPush (maxDepth : Nat) (s : State R) : Bool :=
  s.closed || decide (s.queue.length < maxDepth) || s.stopRequested

/-- `runWorker`; `runsOnce` if the rescan interval is zero. -/
def runWorker (maxDepth : Nat) (runsOnce : Bool) (s : State R) (outcome : RpcOutcome R) :
    Option (State R) :=
  match s.worker with
  | .looping => some { s with worker := if s.stopRequested then .exited else .fetching }
  | .fetching =>
    some { s with
      worker := match outcome with
        | .result r => .pushing r
        | .interrupted => .exited
        | .failed => .deciding }
  | .pushing r =>
    if s.mayPush maxDepth then
      if s.closed then some { s with worker := .exited }
      else some { s with
        queue := s.queue ++ [r], accepted := s.accepted ++ [r], worker := .deciding }
    else none
  | .deciding => some { s with worker := if !s.stopRequested && runsOnce then .closing else .sleeping }
  | .sleeping => some { s with worker := .looping }
  | .closing => some { s with closed := true, worker := .joining }
  | .joining =>
    if s.consumers.all ConsumerPc.isExited then some { s with drained := true, worker := .signalling }
    else none
  | .signalling => some { s with completed := true, worker := .exited }
  | .exited => none

/-- `runConsumer`; a consumer is stopped only after it has been joined. -/
def runConsumer (s : State R) (i : Nat) : Option (State R) :=
  match s.consumers[i]?, s.queue with
  | some .popping, [] =>
    if s.closed then some { s with consumers := s.consumers.set i .exited } else none
  | some .popping, r :: rest =>
    some { s with queue := rest, consumers := s.consumers.set i (.processing r) }
  | some (.processing r), _ =>
    some { s with processed := s.processed ++ [r], consumers := s.consumers.set i .popping }
  | _, _ => none

def runDestructor (s : State R) : Option (State R) :=
  match s.destructor with
  | .notCalled => some { s with stopRequested := true, destructor := .joiningWorker }
  | .joiningWorker => match s.worker with
    | .exited => some { s with destructor := .closing }
    | _ => none
  | .closing => some { s with closed := true, destructor := .joining }
  | .joining =>
    if s.consumers.all ConsumerPc.isExited then
      some { s with drained := true, destructor := .returned }
    else none
  | .returned => none

inductive Action (R : Type)
  | worker (outcome : RpcOutcome R)
  | consumer (i : Nat)
  | destructor

def step (maxDepth : Nat) (runsOnce : Bool) (s : State R) : Action R → Option (State R)
  | .worker outcome => runWorker maxDepth runsOnce s outcome
  | .consumer i => runConsumer s i
  | .destructor => runDestructor s

/-! ## 3. What the queue is for -/

def ConsumerPc.held : ConsumerPc R → List R
  | .processing r => [r]
  | _ => []

def State.held (s : State R) : List R := s.consumers.flatMap ConsumerPc.held

/-- **The queue is bounded and loses nothing**: what was accepted is in it, with one consumer, or
processed, and after a drain, so when the completion is signalled, all of it is processed. -/
structure Safe (maxDepth : Nat) (s : State R) : Prop where
  depth : s.queue.length ≤ maxDepth
  once : s.accepted.Perm (s.processed ++ s.held ++ s.queue)
  drained : s.drained → s.accepted.Perm s.processed
  completed : s.completed → s.drained

/-- **The condition**: where a push is about to happen and a stop is requested, there is room, or
the queue is closed.  The wait ends on the request, full queue or not. -/
def Roomy (maxDepth : Nat) (s : State R) : Action R → Prop
  | .worker _ => s.worker.isPushing = true → s.stopRequested = true →
      s.closed = true ∨ s.queue.length < maxDepth
  | _ => True

instance (maxDepth : Nat) (s : State R) : DecidablePred (Roomy maxDepth s)
  | .worker _ => inferInstanceAs (Decidable (_ → _ → _))
  | .consumer _ => isTrue trivial
  | .destructor => isTrue trivial

/-! ## 4. The invariant

`depth` is the only clause that the condition is needed for; the others hold in every run. -/

structure Sound (maxDepth : Nat) (s : State R) : Prop where
  depth : s.queue.length ≤ maxDepth
  once : s.accepted.Perm (s.processed ++ s.held ++ s.queue)
  nonempty : s.consumers ≠ []
  /-- A consumer ends when the queue is closed and empty, and it stays so. -/
  ended : ∀ c ∈ s.consumers, c.isExited → s.closed ∧ s.queue = []
  drained : s.drained → s.consumers.all ConsumerPc.isExited
  signalling : s.worker = .signalling → s.drained
  completed : s.completed → s.drained

theorem Sound.safe {maxDepth : Nat} {s : State R} (h : Sound maxDepth s) : Safe maxDepth s where
  depth := h.depth
  once := h.once
  drained hdrained := by
    have hall := all_eq_true.mp (h.drained hdrained)
    obtain ⟨c, hc⟩ := exists_mem_of_ne_nil _ h.nonempty
    have hheld : s.held = [] := flatMap_eq_nil_iff.mpr fun c hc => by
      have hexited := hall c hc
      cases c with
      | exited => rfl
      | popping => cases hexited
      | processing r => cases hexited
    have honce := h.once
    rwa [hheld, (h.ended c hc (hall c hc)).2, append_nil, append_nil] at honce
  completed := h.completed

theorem sound_new {maxDepth n : Nat} (hn : 0 < n) : Sound maxDepth (State.new n : State R) where
  depth := Nat.zero_le _
  once := by simp [State.held, State.new, ConsumerPc.held]
  nonempty := by simp [State.new, Nat.pos_iff_ne_zero.mp hn]
  ended := by
    intro c hc hexited
    rw [eq_of_mem_replicate hc] at hexited
    cases hexited
  drained h := by cases h
  signalling h := by cases h
  completed h := by cases h

variable {maxDepth : Nat} {runsOnce : Bool} {s s' : State R}

theorem Sound.worker {outcome : RpcOutcome R} (h : Sound maxDepth s)
    (hok : Roomy maxDepth s (.worker outcome))
    (hstep : runWorker maxDepth runsOnce s outcome = some s') :
    Sound maxDepth s' := by
  rw [runWorker.eq_def] at hstep
  cases hpc : s.worker with
  | pushing r =>
    simp only [hpc] at hstep
    split at hstep
    · next hmay =>
      split at hstep
      · obtain rfl := Option.some.inj hstep
        exact { h with signalling := fun hpc => by cases hpc }
      · next hopen =>
        obtain rfl := Option.some.inj hstep
        have hroom : s.queue.length < maxDepth := by
          rw [State.mayPush, Bool.or_eq_true, Bool.or_eq_true, decide_eq_true_eq] at hmay
          rcases hmay with (hclosed | hroom) | hstop
          · exact absurd hclosed hopen
          · exact hroom
          · exact (hok (by rw [hpc]; rfl) hstop).resolve_left hopen
        refine { h with
          depth := ?_, once := ?_, ended := ?_, signalling := fun hpc => by cases hpc }
        · rw [length_append]
          exact hroom
        · have honce := h.once.append_right [r]
          rwa [append_assoc] at honce
        · exact fun c hc hexited => absurd (h.ended c hc hexited).1 hopen
    · cases hstep
  | joining =>
    simp only [hpc] at hstep
    split at hstep
    · next hall =>
      obtain rfl := Option.some.inj hstep
      exact { h with drained := fun _ => hall, signalling := fun _ => rfl, completed := fun _ => rfl }
    · cases hstep
  | closing =>
    simp only [hpc] at hstep
    obtain rfl := Option.some.inj hstep
    exact { h with
      ended := fun c hc hexited => ⟨rfl, (h.ended c hc hexited).2⟩
      signalling := fun hpc => by cases hpc }
  | signalling =>
    simp only [hpc] at hstep
    obtain rfl := Option.some.inj hstep
    exact { h with completed := fun _ => h.signalling hpc, signalling := fun hpc => by cases hpc }
  | exited =>
    simp only [hpc] at hstep
    cases hstep
  | looping =>
    simp only [hpc] at hstep
    obtain rfl := Option.some.inj hstep
    exact { h with signalling := fun hpc => by dsimp only at hpc; split at hpc <;> cases hpc }
  | fetching =>
    simp only [hpc] at hstep
    obtain rfl := Option.some.inj hstep
    exact { h with signalling := fun hpc => by cases outcome <;> cases hpc }
  | deciding =>
    simp only [hpc] at hstep
    obtain rfl := Option.some.inj hstep
    exact { h with signalling := fun hpc => by dsimp only at hpc; split at hpc <;> cases hpc }
  | sleeping =>
    simp only [hpc] at hstep
    obtain rfl := Option.some.inj hstep
    exact { h with signalling := fun hpc => by cases hpc }

theorem Sound.not_drained {i : Nat} {c : ConsumerPc R} (h : Sound maxDepth s)
    (hc : s.consumers[i]? = some c) (hrunning : c.isExited = false) : s.drained = false := by
  cases hdrained : s.drained with
  | false => rfl
  | true =>
    have hexited := all_eq_true.mp (h.drained hdrained) c (mem_of_getElem? hc)
    rw [hrunning] at hexited
    cases hexited

theorem Sound.consumer {i : Nat} (h : Sound maxDepth s) (hstep : runConsumer s i = some s') :
    Sound maxDepth s' := by
  rw [runConsumer] at hstep
  split at hstep
  · next hc hqueue =>
    split at hstep
    · next hclosed =>
      obtain rfl := Option.some.inj hstep
      have hrunning := h.not_drained hc rfl
      refine { h with once := ?_, nonempty := ?_, ended := ?_, drained := ?_ }
      · have hheld := flatMap_replace hc ConsumerPc.exited ConsumerPc.held
        simp only [ConsumerPc.held, append_nil] at hheld
        exact h.once.trans ((hheld.symm.append_left _).append_right _)
      · simpa using h.nonempty
      · exact fun _ _ _ => ⟨hclosed, hqueue⟩
      · exact fun hdrained => absurd hdrained (by simp [hrunning])
    · cases hstep
  · next r rest hc hqueue =>
    obtain rfl := Option.some.inj hstep
    have hrunning := h.not_drained hc rfl
    refine { h with depth := ?_, once := ?_, nonempty := ?_, ended := ?_, drained := ?_ }
    · have hdepth := h.depth
      rw [hqueue, length_cons] at hdepth
      exact Nat.le_of_succ_le hdepth
    · have hheld := flatMap_replace hc (.processing r) ConsumerPc.held
      simp only [ConsumerPc.held, append_nil] at hheld
      have honce := h.once
      rw [hqueue, append_cons, append_assoc s.processed] at honce
      exact honce.trans ((hheld.symm.append_left _).append_right _)
    · simpa using h.nonempty
    · intro c hmem hexited
      rcases mem_replace hmem with rfl | hmem
      · cases hexited
      · rw [(h.ended c hmem hexited).2] at hqueue
        cases hqueue
    · exact fun hdrained => absurd hdrained (by simp [hrunning])
  · next r hc =>
    obtain rfl := Option.some.inj hstep
    have hrunning := h.not_drained hc rfl
    refine { h with once := ?_, nonempty := ?_, ended := ?_, drained := ?_ }
    · have hheld := flatMap_replace hc .popping ConsumerPc.held
      simp only [ConsumerPc.held, append_nil] at hheld
      refine h.once.trans (List.Perm.append_right _ ?_)
      rw [append_assoc]
      exact (hheld.symm.trans perm_append_comm).append_left _
    · simpa using h.nonempty
    · intro c hmem hexited
      rcases mem_replace hmem with rfl | hmem
      · cases hexited
      · exact h.ended c hmem hexited
    · exact fun hdrained => absurd hdrained (by simp [hrunning])
  · cases hstep

theorem Sound.destructor (h : Sound maxDepth s) (hstep : runDestructor s = some s') :
    Sound maxDepth s' := by
  rw [runDestructor] at hstep
  split at hstep
  · obtain rfl := Option.some.inj hstep
    exact { h with }
  · split at hstep
    · obtain rfl := Option.some.inj hstep
      exact { h with }
    · cases hstep
  · obtain rfl := Option.some.inj hstep
    exact { h with ended := fun c hc hexited => ⟨rfl, (h.ended c hc hexited).2⟩ }
  · split at hstep
    · next hall =>
      obtain rfl := Option.some.inj hstep
      exact { h with drained := fun _ => hall, signalling := fun _ => rfl, completed := fun _ => rfl }
    · cases hstep
  · cases hstep

/-- **No result is lost, and the queue keeps its bound**, in every run in which a stop request does
not end the wait of a push at a full queue: every result that was accepted is processed once before
the drain returns.  A push that a stop request wakes looks only whether the queue is closed. -/
theorem safe_of_roomy {n : Nat} (hn : 0 < n)
    (hrun : Runs (step maxDepth runsOnce) (Roomy maxDepth) (State.new n) s) : Safe maxDepth s := by
  refine (hrun.keeps (fun s a s' h hok hstep => ?_) (sound_new hn)).safe
  cases a with
  | worker outcome => exact h.worker hok hstep
  | consumer i => exact h.consumer hstep
  | destructor => exact h.destructor hstep

/-! ## 5. A stop request at a full queue -/

/-- The worker fetches a result and is about to push it. -/
def fetch (r : Nat) : List (Action Nat) :=
  [.worker .failed, .worker (.result r)]

/-- The second result waits for room, the destructor requests the stop, and a consumer takes the
first result before the push goes on; both are processed when the destructor returns. -/
theorem results_safe : Safe 1
    ({ closed := true, stopRequested := true, worker := .exited, destructor := .returned,
       consumers := [.exited, .exited], accepted := [7, 8], processed := [8, 7],
       drained := true } : State Nat) := by
  have hrun : Runs (step 1 false) (Roomy 1) (State.new 2) _ :=
    Runs.of_exec (fetch 7 ++ [.worker .failed, .worker .failed, .worker .failed] ++ fetch 8 ++
      [.destructor, .consumer 0, .worker .failed, .consumer 1, .consumer 1, .worker .failed,
       .worker .failed, .worker .failed, .destructor, .destructor, .consumer 1, .consumer 0,
       .consumer 0, .destructor]) rfl
  exact safe_of_roomy Nat.two_pos hrun

/-- **The second result is pushed into a full queue.** -/
theorem stopped_not_safe :
    ¬ ∀ s : State Nat, Runs (step 1 false) anyStep (State.new 1) s → Safe 1 s := by
  intro hall
  have hrun : Runs (step 1 false) anyStep (State.new 1 : State Nat) _ :=
    Runs.of_exec (fetch 7 ++ [.worker .failed, .worker .failed, .worker .failed] ++ fetch 8 ++
      [.destructor, .worker .failed]) rfl
  exact absurd (hall _ hrun).depth (by decide)

end MldpDriver.Reader.EpicsDS
