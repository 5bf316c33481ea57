/-
# The bus queue: back-pressure, draining, wake-ups

`BusOk` is the contract of the bus once `start()` has returned: the queue stays within its capacity,
an accepted batch is dispatched once, in acceptance order, to the writers its route selects, before
`stop()` finishes, a rejected batch is never dispatched, and no thread sleeps through its wait
condition.
-/
import MldpDriver.Controller.MLDPPVXSController
import MldpDriver.Lib.Tagged

namespace MldpDriver.Controller

open Lib.Run Lib.Tagged List

/-! ## 1. What a run shows -/

/-- The accepted batches, in order. -/
def accepted (h : List Event) : List Ticket :=
  h.filterMap fun
    | .accepted t => some t
    | _ => none

/-- The dispatched batches, in order. -/
def dispatched (h : List Event) : List Ticket :=
  h.filterMap fun
    | .dispatched t _ _ => some t
    | _ => none

@[simp] theorem accepted_append (h h' : List Event) :
    accepted (h ++ h') = accepted h ++ accepted h' := filterMap_append

@[simp] theorem dispatched_append (h h' : List Event) :
    dispatched (h ++ h') = dispatched h ++ dispatched h' := filterMap_append

@[simp] theorem accepted_accepted (t : Ticket) : accepted [.accepted t] = [t] := rfl

@[simp] theorem accepted_asked (p i : Nat) (d g : Bool) : accepted [.asked p i d g] = [] := rfl

@[simp] theorem accepted_dispatched (t : Ticket) (ws : List Nat) (late : Bool) :
    accepted [.dispatched t ws late] = [] := rfl

@[simp] theorem dispatched_accepted (t : Ticket) : dispatched [.accepted t] = [] := rfl

@[simp] theorem dispatched_asked (p i : Nat) (d g : Bool) : dispatched [.asked p i d g] = [] := rfl

@[simp] theorem dispatched_dispatched (t : Ticket) (ws : List Nat) (late : Bool) :
    dispatched [.dispatched t ws late] = [t] := rfl

/-- The dispatches of the batch of one push. -/
def dispatchesOf (p : Nat) (h : List Event) : List Event :=
  h.filter fun
    | .dispatched t _ _ => decide (t.push = p)
    | _ => false

/-- The writers the configured route table selects for a batch. -/
def configuredWriters (setup : Setup) (b : EventBatch) : List Nat :=
  selected setup (RouteTable.ofRoutes setup.routes) setup.writers b

/-- The consumer will take the queue and then wake every pusher: the queue is not empty, and the
consumer is on its way to it or about to be woken by a push. -/
def consumerComes (s : State) : Prop :=
  s.queue ≠ [] ∧ s.consumer ≠ .absent ∧ s.consumer ≠ .exited ∧
    (s.consumer = .asleep → ∃ q ∈ s.pushes, q.pc = .pushed)

/-- `stop()` is not held up by a sleeping thread of a reader. -/
def readersAwake (s : State) : Prop := ∀ q ∈ s.pushes, q.readerBusy = true → q.pc ≠ .asleep

/-- A wake-up of the sleeping pushers is still to come. -/
def notFullAhead (s : State) : Prop :=
  (∃ batches, s.consumer = .drained batches) ∨ consumerComes s ∨
    s.stopper = .clearingReaders ∧ readersAwake s ∨ s.stopper = .flushing ∨
    s.stopper = .wakingPushers

/-- A wake-up of the sleeping consumer is still to come. -/
def notEmptyAhead (s : State) : Prop :=
  (∃ q ∈ s.pushes, q.pc = .pushed) ∨ s.stopper = .clearingReaders ∧ readersAwake s ∨
    s.stopper = .flushing ∨ s.stopper = .wakingPushers ∨ s.stopper = .wakingConsumer

/-- **The contract of the bus.** A batch counts as dispatched when each writer its route selects
was offered it.  The last two fields are the wake-ups: a thread that sleeps with its wait condition
true has a notify ahead of it, so nobody sleeps through. -/
structure BusOk (setup : Setup) (s : State) : Prop where
  capacity : s.queue.length ≤ setup.capacity
  dispatched : s.stopper = .stopped → ∀ (p : Nat) (q : Push), s.pushes[p]? = some q →
    q.pc = .returned true →
      dispatchesOf p s.history = [.dispatched ⟨p, q.batch⟩ (configuredWriters setup q.batch) false]
  inOrder : Controller.dispatched s.history <+: accepted s.history
  routed : ∀ t writers late, Event.dispatched t writers late ∈ s.history →
    writers = configuredWriters setup t.batch
  rejected : ∀ (p : Nat) (q : Push), s.pushes[p]? = some q → q.pc = .returned false →
    dispatchesOf p s.history = []
  pusherWakes : ∀ q ∈ s.pushes, q.pc = .asleep → hasRoom setup s = true → notFullAhead s
  consumerWakes : s.consumer = .asleep → hasWork s = true → notEmptyAhead s

/-! ## 2. The conditions on steps -/

/-- `stop()` is called after `start()` has returned. -/
def afterStart (s : State) : Action → Bool
  | .stop => !(s.stopper matches .idle) || (s.starter matches .returned)
  | _ => true

/-- Where `stop()` finds no consumer thread to join, the queue is empty. -/
def soundJoin (s : State) : Action → Bool
  | .stop => !(s.stopper matches .joining) || !(s.consumer matches .absent) || s.queue.isEmpty
  | _ => true

/-! ## 3. The invariant -/

/-- A push at this point holds the mutex. -/
def PushAt.holds : PushAt → Bool
  | .locked | .admitted | .dozing => true
  | _ => false

/-- The consumer at this point holds the mutex. -/
def Consumer.holds : Consumer → Bool
  | .locked | .admitted | .dozing => true
  | _ => false

/-- The batches the consumer has taken and not dispatched. -/
def Consumer.batches : Consumer → List Ticket
  | .drained l => l
  | .dispatching l => l
  | _ => []

/-- `stop()` has passed the mutex. -/
def StopAt.flushed : StopAt → Bool
  | .wakingPushers | .wakingConsumer | .joining | .clearingProcessors | .clearingWriters
  | .stopped => true
  | _ => false

/-- `stop()` has joined the consumer. -/
def StopAt.joined : StopAt → Bool
  | .clearingProcessors | .clearingWriters | .stopped => true
  | _ => false

/-- What a push at a point of its wait knows about the queue. -/
def waitOk (setup : Setup) (s : State) : PushAt → Prop
  | .admitted => s.running = true → s.queue.length < setup.capacity
  | .dozing => setup.capacity ≤ s.queue.length
  | .asleep => setup.capacity ≤ s.queue.length ∨ ∃ batches, s.consumer = .drained batches
  | _ => True

/-- The invariant of the bus. -/
structure BusInv (setup : Setup) (s : State) : Prop where
  capacity : s.queue.length ≤ setup.capacity
  holders : ∀ (p : Nat) (q : Push), s.pushes[p]? = some q →
    (q.pc.holds = true ↔ s.mutex = some (.push p))
  holder : ∀ p, s.mutex = some (.push p) → p < s.pushes.length
  consumerHolds : s.consumer.holds = true ↔ s.mutex = some .consumer
  waits : ∀ q ∈ s.pushes, waitOk setup s q.pc
  consumerDozing : s.consumer = .dozing → s.queue = [] ∧ s.stopper.flushed = false
  consumerAsleep : s.consumer = .asleep →
    (s.queue = [] ∨ ∃ q ∈ s.pushes, q.pc = .pushed) ∧
      (s.stopper.flushed = false ∨ s.stopper = .wakingPushers ∨ s.stopper = .wakingConsumer)
  consumerExited : s.consumer = .exited → s.queue = [] ∧ s.running = false
  running : s.running = true ↔ s.stopper = .idle ∨ s.stopper = .stopping
  flow : accepted s.history = dispatched s.history ++ (s.consumer.batches ++ s.queue)
  tickets : ∀ t, t ∈ accepted s.history ↔
    ∃ q, s.pushes[t.push]? = some q ∧ q.batch = t.batch ∧
      (q.pc = .pushed ∨ q.pc = .returned true)
  names : ((accepted s.history).map Ticket.push).Nodup
  spawned : s.consumer ≠ .absent ↔ s.starter = .returned
  table : s.starter = .tableBuilt ∨ s.starter = .returned →
    s.table = RouteTable.ofRoutes setup.routes
  writers : s.stopper ≠ .stopped → s.writers = setup.writers
  joined : s.stopper.joined = true → s.consumer.batches ++ s.queue = []
  routed : ∀ t writers late, Event.dispatched t writers late ∈ s.history →
    writers = configuredWriters setup t.batch ∧ late = false

theorem busInv_starting (setup : Setup) : BusInv setup (starting setup) where
  capacity := Nat.zero_le _
  holders := by simp [starting]
  holder := by simp [starting]
  consumerHolds := by simp [starting, Consumer.holds]
  waits := by simp [starting]
  consumerDozing := by simp [starting]
  consumerAsleep := by simp [starting]
  consumerExited := by simp [starting]
  running := by simp [starting]
  flow := rfl
  tickets := by simp [starting, accepted]
  names := by simp [starting, accepted]
  spawned := by simp [starting]
  table := by simp [starting]
  writers := fun _ => rfl
  joined := by simp [starting, StopAt.joined]
  routed := by simp [starting]

/-! ## 4. Moving one push -/

section Steps

variable {setup : Setup} {s : State}

theorem getElem?_setPush (s : State) (p p' : Nat) (pc : PushAt) :
    (s.setPush p pc).pushes[p']? =
      (s.pushes[p']?).map (fun q => if p = p' then { q with pc := pc } else q) := by
  simp only [State.setPush, List.getElem?_modify]
  split <;> cases s.pushes[p']? <;> rfl

@[simp] theorem length_setPush (s : State) (p : Nat) (pc : PushAt) :
    (s.setPush p pc).pushes.length = s.pushes.length := by
  simp [State.setPush]

variable {q : Push}
variable {p : Nat}
variable {pc : PushAt}

theorem forall_setPush {P : Nat → Push → Prop} (hq : s.pushes[p]? = some q)
    (hother : ∀ p' q', p' ≠ p → s.pushes[p']? = some q' → P p' q') (hself : P p { q with pc := pc
    }) :
    ∀ p' q', (s.setPush p pc).pushes[p']? = some q' → P p' q' := by
  intro p' q' hq'
  rw [getElem?_setPush] at hq'
  by_cases hp : p = p'
  · subst hp
    rw [hq] at hq'
    simp only [Option.map_some, if_true, Option.some.injEq] at hq'
    exact hq' ▸ hself
  · simp only [hp, if_false, Option.map_id'] at hq'
    exact hother p' q' (Ne.symm hp) hq'

theorem mem_setPush {P : Push → Prop} (hq : s.pushes[p]? = some q)
    (hother : ∀ p' q', p' ≠ p → s.pushes[p']? = some q' → P q') (hself : P { q with pc := pc }) :
    ∀ q' ∈ (s.setPush p pc).pushes, P q' := by
  intro q' hmem
  obtain ⟨p', hq'⟩ := List.getElem?_of_mem hmem
  exact forall_setPush (P := fun _ x => P x) hq hother hself p' q' hq'

theorem pushed_setPush (hq : s.pushes[p]? = some q) (hpc : q.pc ≠ .pushed)
    (h : ∃ x ∈ s.pushes, x.pc = .pushed) :
    ∃ x ∈ (s.setPush p pc).pushes, x.pc = .pushed := by
  obtain ⟨x, hx, hxpc⟩ := h
  obtain ⟨p', hp'⟩ := List.getElem?_of_mem hx
  have hne : ¬ p = p' := by
    rintro rfl
    rw [hq, Option.some.injEq] at hp'
    exact hpc (hp' ▸ hxpc)
  refine ⟨x, mem_of_getElem? (i := p') ?_, hxpc⟩
  rw [getElem?_setPush, hp']
  simp [hne]

/-- An accepted batch is that of a push which has been through the queue. -/
theorem tickets_setPush {t : Ticket} (hq : s.pushes[p]? = some q)
    (hsame : (pc = .pushed ∨ pc = .returned true) ↔ (q.pc = .pushed ∨ q.pc = .returned true)) :
    (∃ x, (s.setPush p pc).pushes[t.push]? = some x ∧ x.batch = t.batch ∧
      (x.pc = .pushed ∨ x.pc = .returned true)) ↔
    ∃ x, s.pushes[t.push]? = some x ∧ x.batch = t.batch ∧
      (x.pc = .pushed ∨ x.pc = .returned true) := by
  rw [getElem?_setPush]
  by_cases hp : p = t.push
  · subst hp
    simp only [hq, Option.map_some, if_true, Option.some.injEq, exists_eq_left', hsame]
  · simp [hp]

theorem BusInv.others_free (h : BusInv setup s) {p p' : Nat} {q' : Push}
    (hmutex : s.mutex = some (.push p)) (hne : p' ≠ p) (hq' : s.pushes[p']? = some q') :
    q'.pc.holds = false := by
  rw [Bool.eq_false_iff]
  intro hholds
  have := (h.holders p' q' hq').mp hholds
  rw [hmutex, Option.some.injEq, Holder.push.injEq] at this
  exact hne this.symm

theorem BusInv.consumer_free (h : BusInv setup s) (hmutex : s.mutex ≠ some .consumer) :
    s.consumer.holds = false := by
  rw [Bool.eq_false_iff]
  exact fun hholds => hmutex (h.consumerHolds.mp hholds)

variable {s' : State}

theorem waitOk_of_free (hfree : pc.holds = false)
    (hasleep : waitOk setup s .asleep → waitOk setup s' .asleep) (h : waitOk setup s pc) :
    waitOk setup s' pc := by
  cases pc <;> first | exact hasleep h | trivial

/-- A push goes from one point without the mutex to another; it stays on the same side of the
queue. -/
theorem BusInv.move (h : BusInv setup s) (pc : PushAt) (es : List Event)
    (hq : s.pushes[p]? = some q) (hfree : q.pc.holds = false) (hfree' : pc.holds = false)
    (hpushed : q.pc ≠ .pushed) (hpc : pc ≠ .asleep)
    (hsame : (pc = .pushed ∨ pc = .returned true) ↔ (q.pc = .pushed ∨ q.pc = .returned true))
    (hacc : accepted es = []) (hdisp : ∀ t ws late, Event.dispatched t ws late ∉ es) :
    BusInv setup { s.setPush p pc with history := s.history ++ es } := by
  have hdisp' : dispatched es = [] := by
    rw [dispatched, filterMap_eq_nil_iff]
    rintro (_ | _ | _) he
    · rfl
    · rfl
    · exact absurd he (hdisp _ _ _)
  exact
    { h with
      holders := by
        refine forall_setPush hq (fun p' q' _ hq' => h.holders p' q' hq') ?_
        show pc.holds = true ↔ s.mutex = some (.push p)
        rw [← h.holders p q hq, hfree, hfree']
      holder := by simpa using h.holder
      waits := by
        refine mem_setPush hq (fun p' q' _ hq' => h.waits q' (mem_of_getElem? hq')) ?_
        cases pc <;> first | exact absurd rfl hpc | trivial
      consumerAsleep := fun hc => by
        obtain ⟨hw, hst⟩ := h.consumerAsleep hc
        exact ⟨hw.imp id (pushed_setPush hq hpushed), hst⟩
      flow := by simpa [hacc, hdisp'] using h.flow
      tickets := fun t => by
        rw [tickets_setPush hq hsame]
        simpa [hacc] using h.tickets t
      names := by simpa [hacc] using h.names
      routed := by
        intro t ws late hmem
        rcases mem_append.mp hmem with hmem | hmem
        · exact h.routed t ws late hmem
        · exact absurd hmem (hdisp t ws late) }

theorem wakeConsumer_ne (c : Consumer) : wakeConsumer c ≠ .asleep := by
  unfold wakeConsumer
  split
  · simp
  · rename_i hc
    exact hc

theorem BusInv.awake (h : BusInv setup s) :
    BusInv setup { s with consumer := wakeConsumer s.consumer } := by
  by_cases hc : s.consumer = .asleep
  · have hw : wakeConsumer s.consumer = .top := by rw [hc]; rfl
    rw [hw]
    exact
      { h with
        consumerHolds := by simpa [hc, Consumer.holds] using h.consumerHolds
        waits := fun q hq => by
          have := h.waits q hq
          cases hpc : q.pc <;> rw [hpc] at this <;> first | exact this | simpa [waitOk, hc] using this
        consumerDozing := fun hd => by cases hd
        consumerAsleep := fun ha => by cases ha
        consumerExited := fun he => by cases he
        flow := by simpa [hc, Consumer.batches] using h.flow
        spawned := by simpa [hc] using h.spawned
        joined := fun hj => by simpa [hc, Consumer.batches] using h.joined hj }
  · have hw : wakeConsumer s.consumer = s.consumer := if_neg hc
    rw [hw]
    exact h

/-! ## 5. Steps of push() -/

theorem BusInv.wait (h : BusInv setup s) (pc : PushAt) {m : Option Holder}
    (hq : s.pushes[p]? = some q) (hmutex : s.mutex = none ∨ s.mutex = some (.push p))
    (hm : m = if pc.holds then some (.push p) else none)
    (hpushed : q.pc ≠ .pushed ∧ q.pc ≠ .returned true ∧ pc ≠ .pushed ∧ pc ≠ .returned true)
    (hwait : waitOk setup s pc) : BusInv setup { s.setPush p pc with mutex := m } := by
  have hother : ∀ p' q', p' ≠ p → s.pushes[p']? = some q' → q'.pc.holds = false := by
    intro p' q' hne hq'
    rcases hmutex with hmutex | hmutex
    · rw [Bool.eq_false_iff]
      intro hholds
      have := (h.holders p' q' hq').mp hholds
      rw [hmutex] at this
      cases this
    · exact h.others_free hmutex hne hq'
  have hcons : s.consumer.holds = false := by
    refine h.consumer_free ?_
    rcases hmutex with hmutex | hmutex <;> simp [hmutex]
  exact
    { h with
      holders := by
        refine forall_setPush hq (fun p' q' hne hq' => ?_) ?_
        · rw [hother p' q' hne hq', hm]
          cases pc.holds <;> simp [Ne.symm hne]
        · rw [hm]
          cases pc.holds <;> simp
      holder := by
        intro p' hp'
        rw [show m = some (.push p') from hp'] at hm
        split at hm
        · cases hm
          simpa using (List.getElem?_eq_some_iff.mp hq).1
        · cases hm
      consumerHolds := by
        show s.consumer.holds = true ↔ m = some .consumer
        rw [hcons, hm]
        cases pc.holds <;> simp
      waits := mem_setPush hq (fun p' q' _ hq' => h.waits q' (mem_of_getElem? hq')) hwait
      consumerAsleep := fun hc => by
        obtain ⟨hw, hst⟩ := h.consumerAsleep hc
        exact ⟨hw.imp id (pushed_setPush hq hpushed.1), hst⟩
      tickets := fun t => by
        rw [tickets_setPush hq (by simp [hpushed])]
        exact h.tickets t }

/-- **A batch is accepted.** The push holds the mutex, there is room, and the bus is running. -/
theorem BusInv.accept (h : BusInv setup s) (hq : s.pushes[p]? = some q) (hpc : q.pc = .admitted)
    (hrun : s.running = true) :
    BusInv setup { s.setPush p .pushed with
      mutex := none
      queue := s.queue ++ [⟨p, q.batch⟩]
      history := s.history ++ [.accepted ⟨p, q.batch⟩] } := by
  have hmutex : s.mutex = some (.push p) := (h.holders p q hq).mp (by rw [hpc]; rfl)
  have hcons : s.consumer.holds = false := h.consumer_free (by simp [hmutex])
  have hroom : s.queue.length < setup.capacity := by
    have := h.waits q (mem_of_getElem? hq)
    rw [hpc] at this
    exact this hrun
  have hp : p < s.pushes.length := (List.getElem?_eq_some_iff.mp hq).1
  have hst := h.running.mp hrun
  exact
    { h with
      capacity := by
        show (s.queue ++ [_]).length ≤ setup.capacity
        rw [length_append]
        exact hroom
      holders := by
        refine forall_setPush hq (fun p' q' hne hq' => ?_) ?_
        · simp [h.others_free hmutex hne hq']
        · simp [PushAt.holds]
      holder := fun p' hp' => by cases hp'
      consumerHolds := by simp [hcons, State.setPush]
      waits := by
        refine mem_setPush hq (fun p' q' hne hq' => ?_) trivial
        refine waitOk_of_free (h.others_free hmutex hne hq') (fun hw => ?_)
          (h.waits q' (mem_of_getElem? hq'))
        exact hw.imp (fun hle => by simp only [length_append]; omega) id
      consumerDozing := fun hc => by
        simp [show s.consumer = .dozing from hc, Consumer.holds] at hcons
      consumerAsleep := fun hc => by
        refine ⟨Or.inr ?_, (h.consumerAsleep hc).2⟩
        exact ⟨{ q with pc := .pushed }, mem_of_getElem? (i := p)
          (by rw [show ({ s.setPush p .pushed with
            mutex := none
            queue := s.queue ++ [⟨p, q.batch⟩]
            history := s.history ++ [.accepted ⟨p, q.batch⟩] } : State).pushes =
              (s.setPush p .pushed).pushes from rfl, getElem?_setPush, hq]; simp), rfl⟩
      consumerExited := fun hc => by
        have := (h.consumerExited hc).2
        rw [hrun] at this
        cases this
      flow := by simp [h.flow, State.setPush]
      tickets := fun t => by
        show t ∈ accepted (s.history ++ [_]) ↔ ∃ x, (s.setPush p .pushed).pushes[t.push]? = some x ∧ _
        rw [accepted_append, mem_append, h.tickets t, getElem?_setPush]
        by_cases hpt : p = t.push
        · subst hpt
          simp only [hq, hpc, Option.map_some, if_true, Option.some.injEq, exists_eq_left',
            accepted_accepted, mem_singleton]
          cases t
          simp [eq_comm]
        · have hne : t ≠ ⟨p, q.batch⟩ := fun he => hpt (by rw [he])
          simp [hpt, hne]
      names := by
        rw [accepted_append, map_append, List.nodup_append]
        refine ⟨h.names, by simp, ?_⟩
        rintro a ha b hb rfl
        simp only [accepted_accepted, map_cons, map_nil, mem_singleton] at hb
        obtain ⟨t, ht, hta⟩ := mem_map.mp ha
        obtain ⟨x, hx, -, hxpc⟩ := (h.tickets t).mp ht
        rw [hta, hb, hq, Option.some.injEq] at hx
        subst hx
        simp [hpc] at hxpc
      joined := fun hj => by
        rcases hst with hst | hst <;> simp [State.setPush, hst, StopAt.joined] at hj
      routed := by
        intro t ws late hmem
        refine h.routed t ws late ?_
        simpa using hmem }

/-- `queue_not_empty_.notify_one()` wakes the consumer, who is the only one to wait for it. -/
theorem BusInv.notify (h : BusInv setup s) (hq : s.pushes[p]? = some q) (hpc : q.pc = .pushed) :
    BusInv setup { s.setPush p (.returned true) with consumer := wakeConsumer s.consumer } := by
  have hfree : q.pc.holds = false := by rw [hpc]; rfl
  exact
    { h.awake with
      holders := by
        refine forall_setPush hq (fun p' q' _ hq' => h.holders p' q' hq') ?_
        show PushAt.holds (.returned true) = true ↔ s.mutex = some (.push p)
        rw [← h.holders p q hq, hfree]
        rfl
      holder := by simpa using h.holder
      waits := mem_setPush hq (fun p' q' _ hq' => h.awake.waits q' (mem_of_getElem? hq')) trivial
      consumerAsleep := fun hc => absurd hc (wakeConsumer_ne s.consumer)
      tickets := fun t => by
        have hsame : ((.returned true : PushAt) = .pushed ∨ (.returned true : PushAt) = .returned true) ↔
            (q.pc = .pushed ∨ q.pc = .returned true) := by simp [hpc]
        exact (h.tickets t).trans (tickets_setPush hq hsame).symm }

theorem BusInv.pushNext (h : BusInv setup s) (hq : s.pushes[p]? = some q)
    (hs : pushNext setup s p q = some s') : BusInv setup s' := by
  have hholder := h.holders p q hq
  have hwait := h.waits q (mem_of_getElem? hq)
  unfold Controller.pushNext at hs
  split at hs
  · rename_i i hpc
    split at hs
    · cases hs
      have := h.move .ready [] hq (by rw [hpc]; rfl) rfl (by simp [hpc]) (by simp)
        (by simp [hpc]) rfl (by simp)
      rwa [append_nil] at this
    · cases hs
      exact h.move _ _ hq (by rw [hpc]; rfl) rfl (by simp [hpc]) (by simp) (by simp [hpc]) rfl (by simp)
  · rename_i hpc
    split at hs
    · rename_i hmutex
      cases hs
      exact h.wait _ hq (Or.inl hmutex) rfl (by simp [hpc]) trivial
    · cases hs
  · rename_i hpc
    cases hs
    have hmutex := hholder.mp (by rw [hpc]; rfl)
    cases hroom : hasRoom setup s with
    | true =>
      have hlt : s.running = true → s.queue.length < setup.capacity := by
        intro hrun
        simpa [hasRoom, hrun] using hroom
      have := h.wait .admitted hq (Or.inr hmutex) rfl (by simp [hpc]) hlt
      simpa [hmutex, PushAt.holds, State.setPush] using this
    | false =>
      have hle : setup.capacity ≤ s.queue.length := by
        simp only [hasRoom, Bool.or_eq_false_iff, decide_eq_false_iff_not, Nat.not_lt] at hroom
        exact hroom.1
      have := h.wait .dozing hq (Or.inr hmutex) rfl (by simp [hpc]) hle
      simpa [hmutex, PushAt.holds, State.setPush] using this
  · rename_i hpc
    have hmutex := hholder.mp (by rw [hpc]; rfl)
    split at hs
    · rename_i hrun
      cases hs
      exact h.accept hq hpc hrun
    · cases hs
      exact h.wait _ hq (Or.inr hmutex) rfl (by simp [hpc]) trivial
  · rename_i hpc
    cases hs
    have hmutex := hholder.mp (by rw [hpc]; rfl)
    rw [hpc] at hwait
    exact h.wait _ hq (Or.inr hmutex) rfl (by simp [hpc]) (Or.inl hwait)
  · cases hs
  · rename_i hpc
    cases hs
    exact h.notify hq hpc
  · cases hs

/-- A new call of `push()`. -/
theorem BusInv.enter (h : BusInv setup s) (b : EventBatch) (origin : Option Nat) (passed : Bool) :
    BusInv setup { s with
      pushes := s.pushes ++
        [{ batch := b, origin := origin, passed := passed, pc := enterAt s b }] } := by
  have hpc : enterAt s b = .ready ∨ enterAt s b = .fanout 0 ∨ enterAt s b = .returned false := by
    unfold enterAt
    split
    · split
      · exact Or.inl rfl
      · exact Or.inr (Or.inl rfl)
    · exact Or.inr (Or.inr rfl)
  have hfree : (enterAt s b).holds = false := by
    rcases hpc with hpc | hpc | hpc <;> simp [hpc, PushAt.holds]
  have hnot : ¬ ((enterAt s b) = .pushed ∨ (enterAt s b) = .returned true) := by
    rcases hpc with hpc | hpc | hpc <;> simp [hpc]
  exact
    { h with
      holders := by
        intro p q hq
        rcases Nat.lt_or_ge p s.pushes.length with hlt | hge
        · rw [List.getElem?_append_left hlt] at hq
          exact h.holders p q hq
        · rw [List.getElem?_append_right hge] at hq
          have hq' := mem_singleton.mp (mem_of_getElem? hq)
          subst hq'
          constructor
          · intro hh
            simp [hfree] at hh
          · intro hm
            exact absurd (h.holder p hm) (by omega)
      holder := fun p hm => by
        have := h.holder p hm
        simp only [length_append]
        omega
      waits := by
        intro q hq
        rcases mem_append.mp hq with hq | hq
        · exact h.waits q hq
        · rw [mem_singleton.mp hq]
          rcases hpc with hpc | hpc | hpc <;> simp [hpc, waitOk]
      consumerAsleep := fun hc => by
        obtain ⟨hw, hst⟩ := h.consumerAsleep hc
        exact ⟨hw.imp id (fun ⟨x, hx, hxpc⟩ => ⟨x, mem_append_left _ hx, hxpc⟩), hst⟩
      tickets := fun t => by
        refine (h.tickets t).trans ⟨?_, ?_⟩
        · rintro ⟨x, hx, hrest⟩
          have hlt := (List.getElem?_eq_some_iff.mp hx).1
          exact ⟨x, by rw [List.getElem?_append_left hlt]; exact hx, hrest⟩
        · rintro ⟨x, hx, hb, hxpc⟩
          rcases Nat.lt_or_ge t.push s.pushes.length with hlt | hge
          · rw [List.getElem?_append_left hlt] at hx
            exact ⟨x, hx, hb, hxpc⟩
          · rw [List.getElem?_append_right hge] at hx
            have hx' := mem_singleton.mp (mem_of_getElem? hx)
            subst hx'
            exact absurd hxpc hnot }

/-! ## 6. Steps of the consumer -/

theorem mem_wakeAll {P : Push → Prop} {l : List Push}
    (hawake : ∀ q ∈ l, q.pc ≠ .asleep → P q) (hwoken : ∀ q ∈ l, q.pc = .asleep →
      P { q with pc := .ready }) : ∀ q ∈ l.map wakePush, P q := by
  intro q hq
  obtain ⟨x, hx, rfl⟩ := mem_map.mp hq
  unfold wakePush
  split
  · rename_i hpc
    exact hwoken x hx hpc
  · rename_i hpc
    exact hawake x hx hpc

theorem wakePush_batch (q : Push) : (wakePush q).batch = q.batch := by
  unfold wakePush
  split <;> rfl

theorem wakePush_pc_iff (hpc : pc ≠ .asleep ∧ pc ≠ .ready) :
    (wakePush q).pc = pc ↔ q.pc = pc := by
  unfold wakePush
  split
  · rename_i hq
    simp [hq, Ne.symm hpc.1, Ne.symm hpc.2]
  · rfl

theorem wakePush_holds (q : Push) : (wakePush q).pc.holds = q.pc.holds := by
  unfold wakePush
  split
  · rename_i hq
    simp [hq, PushAt.holds]
  · rfl

/-- **`queue_not_full_.notify_all()`.** -/
theorem BusInv.wakeAll (h : BusInv setup s) {c : Consumer} {st : StopAt}
    (hc : c = s.consumer ∨ ∃ l, s.consumer = .drained l ∧ c = .dispatching l)
    (hst : st = s.stopper ∨ s.stopper = .wakingPushers ∧ st = .wakingConsumer) :
    BusInv setup { s with pushes := s.pushes.map wakePush, consumer := c, stopper := st } := by
  have hholds : c.holds = s.consumer.holds := by
    rcases hc with rfl | ⟨l, hl, rfl⟩
    · rfl
    · rw [hl]; rfl
  have hbatches : c.batches = s.consumer.batches := by
    rcases hc with rfl | ⟨l, hl, rfl⟩
    · rfl
    · rw [hl]; rfl
  have hcons : ∀ c', c = c' → (∀ l, c' ≠ .dispatching l) → s.consumer = c' := by
    intro c' hcc hne
    rcases hc with rfl | ⟨l, hl, rfl⟩
    · exact hcc
    · exact absurd hcc.symm (hne l)
  have hflushed : st.flushed = s.stopper.flushed := by
    rcases hst with rfl | ⟨hs, rfl⟩
    · rfl
    · rw [hs]; rfl
  exact
    { h with
      holders := by
        intro p q hq
        simp only [List.getElem?_map, Option.map_eq_some_iff] at hq
        obtain ⟨x, hx, rfl⟩ := hq
        rw [wakePush_holds]
        exact h.holders p x hx
      holder := by simpa using h.holder
      consumerHolds := by
        show c.holds = true ↔ _
        rw [hholds]
        exact h.consumerHolds
      waits := by
        refine mem_wakeAll (fun q hq hpc => ?_) (fun q hq hpc => trivial)
        have hw := h.waits q hq
        cases hq' : q.pc <;> rw [hq'] at hw <;> first | exact absurd hq' hpc | exact hw
      consumerDozing := fun hd => by
        obtain ⟨hq, hf⟩ := h.consumerDozing (hcons _ hd (by simp))
        exact ⟨hq, hflushed.trans hf⟩
      consumerAsleep := fun ha => by
        obtain ⟨hw, hs⟩ := h.consumerAsleep (hcons _ ha (by simp))
        refine ⟨hw.imp id ?_, ?_⟩
        · rintro ⟨x, hx, hxpc⟩
          exact ⟨wakePush x, mem_map_of_mem hx, (wakePush_pc_iff (by simp)).mpr hxpc⟩
        · rcases hst with rfl | ⟨-, rfl⟩
          · exact hs
          · exact Or.inr (Or.inr rfl)
      consumerExited := fun he => h.consumerExited (hcons _ he (by simp))
      running := by
        rcases hst with rfl | ⟨hs, rfl⟩
        · exact h.running
        · simpa [hs] using h.running
      flow := by
        show accepted s.history = dispatched s.history ++ (c.batches ++ s.queue)
        rw [hbatches]
        exact h.flow
      tickets := fun t => by
        refine (h.tickets t).trans ?_
        simp only [List.getElem?_map, Option.map_eq_some_iff]
        constructor
        · rintro ⟨x, hx, hb, hxpc⟩
          refine ⟨wakePush x, ⟨x, hx, rfl⟩, (wakePush_batch x).trans hb, ?_⟩
          rwa [wakePush_pc_iff (by simp), wakePush_pc_iff (by simp)]
        · rintro ⟨-, ⟨x, hx, rfl⟩, hb, hxpc⟩
          rw [wakePush_pc_iff (by simp), wakePush_pc_iff (by simp)] at hxpc
          exact ⟨x, hx, (wakePush_batch x).symm.trans hb, hxpc⟩
      spawned := by
        rcases hc with rfl | ⟨l, hl, rfl⟩
        · exact h.spawned
        · simpa [hl] using h.spawned
      writers := fun hne => by
        refine h.writers ?_
        rcases hst with rfl | ⟨hs, -⟩
        · exact hne
        · simp [hs]
      joined := fun hj => by
        show c.batches ++ s.queue = []
        rw [hbatches]
        refine h.joined ?_
        rcases hst with rfl | ⟨-, rfl⟩
        · exact hj
        · cases hj }

/-- The consumer moves on without taking or dispatching a batch. -/
theorem BusInv.turn (h : BusInv setup s) {c : Consumer} {m : Option Holder}
    (hfrom : s.consumer ≠ .absent ∧ s.consumer.batches = [] ∧ ∀ l, s.consumer ≠ .drained l)
    (hto : c ≠ .absent ∧ c.batches = [])
    (hm : c.holds = true ↔ m = some .consumer)
    (hpush : ∀ p, m = some (.push p) ↔ s.mutex = some (.push p))
    (hdozing : c = .dozing ∨ c = .asleep → s.queue = [] ∧ s.stopper.flushed = false)
    (hexited : c = .exited → s.queue = [] ∧ s.running = false) :
    BusInv setup { s with consumer := c, mutex := m } :=
  { h with
    holders := fun p q hq => (h.holders p q hq).trans (hpush p).symm
    holder := fun p hp => h.holder p ((hpush p).mp hp)
    consumerHolds := hm
    waits := fun q hq => by
      have hw := h.waits q hq
      cases hpc : q.pc <;> rw [hpc] at hw <;>
        first | exact hw | exact Or.inl (hw.resolve_right fun ⟨l, hl⟩ => hfrom.2.2 l hl)
    consumerDozing := fun hd => hdozing (Or.inl hd)
    consumerAsleep := fun ha => (hdozing (Or.inr ha)).imp Or.inl Or.inl
    consumerExited := hexited
    flow := by
      show accepted s.history = dispatched s.history ++ (c.batches ++ s.queue)
      rw [h.flow, hfrom.2.1, hto.2]
    spawned := by
      have := h.spawned
      simp only [hfrom.1, ne_eq, not_false_eq_true, true_iff] at this
      simp [hto.1, this]
    joined := fun hj => by
      have hnil := h.joined hj
      rw [hfrom.2.1] at hnil
      show c.batches ++ s.queue = []
      rw [hto.2]
      exact hnil }

/-- **The consumer swaps the queue out.** The pushers do not know yet. -/
theorem BusInv.drain (h : BusInv setup s) (hc : s.consumer = .admitted) :
    BusInv setup { s with consumer := .drained s.queue, queue := [], mutex := none } := by
  have hmutex : s.mutex = some .consumer := h.consumerHolds.mp (by rw [hc]; rfl)
  have hfree : ∀ (p : Nat) (q : Push), s.pushes[p]? = some q → q.pc.holds = false := by
    intro p q hq
    rw [Bool.eq_false_iff]
    intro hh
    have := (h.holders p q hq).mp hh
    rw [hmutex] at this
    cases this
  exact
    { h with
      capacity := Nat.zero_le _
      holders := fun p q hq => by simp [hfree p q hq]
      holder := fun p hp => by cases hp
      consumerHolds := by simp [Consumer.holds]
      waits := fun q hq => by
        obtain ⟨p, hp⟩ := List.getElem?_of_mem hq
        have hf := hfree p q hp
        cases hpc : q.pc <;> rw [hpc] at hf <;> first | cases hf; done | trivial | exact Or.inr ⟨_, rfl⟩
      consumerDozing := fun hd => by cases hd
      consumerAsleep := fun ha => by cases ha
      consumerExited := fun he => by cases he
      flow := by simpa [hc, Consumer.batches] using h.flow
      spawned := by simpa [hc] using h.spawned
      joined := fun hj => by simpa [hc, Consumer.batches] using h.joined hj }

/-- **A batch is dispatched**, to the writers the configured routes select. -/
theorem BusInv.dispatch (h : BusInv setup s) {t : Ticket} {rest : List Ticket}
    (hc : s.consumer = .dispatching (t :: rest)) :
    BusInv setup { s with
      consumer := .dispatching rest
      history := s.history ++ [.dispatched t (selected setup s.table s.writers t.batch)
        (decide (s.stopper = .stopped))] } := by
  have hst : s.stopper ≠ .stopped := by
    intro hst
    have := h.joined (by rw [hst]; rfl)
    simp [hc, Consumer.batches] at this
  have hstarted : s.starter = .returned := h.spawned.mp (by rw [hc]; simp)
  exact
    { h with
      consumerHolds := by simpa [hc, Consumer.holds] using h.consumerHolds
      waits := fun q hq => by
        have hw := h.waits q hq
        cases hpc : q.pc <;> rw [hpc] at hw <;>
          first | exact hw | exact Or.inl (hw.resolve_right fun ⟨l, hl⟩ => by simp [hc] at hl)
      consumerDozing := fun hd => by cases hd
      consumerAsleep := fun ha => by cases ha
      consumerExited := fun he => by cases he
      flow := by simp [h.flow, hc, Consumer.batches]
      tickets := by simpa using h.tickets
      names := by simpa using h.names
      spawned := by simpa [hc] using h.spawned
      joined := fun hj => by
        have := h.joined hj
        simp [hc, Consumer.batches] at this
      routed := by
        intro t' ws late hmem
        rcases mem_append.mp hmem with hmem | hmem
        · exact h.routed t' ws late hmem
        · simp only [mem_singleton, Event.dispatched.injEq] at hmem
          obtain ⟨rfl, rfl, rfl⟩ := hmem
          rw [h.table (Or.inr hstarted), h.writers hst]
          exact ⟨rfl, by simp [hst]⟩ }

theorem BusInv.consumerNext (h : BusInv setup s) (hs : consumerNext setup s = some s') :
    BusInv setup s' := by
  unfold Controller.consumerNext at hs
  split at hs
  · cases hs
  · rename_i hc
    split at hs
    · rename_i hmutex
      cases hs
      exact h.turn (by simp [hc, Consumer.batches]) (by simp [Consumer.batches])
        (by simp [Consumer.holds]) (by simp [hmutex]) (by simp) (by simp)
    · cases hs
  · rename_i hc
    cases hs
    have hmutex : s.mutex = some .consumer := h.consumerHolds.mp (by rw [hc]; rfl)
    have hfrom : s.consumer ≠ .absent ∧ s.consumer.batches = [] ∧ ∀ l, s.consumer ≠ .drained l := by
      simp [hc, Consumer.batches]
    cases hwork : hasWork s with
    | true =>
      have := h.turn (c := .admitted) (m := s.mutex) hfrom (by simp [Consumer.batches])
        (by simp [Consumer.holds, hmutex]) (fun _ => Iff.rfl) (by simp) (by simp)
      simpa using this
    | false =>
      simp only [hasWork, Bool.or_eq_false_iff, Bool.not_eq_eq_eq_not, Bool.not_false,
        List.isEmpty_iff] at hwork
      have hfl : s.stopper.flushed = false := by
        rcases h.running.mp hwork.2 with hst | hst <;> rw [hst] <;> rfl
      have := h.turn (c := .dozing) (m := s.mutex) hfrom (by simp [Consumer.batches])
        (by simp [Consumer.holds, hmutex]) (fun _ => Iff.rfl) (fun _ => ⟨hwork.1, hfl⟩) (by simp)
      simpa using this
  · rename_i hc
    have hmutex : s.mutex = some .consumer := h.consumerHolds.mp (by rw [hc]; rfl)
    split at hs
    · rename_i hend
      cases hs
      simp only [Bool.and_eq_true, Bool.not_eq_eq_eq_not, Bool.not_true, List.isEmpty_iff] at hend
      exact h.turn (by simp [hc, Consumer.batches]) (by simp [Consumer.batches])
        (by simp [Consumer.holds]) (by simp [hmutex]) (by simp) (fun _ => ⟨hend.2, hend.1⟩)
    · cases hs
      exact h.drain hc
  · rename_i hc
    cases hs
    have hmutex : s.mutex = some .consumer := h.consumerHolds.mp (by rw [hc]; rfl)
    exact h.turn (by simp [hc, Consumer.batches]) (by simp [Consumer.batches])
      (by simp [Consumer.holds]) (by simp [hmutex]) (fun _ => h.consumerDozing hc) (by simp)
  · cases hs
  · rename_i batches hc
    cases hs
    exact h.wakeAll (Or.inr ⟨batches, hc, rfl⟩) (Or.inl rfl)
  · rename_i hc
    cases hs
    have hfree := h.consumerHolds
    rw [hc] at hfree
    exact h.turn (m := s.mutex) (by simp [hc, Consumer.batches]) (by simp [Consumer.batches])
      hfree (fun _ => Iff.rfl) (by simp) (by simp)
  · rename_i t rest hc
    cases hs
    exact h.dispatch hc
  · cases hs

/-! ## 7. Steps of start() and stop() -/

theorem BusInv.startNext (h : BusInv setup s) (hs : startNext setup s = some s') :
    BusInv setup s' := by
  unfold Controller.startNext at hs
  split at hs
  · rename_i hst
    have habsent : s.consumer = .absent := by
      by_contra hne
      simp [h.spawned.mp hne] at hst
    split at hs
    · cases hs
      exact { h with }
    · simp only at hs
      split at hs
      · rename_i table hbuild
        cases hs
        exact
          { h with
            spawned := by simp [habsent]
            table := fun _ => build_eq hbuild }
      · cases hs
        exact
          { h with
            spawned := by simp [habsent]
            table := by simp }
  · rename_i hst
    cases hs
    have habsent : s.consumer = .absent := by
      by_contra hne
      simp [h.spawned.mp hne] at hst
    exact
      { h with
        consumerHolds := by simpa [habsent, Consumer.holds] using h.consumerHolds
        waits := fun q hq => by
          have hw := h.waits q hq
          cases hpc : q.pc <;> rw [hpc] at hw <;>
            first | exact hw | exact Or.inl (hw.resolve_right fun ⟨l, hl⟩ => by simp [habsent] at hl)
        consumerDozing := fun hd => by cases hd
        consumerAsleep := fun ha => by cases ha
        consumerExited := fun he => by cases he
        flow := by simpa [habsent, Consumer.batches] using h.flow
        spawned := by simp
        table := fun _ => h.table (Or.inl hst)
        joined := fun hj => by simpa [habsent, Consumer.batches] using h.joined hj }
  · cases hs
  · cases hs

/-- `stop()` moves on; `running_` may only be cleared. -/
theorem BusInv.advance (h : BusInv setup s) (st : StopAt) (r : Bool)
    (hrunning : r = true ↔ st = .idle ∨ st = .stopping) (hclear : r = true → s.running = true)
    (hdozing : s.consumer = .dozing → st.flushed = false)
    (hasleep : s.consumer = .asleep →
      st.flushed = false ∨ st = .wakingPushers ∨ st = .wakingConsumer)
    (hwriters : st ≠ .stopped → s.stopper ≠ .stopped)
    (hjoined : st.joined = true → s.consumer.batches ++ s.queue = []) :
    BusInv setup { s with running := r, stopper := st } :=
  { h with
    waits := fun q hq => by
      have hw := h.waits q hq
      cases hpc : q.pc <;> rw [hpc] at hw <;> first | exact hw | exact fun hr => hw (hclear hr)
    consumerDozing := fun hd => ⟨(h.consumerDozing hd).1, hdozing hd⟩
    consumerAsleep := fun ha => ⟨(h.consumerAsleep ha).1, hasleep ha⟩
    consumerExited := fun he => by
      obtain ⟨hq, hr⟩ := h.consumerExited he
      refine ⟨hq, ?_⟩
      cases r with
      | false => rfl
      | true => exact (hclear rfl).symm.trans hr
    running := hrunning
    writers := fun hne => h.writers (hwriters hne)
    joined := hjoined }

theorem BusInv.stopNext (h : BusInv setup s) (hs : stopNext s = some s')
    (hjoin : soundJoin s .stop = true) : BusInv setup s' := by
  have hrunning := h.running
  have hasleep := fun ha => (h.consumerAsleep ha).2
  have hdozing := fun hd => (h.consumerDozing hd).2
  have hjoined := h.joined
  unfold Controller.stopNext at hs
  split at hs
  all_goals rename_i hst
  all_goals simp only [hst, StopAt.flushed, StopAt.joined, reduceCtorEq, or_self, or_false, or_true,
    Bool.true_eq_false, Bool.false_eq_true, false_implies, true_implies, implies_true, iff_true,
    iff_false, Bool.not_eq_true, imp_false] at hrunning hasleep hdozing hjoined
  · cases hs
    exact h.advance .stopping s.running (by simp [hrunning]) id (fun _ => rfl)
      (fun _ => Or.inl rfl) (by simp [hst]) (by simp [StopAt.joined])
  · cases hs
    exact h.advance .clearingReaders false (by simp) (by simp) (fun _ => rfl)
      (fun _ => Or.inl rfl) (by simp [hst]) (by simp [StopAt.joined])
  · split at hs
    · cases hs
    · cases hs
      exact
        { h.advance .flushing s.running (by simp [hrunning]) id (fun _ => rfl)
            (fun _ => Or.inl rfl) (by simp [hst]) (by simp [StopAt.joined]) with }
  · split at hs
    · rename_i hmutex
      cases hs
      -- nobody holds the mutex, so the consumer is not about to fall asleep
      have hnot : s.consumer ≠ .dozing := by
        intro hd
        have := h.consumerHolds.mp (by rw [hd]; rfl)
        simp [hmutex] at this
      exact h.advance .wakingPushers s.running (by simp [hrunning]) id
        (fun hd => absurd hd hnot) (fun _ => Or.inr (Or.inl rfl)) (by simp [hst])
        (by simp [StopAt.joined])
    · cases hs
  · cases hs
    exact h.wakeAll (Or.inl rfl) (Or.inr ⟨hst, rfl⟩)
  · cases hs
    have hnot : wakeConsumer s.consumer ≠ .dozing := by
      unfold wakeConsumer
      split
      · simp
      · exact hdozing
    exact h.awake.advance .joining s.running (by simp [hrunning]) id
      (fun hd => absurd hd hnot) (fun ha => absurd ha (wakeConsumer_ne s.consumer)) (by simp [hst])
      (by simp [StopAt.joined])
  · split at hs
    · rename_i hc
      cases hs
      have hnil : s.consumer.batches ++ s.queue = [] := by
        rcases hc with hc | hc
        · have hq : s.queue = [] := by simpa [soundJoin, hst, hc] using hjoin
          rw [hc, hq]
          rfl
        · rw [hc, (h.consumerExited hc).1]
          rfl
      exact h.advance .clearingProcessors s.running (by simp [hrunning]) id
        (fun hd => by simp [hd] at hc) (fun ha => by simp [ha] at hc) (by simp [hst])
        (fun _ => hnil)
    · cases hs
  · cases hs
    exact
      { h.advance .clearingWriters s.running (by simp [hrunning]) id
          (fun hd => absurd hd hdozing) (fun ha => absurd ha hasleep) (by simp [hst])
          (fun _ => hjoined) with }
  · cases hs
    exact
      { h.advance .stopped s.running (by simp [hrunning]) id
          (fun hd => absurd hd hdozing) (fun ha => absurd ha hasleep) (by simp [hst])
          (fun _ => hjoined) with
        writers := fun hne => absurd rfl hne }
  · cases hs

/-! ## 8. Runs -/

/-- **The step lemma.** A step with a sound join keeps the invariant. -/
theorem BusInv.step (h : BusInv setup s) {a : Action} (hjoin : soundJoin s a = true)
    (hs : step setup s a = some s') : BusInv setup s' := by
  cases a with
  | enter b origin =>
    simp only [Controller.step] at hs
    split at hs
    · cases hs
      exact h.enter b none _
    · rename_i r
      split at hs
      · cases hs
        exact h.enter b (some r) _
      · cases hs
  | push p =>
    obtain ⟨q, hq, hnext⟩ := Option.bind_eq_some_iff.mp hs
    exact h.pushNext hq hnext
  | spuriousPush p =>
    simp only [Controller.step] at hs
    split at hs
    · rename_i hpc
      cases hs
      obtain ⟨q, hq, hasleep⟩ : ∃ q, s.pushes[p]? = some q ∧ q.pc = .asleep := by
        cases hq : s.pushes[p]? with
        | none => simp [hq] at hpc
        | some q => exact ⟨q, rfl, by simpa [hq] using hpc⟩
      have := h.move .ready [] hq (by rw [hasleep]; rfl) rfl (by simp [hasleep])
        (by simp) (by simp [hasleep]) rfl (by simp)
      rwa [append_nil] at this
    · cases hs
  | consumer => exact h.consumerNext hs
  | spuriousConsumer =>
    simp only [Controller.step] at hs
    split at hs
    · rename_i hc
      cases hs
      have := h.awake
      rwa [show wakeConsumer s.consumer = .top by rw [hc]; rfl] at this
    · cases hs
  | start => exact h.startNext hs
  | complete r =>
    simp only [Controller.step] at hs
    split at hs
    · cases hs
      exact { h with }
    · cases hs
  | stop => exact h.stopNext hs hjoin

end Steps

/-! ## 9. From the invariant to the contract -/

theorem mem_dispatched {h : List Event} {t : Ticket} :
    t ∈ dispatched h ↔ ∃ ws late, Event.dispatched t ws late ∈ h := by
  rw [dispatched, mem_filterMap]
  constructor
  · rintro ⟨_ | _ | ⟨t', ws, late⟩, he, ht⟩
    · cases ht
    · cases ht
    · cases ht
      exact ⟨ws, late, he⟩
  · rintro ⟨ws, late, he⟩
    exact ⟨_, he, rfl⟩

theorem dispatchesOf_nil {p : Nat} {h : List Event} (hnot : ∀ t ∈ dispatched h, t.push ≠ p) :
    dispatchesOf p h = [] := by
  rw [dispatchesOf, filter_eq_nil_iff]
  rintro (_ | _ | ⟨t, ws, late⟩) he
  · simp
  · simp
  · simpa using hnot t (mem_dispatched.mpr ⟨ws, late, he⟩)

theorem dispatchesOf_eq : ∀ {h : List Event} {t : Ticket} {ws : List Nat} {late : Bool},
    ((dispatched h).map Ticket.push).Nodup → Event.dispatched t ws late ∈ h →
      dispatchesOf t.push h = [.dispatched t ws late]
  | [], _, _, _, _, hmem => by cases hmem
  | e :: h, t, ws, late, hnd, hmem => by
    have hcons : dispatched (e :: h) = dispatched [e] ++ dispatched h := dispatched_append [e] h
    rw [hcons] at hnd
    rcases mem_cons.mp hmem with rfl | hmem'
    · rw [dispatched_dispatched, singleton_append, map_cons, nodup_cons] at hnd
      have hrest : dispatchesOf t.push h = [] := by
        refine dispatchesOf_nil fun t' ht' he => hnd.1 ?_
        exact he ▸ mem_map_of_mem ht'
      rw [dispatchesOf, filter_cons_of_pos (by simp)]
      exact congrArg _ hrest
    · have ht := mem_map_of_mem (f := Ticket.push) (mem_dispatched.mpr ⟨ws, late, hmem'⟩)
      have hne : dispatchesOf t.push (e :: h) = dispatchesOf t.push h := by
        rw [dispatchesOf, dispatchesOf, filter_cons_of_neg]
        rcases e with _ | _ | ⟨t', ws', late'⟩
        · simp
        · simp
        · rw [dispatched_dispatched, singleton_append, map_cons, nodup_cons] at hnd
          intro he
          exact hnd.1 (of_decide_eq_true he ▸ ht)
      rw [hne]
      refine dispatchesOf_eq ?_ hmem'
      rw [map_append] at hnd
      exact (List.nodup_append.mp hnd).2.1

section Contract

variable {setup : Setup} {s : State}

theorem BusInv.dispatched_names (h : BusInv setup s) :
    ((dispatched s.history).map Ticket.push).Nodup := by
  have := h.names
  rw [h.flow, map_append, List.nodup_append] at this
  exact this.1

/-- With room for at least one batch, a pusher that may go on is not forgotten: the consumer is
about to notify it, or will come for the full queue. -/
theorem BusInv.pusherWakes (h : BusInv setup s) (hcap : 0 < setup.capacity)
    (hspawned : s.stopper ≠ .idle → s.consumer ≠ .absent) {q : Push} (hq : q ∈ s.pushes)
    (hpc : q.pc = .asleep) (hroom : hasRoom setup s = true) : notFullAhead s := by
  have hw := h.waits q hq
  rw [hpc] at hw
  rcases hw with hle | hdrained
  · -- the queue is full, so the pusher may go on because the bus was stopped
    have hstop : s.running = false := by
      simpa [hasRoom, Nat.not_lt.mpr hle] using hroom
    have hne : s.queue ≠ [] := by
      intro hnil
      rw [hnil, length_nil] at hle
      omega
    have hidle : s.stopper ≠ .idle := by
      intro hi
      have := h.running.mpr (Or.inl hi)
      rw [hstop] at this
      cases this
    refine Or.inr (Or.inl ⟨hne, hspawned hidle, fun he => hne (h.consumerExited he).1, fun ha => ?_⟩)
    exact (h.consumerAsleep ha).1.resolve_left hne
  · exact Or.inl hdrained

theorem BusInv.consumerWakes (h : BusInv setup s) (hcap : 0 < setup.capacity)
    (hasleep : s.consumer = .asleep) (hwork : hasWork s = true) : notEmptyAhead s := by
  obtain ⟨hq, hst⟩ := h.consumerAsleep hasleep
  rcases hq with hnil | hpushed
  · -- the queue is empty, so no pusher sleeps and `stop()` gets to its notify
    have hstop : s.running = false := by simpa [hasWork, hnil] using hwork
    have hawake : readersAwake s := by
      intro q hmem _ hpc
      have hw := h.waits q hmem
      rw [hpc] at hw
      rcases hw with hle | ⟨l, hl⟩
      · rw [hnil, length_nil] at hle
        omega
      · simp [hasleep] at hl
    have hnot : ¬ (s.stopper = .idle ∨ s.stopper = .stopping) := by
      rw [← h.running, hstop]
      simp
    rcases hst with hfl | hst
    · cases hs : s.stopper <;> simp_all [StopAt.flushed, notEmptyAhead]
    · rcases hst with hst | hst
      · exact Or.inr (Or.inr (Or.inr (Or.inl hst)))
      · exact Or.inr (Or.inr (Or.inr (Or.inr hst)))
  · exact Or.inl hpushed

theorem BusInv.busOk (h : BusInv setup s) (hcap : 0 < setup.capacity)
    (hspawned : s.stopper ≠ .idle → s.consumer ≠ .absent) : BusOk setup s where
  capacity := h.capacity
  dispatched := by
    intro hst p q hq hpc
    have hmem : (⟨p, q.batch⟩ : Ticket) ∈ accepted s.history :=
      (h.tickets ⟨p, q.batch⟩).mpr ⟨q, hq, rfl, Or.inr hpc⟩
    have hall : accepted s.history = Controller.dispatched s.history := by
      rw [h.flow, h.joined (by rw [hst]; rfl), append_nil]
    obtain ⟨ws, late, he⟩ := mem_dispatched.mp (hall ▸ hmem)
    obtain ⟨rfl, rfl⟩ := h.routed _ ws late he
    exact dispatchesOf_eq h.dispatched_names he
  inOrder := by
    rw [h.flow]
    exact prefix_append ..
  routed := fun t ws late he => (h.routed t ws late he).1
  rejected := by
    intro p q hq hpc
    refine dispatchesOf_nil fun t ht hp => ?_
    have hacc : t ∈ accepted s.history := by
      rw [h.flow]
      exact mem_append_left _ ht
    obtain ⟨x, hx, -, hxpc⟩ := (h.tickets t).mp hacc
    rw [hp, hq, Option.some.injEq] at hx
    subst hx
    simp [hpc] at hxpc
  pusherWakes := fun q hq hpc hroom => h.pusherWakes hcap hspawned hq hpc hroom
  consumerWakes := h.consumerWakes hcap

end Contract

/-! ## 10. Runs after start() -/

section Runs

variable {setup : Setup} {s s' : State}

/-- Only `stop()` moves `stop()`, and `start()` does not come back. -/
theorem step_phases {a : Action} (hs : step setup s a = some s') :
    (a ≠ .stop → s'.stopper = s.stopper) ∧ (s.starter = .returned → s'.starter = .returned) := by
  cases a with
  | enter b origin =>
    simp only [Controller.step] at hs
    split at hs
    · cases hs; exact ⟨fun _ => rfl, id⟩
    · split at hs
      · cases hs; exact ⟨fun _ => rfl, id⟩
      · cases hs
  | push p =>
    obtain ⟨q, hq, hnext⟩ := Option.bind_eq_some_iff.mp hs
    unfold Controller.pushNext at hnext
    split at hnext <;> (try split at hnext) <;> cases hnext <;> exact ⟨fun _ => rfl, id⟩
  | spuriousPush p =>
    simp only [Controller.step] at hs
    split at hs
    · cases hs; exact ⟨fun _ => rfl, id⟩
    · cases hs
  | consumer =>
    simp only [Controller.step, Controller.consumerNext] at hs
    split at hs <;> (try split at hs) <;> cases hs <;> exact ⟨fun _ => rfl, id⟩
  | spuriousConsumer =>
    simp only [Controller.step] at hs
    split at hs
    · cases hs; exact ⟨fun _ => rfl, id⟩
    · cases hs
  | start =>
    simp only [Controller.step, Controller.startNext] at hs
    split at hs
    · rename_i hst
      have hne : s.starter ≠ .returned := by simp [hst]
      split at hs
      · cases hs; exact ⟨fun _ => rfl, id⟩
      · split at hs <;> cases hs <;> exact ⟨fun _ => rfl, fun h => absurd h hne⟩
    · cases hs; exact ⟨fun _ => rfl, fun _ => rfl⟩
    · cases hs
    · cases hs
  | complete r =>
    simp only [Controller.step] at hs
    split at hs
    · cases hs; exact ⟨fun _ => rfl, id⟩
    · cases hs
  | stop =>
    simp only [Controller.step, Controller.stopNext] at hs
    refine ⟨fun h => absurd rfl h, fun h => ?_⟩
    split at hs <;> (try split at hs) <;> cases hs <;> exact h

/-- The invariant of the runs in which `stop()` begins after `start()` has returned. -/
def StartedInv (setup : Setup) (s : State) : Prop :=
  BusInv setup s ∧ (s.stopper ≠ .idle → s.starter = .returned)

theorem StartedInv.step (h : StartedInv setup s) {a : Action} (hok : afterStart s a = true)
    (hs : Controller.step setup s a = some s') : StartedInv setup s' := by
  obtain ⟨hbus, hstarted⟩ := h
  obtain ⟨hstop, hstart⟩ := step_phases hs
  have hjoin : soundJoin s a = true := by
    cases a <;> try rfl
    by_cases hj : s.stopper = .joining
    · have := hbus.spawned.mpr (hstarted (by simp [hj]))
      cases hc : s.consumer <;> simp_all [soundJoin]
    · cases hst : s.stopper <;> simp_all [soundJoin]
  refine ⟨hbus.step hjoin hs, fun hne => hstart ?_⟩
  by_cases ha : a = .stop
  · subst ha
    by_cases hidle : s.stopper = .idle
    · simp only [afterStart, hidle, Bool.not_true, Bool.false_or] at hok
      cases hst : s.starter <;> simp_all
    · exact hstarted hidle
  · exact hstarted (hstop ha ▸ hne)

/-- **With room for a batch, the bus keeps its contract** in every run in which `stop()` is called
after `start()` has returned.  With capacity 0 no push ever gets past its wait.  The store of
`running_` outside the mutex is harmless: `stop()` passes the mutex between the store and its
notifies, so a thread that evaluated its predicate before the store is asleep by then. -/
theorem busOk_of_capacity (setup : Setup) (hcap : 0 < setup.capacity) (s : State)
    (hrun : Runs (step setup) (fun s a => afterStart s a = true) (starting setup) s) :
    BusOk setup s := by
  have hinv : StartedInv setup s :=
    hrun.keeps (fun _ _ _ h hok hs => StartedInv.step h hok hs)
      ⟨busInv_starting setup, fun hne => absurd rfl hne⟩
  exact hinv.1.busOk hcap (fun hne => hinv.1.spawned.mpr (hinv.2 hne))

end Runs

/-! ## 11. A bus without room

With capacity 0, which the configuration accepts, `stop()` HANGS (`busOk_fails`): it joins the
readers' threads before it wakes the pushers, and no consumer step ever wakes them. -/

/-- One reader, one writer, no routing. -/
def oneReader (capacity : Nat) : Setup where
  capacity := capacity
  routes := []
  readers := ["r"]
  processors := []
  writers := [{ name := "w", acceptsPayload := fun _ => true }]
  fnmatch := fun _ _ => true
  readers_ne := by simp
  writers_ne := by simp
  routes_known := rfl

def frameOf (pv : String) : EventBatch := { readerName := "r", payload := .timeSeries pv 1 false }

def pushSteps (p n : Nat) : List Action := List.replicate n (.push p)

/-- `start()` returns, the reader pushes a batch and falls asleep; `stop()` joins it before it wakes
it. -/
def hangingActions : List Action :=
  [.start, .start, .start, .enter (frameOf "a") (some 0)] ++ pushSteps 0 4 ++ [.stop, .stop]

/-- The consumer sleeps until the first batch comes; the second push sleeps until the consumer has
drained it, and its batch is dispatched during `stop()`. -/
def servedActions : List Action :=
  [.start, .start, .start, .consumer, .consumer, .consumer, .enter (frameOf "a") (some 0),
    .enter (frameOf "b") (some 0)] ++ pushSteps 0 5 ++ pushSteps 1 4 ++
    List.replicate 4 .consumer ++ pushSteps 1 3 ++ [.stop, .stop] ++ pushSteps 1 1 ++
    List.replicate 11 .consumer ++ List.replicate 7 .stop

/-- The reader's thread sleeps, `stop()` waits for it, the consumer has nothing to do. -/
def hangingState : State where
  running := false
  created := 1
  readers := [0]
  processors := []
  writers := (oneReader 0).writers
  pushes := [{ batch := frameOf "a", origin := some 0, pc := .asleep }]
  consumer := .top
  starter := .returned
  stopper := .clearingReaders

theorem busOk_of_capacity_one :
    ∃ s, exec (step (oneReader 1)) (fun s a => afterStart s a = true) (starting (oneReader 1))
        servedActions = some s ∧
      s.stopper = .stopped ∧
      s.history = [.accepted ⟨0, frameOf "a"⟩, .accepted ⟨1, frameOf "b"⟩,
        .dispatched ⟨0, frameOf "a"⟩ [0] false, .dispatched ⟨1, frameOf "b"⟩ [0] false] ∧
      BusOk (oneReader 1) s := by
  have hrun : (exec (step (oneReader 1)) (fun s a => afterStart s a = true)
      (starting (oneReader 1)) servedActions).map (fun s => (s.stopper, s.history)) =
        some (.stopped, _) := rfl
  obtain ⟨s, hs, hend⟩ := Option.map_eq_some_iff.mp hrun
  obtain ⟨hstopped, hhistory⟩ := Prod.mk.inj hend
  exact ⟨s, hs, hstopped, hhistory,
    busOk_of_capacity (oneReader 1) Nat.one_pos s (Runs.of_exec _ hs)⟩

/-- **`stop()` hangs.** In `hangingState` the pusher sleeps although the bus was stopped, and the
only thread that would wake it waits for it. -/
theorem busOk_fails :
    ¬ ∀ (setup : Setup) (s : State),
      Runs (step setup) (fun s a => afterStart s a = true) (starting setup) s → BusOk setup s := by
  intro hall
  have hok := hall (oneReader 0) hangingState (Runs.of_exec hangingActions rfl)
  have hwake := hok.pusherWakes _ (mem_singleton.mpr rfl) rfl rfl
  rcases hwake with ⟨l, hl⟩ | hcomes | ⟨-, hawake⟩ | hst | hst
  · cases hl
  · exact hcomes.1 rfl
  · exact hawake _ (mem_singleton.mpr rfl) rfl rfl
  · cases hst
  · cases hst

end MldpDriver.Controller
