/-
# The counter and the queues

`queuedItems_` is raised after an item is appended and lowered after it is taken, each in a step of
its own.  An item is HELD from its append until the counter is lowered for it, so it is either in a
queue or in the hand of a worker about to lower the counter.
-/
import MldpDriver.Lib.Replace
import MldpDriver.Writer.Backpressure

namespace MldpDriver.Writer

open Lib.Replace Backpressure List

variable {Batch Item : Type} {setup : Setup Item} {s s' : State Batch Item}

/-! ## 1. Held items -/

/-- What a worker has taken and not lowered the counter for. -/
def lowering : Worker Item → List (Ticket Item)
  | .taken t => [t]
  | _ => []

/-- The items between their append and the lowering of the counter. -/
def held (s : State Batch Item) : List (Ticket Item) :=
  s.channels.flatMap (·.items) ++ s.workers.flatMap lowering

variable {q : Push Batch Item}
variable {pushes : List (Push Batch Item)}
variable {p : Nat}

theorem counted_set (hq : pushes[p]? = some q) (q' : Push Batch Item) (t : Ticket Item) :
    counted (pushes.set p q') t =
      if t.push = p then !(uncounted q' && decide (q'.sent = t.index + 1))
      else counted pushes t := by
  unfold counted
  rw [getElem?_replace hq]
  by_cases ht : t.push = p <;> simp [ht]

variable {q q' : Push Batch Item}

theorem counted_move (hq : pushes[p]? = some q) (hsent : q'.sent = q.sent)
    (hu : uncounted q' = uncounted q) :
    counted (pushes.set p q') = counted pushes := by
  funext t
  rw [counted_set hq]
  split
  · rename_i ht
    simp only [counted, ht, hq, hsent, hu]
  · rfl

variable {t : Ticket Item}

theorem counted_other (hq : pushes[t.push]? = some q)
    (h : q.sent ≠ t.index + 1 ∨ uncounted q = false) :
    counted pushes t = true := by
  simp only [counted, hq]
  rcases h with h | h <;> simp [h]

theorem counted_append (hq : pushes[t.push]? = some q) :
    counted (pushes ++ [q']) t = counted pushes t := by
  have hlt : t.push < pushes.length := (List.getElem?_eq_some_iff.mp hq).1
  simp only [counted, List.getElem?_append_left hlt]

/-! ## 2. The moves -/

/-- What the next step of a push can do. -/
inductive PushMove (setup : Setup Item) (s : State Batch Item) (p : Nat) (q : Push Batch Item) :
    State Batch Item → Prop
  | woke (hpc : q.pc = .waiting) (hmay : mayProceed setup.cfg s = true) :
      PushMove setup s p q (s.setPush p { q with pc := .woken })
  | turnedAway (hpc : q.pc = .woken) (hstop : s.running = false ∨ s.forceQuit = true) :
      PushMove setup s p q (s.setPush p { q with pc := .returned (decide (0 < q.sent)) })
  | passed (hpc : q.pc = .woken) (hr : s.running = true) (hf : s.forceQuit = false) :
      PushMove setup s p q (s.setPush p { q with pc := .passed })
  | routed (hpc : q.pc = .passed) (idx n : Nat) (hidx : idx < s.channels.length) :
      PushMove setup s p q { s.setPush p { q with pc := .routed idx } with nextChannel := n }
  | appended (idx : Nat) (hpc : q.pc = .routed idx) (ch : WorkerChannel Item) (item : Item)
      (hch : s.channels[idx]? = some ch) (hitem : q.items[q.sent]? = some item) :
      PushMove setup s p q { s.setPush p { q with pc := .appended idx, sent := q.sent + 1 } with
        channels := s.channels.set idx { ch with items := ch.items ++ [⟨p, q.sent, item⟩] }
        history := s.history ++ [.enqueued idx ⟨p, q.sent, item⟩] }
  | notified (idx : Nat) (hpc : q.pc = .appended idx) :
      PushMove setup s p q (s.setPush p { q with pc := .notified })
  | counted (hpc : q.pc = .notified) :
      PushMove setup s p q { s.setPush p { q with
          pc := if q.sent < q.items.length then .waiting else .returned true } with
        queuedItems := (s.queuedItems + 1) % sizeRange }
  | faulted (f : Fault) (hpc : inFlight q = true)
      (hgone : s.channels.length = 0 ∨
        ∃ idx, (q.pc = .routed idx ∨ q.pc = .appended idx) ∧ s.channels[idx]? = none) :
      PushMove setup s p q { s with fault := some f }

theorem pushMove_of_pushNext (hs : Writer.pushNext setup s p q = some s') :
    PushMove setup s p q s' := by
  unfold Writer.pushNext at hs
  split at hs
  · cases hs
  · rename_i hpc
    split at hs
    · rename_i hmay
      cases hs
      exact .woke hpc hmay
    · cases hs
  · rename_i hpc
    split at hs
    · rename_i hstop
      cases hs
      exact .turnedAway hpc (by simpa using hstop)
    · rename_i hgo
      cases hs
      simp only [Bool.or_eq_true, Bool.not_eq_true', not_or, Bool.not_eq_false,
        Bool.not_eq_true] at hgo
      exact .passed hpc hgo.1 hgo.2
  · rename_i hpc
    split at hs
    · cases hs
    · split at hs
      · rename_i hzero
        cases hs
        exact .faulted _ (by simp [inFlight, hpc]) (.inl hzero)
      · rename_i hpos
        cases hs
        refine .routed hpc _ _ ?_
        simp only [route]
        split <;> exact Nat.mod_lt _ (Nat.pos_of_ne_zero hpos)
  · rename_i idx hpc
    split at hs
    · rename_i ch item hch hitem
      cases hs
      exact .appended idx hpc ch item hch hitem
    · rename_i hnone
      cases hs
      exact .faulted _ (by simp [inFlight, hpc]) (.inr ⟨idx, .inl hpc, hnone⟩)
    · cases hs
  · rename_i idx hpc
    split at hs
    · cases hs
      exact .notified idx hpc
    · rename_i hge
      cases hs
      exact .faulted _ (by simp [inFlight, hpc])
        (.inr ⟨idx, .inr hpc, List.getElem?_eq_none_iff.mpr (Nat.not_lt.mp hge)⟩)
  · rename_i hpc
    cases hs
    exact .counted hpc
  · cases hs

/-- What the next step of a worker can do. -/
inductive WorkerMove (s : State Batch Item) (w : Nat) : Worker Item → State Batch Item → Prop
  | left (ch : WorkerChannel Item) (hch : s.channels[w]? = some ch)
      (hstop : s.forceQuit = true ∨ ch.shutdown = true) :
      WorkerMove s w .waiting (s.setWorker w .exited)
  | idled : WorkerMove s w .waiting s
  | took (ch : WorkerChannel Item) (hch : s.channels[w]? = some ch) (t : Ticket Item)
      (rest : List (Ticket Item)) (hitems : ch.items = t :: rest) :
      WorkerMove s w .waiting { s.setWorker w (.taken t) with
        channels := s.channels.set w { ch with items := rest } }
  | lowered (t : Ticket Item) :
      WorkerMove s w (.taken t) { s.setWorker w (.processing t) with
        queuedItems := (s.queuedItems + (sizeRange - 1)) % sizeRange }
  | done (t : Ticket Item) :
      WorkerMove s w (.processing t) { s.setWorker w .waiting with
        history := s.history ++ [.processed w t] }

variable {x : Worker Item}
variable {w : Nat}

theorem workerMove_of_workerNext (hs : Writer.workerNext setup.cfg s w x = some s') :
    WorkerMove s w x s' := by
  cases x with
  | waiting =>
    simp only [Writer.workerNext] at hs
    split at hs
    · cases hs
    · rename_i ch hch
      split at hs
      · rename_i hforce
        cases hs
        exact .left ch hch (.inl hforce)
      · split at hs
        · split at hs
          · rename_i hflag
            cases hs
            exact .left ch hch (.inr hflag)
          · split at hs
            · cases hs
              exact .idled
            · cases hs
        · rename_i t rest hitems
          cases hs
          exact .took ch hch t rest hitems
  | taken t =>
    cases hs
    exact .lowered t
  | processing t =>
    cases hs
    exact .done t
  | exited => cases hs

theorem WorkerMove.frame (hm : WorkerMove s w x s') :
    s'.pushes = s.pushes ∧ s'.workers.length = s.workers.length ∧ s'.stopper = s.stopper ∧
      s'.running = s.running ∧ s'.forceQuit = s.forceQuit := by
  cases hm <;> simp [State.setWorker]

theorem step_of_noFault {a : Writer.Action Batch Item} (hs : Writer.step setup s a = some s') :
    s.fault.isSome = false := by
  unfold Writer.step at hs
  split at hs
  · cases hs
  · rename_i hf
    simpa using hf

theorem pushMove_of_step {p : Nat} (hq : s.pushes[p]? = some q)
    (hs : Writer.step setup s (.push p) = some s') : PushMove setup s p q s' := by
  cases stepMove_of_step hs with
  | pushed hq' hnext =>
    obtain rfl := Option.some.inj (hq.symm.trans hq')
    exact pushMove_of_pushNext hnext

theorem workerMove_of_step (hw : s.workers[w]? = some x)
    (hs : Writer.step setup s (.worker w) = some s') : WorkerMove s w x s' := by
  cases stepMove_of_step hs with
  | worked hx hnext =>
    obtain rfl := Option.some.inj (hw.symm.trans hx)
    exact workerMove_of_workerNext hnext

theorem stopNext_of_step (hs : Writer.step setup s .stop = some s') :
    Writer.stopNext s = some s' := by
  cases stepMove_of_step hs with
  | stopped hnext => exact hnext

/-! ## 3. All runs -/

/-- What a push knows about its items and its channel. -/
structure Placed (setup : Setup Item) (q : Push Batch Item) : Prop where
  fresh : q.pc = .entered → q.sent = 0
  more : (q.pc = .waiting ∨ q.pc = .woken ∨ q.pc = .passed ∨ ∃ idx, q.pc = .routed idx) →
    q.sent < q.items.length
  target : ∀ idx, (q.pc = .routed idx ∨ q.pc = .appended idx) → idx < setup.cfg.channelCount
  sent : uncounted q = true → 0 < q.sent

/-- What holds of the writer whatever the order of the steps. -/
structure Shape (setup : Setup Item) (s : State Batch Item) : Prop where
  pushes : ∀ q ∈ s.pushes, Placed setup q
  workers : s.workers.length = setup.cfg.channelCount
  idle : s.running = true ↔ s.stopper = .idle
  channels : ¬ cleared s → s.channels.length = setup.cfg.channelCount
  gone : cleared s → s.channels = []
  fault : s.fault ≠ none → cleared s
  opened : s.running = true → ∀ ch ∈ s.channels, ch.shutdown = false
  alive : s.running = true → s.forceQuit = false → ∀ x ∈ s.workers, x ≠ .exited

theorem shape_started (setup : Setup Item) :
    Shape setup (Writer.started setup.cfg : State Batch Item) where
  pushes := by simp [Writer.started]
  workers := by simp [Writer.started]
  idle := by simp [Writer.started]
  channels := by simp [Writer.started]
  gone := by rintro (h | h) <;> cases h
  fault := fun h => absurd rfl h
  opened := by simp +contextual [Writer.started]
  alive := by simp +contextual [Writer.started]

/-- While `stop()` has not begun the queues are there. -/
theorem Shape.not_cleared (h : Shape setup s) (hr : s.running = true) : ¬ cleared s := by
  have hidle := h.idle.mp hr
  rintro (hc | hc) <;> rw [hidle] at hc <;> cases hc

theorem Shape.setPush (h : Shape setup s) {p n m : Nat} {q' : Push Batch Item}
    (hok : Placed setup q') :
    Shape setup { s.setPush p q' with nextChannel := n, queuedItems := m } where
  pushes := fun x hx => (mem_replace hx).elim (fun he => he ▸ hok) (h.pushes x)
  workers := h.workers
  idle := h.idle
  channels := h.channels
  gone := h.gone
  fault := h.fault
  opened := h.opened
  alive := h.alive

theorem Shape.setFault (h : Shape setup s) (f : Fault) (hc : cleared s) :
    Shape setup { s with fault := some f } :=
  { h with fault := fun _ => hc }

theorem Shape.cleared_of_none (h : Shape setup s) {idx : Nat} (hidx : idx < setup.cfg.channelCount)
    (hnone : s.channels[idx]? = none) : cleared s := by
  by_contra hc
  rw [List.getElem?_eq_none_iff, h.channels hc] at hnone
  omega

variable {history : List (Event Item)}

/-- A channel is replaced by one with the same flag, or while `stop()` is on. -/
theorem Shape.setChannel (h : Shape setup s) {idx : Nat} {ch ch' : WorkerChannel Item}
    (hch : s.channels[idx]? = some ch) (hflag : s.running = true → ch'.shutdown = ch.shutdown) :
    Shape setup { s with channels := s.channels.set idx ch', history := history } where
  pushes := h.pushes
  workers := h.workers
  idle := h.idle
  channels := fun hc => by
    have := h.channels hc
    simpa using this
  gone := fun hc => by
    have hnil := h.gone hc
    simp [hnil]
  fault := h.fault
  opened := fun hr x hx => by
    rcases mem_replace hx with rfl | hx
    · rw [hflag hr]
      exact h.opened hr ch (mem_of_getElem? hch)
    · exact h.opened hr x hx
  alive := h.alive

theorem Shape.setWorker (h : Shape setup s) {w m : Nat}
    (hx : s.running = true → s.forceQuit = false → x ≠ .exited) :
    Shape setup { s.setWorker w x with queuedItems := m, history := history } where
  pushes := h.pushes
  workers := by simpa [State.setWorker] using h.workers
  idle := h.idle
  channels := h.channels
  gone := h.gone
  fault := h.fault
  opened := h.opened
  alive := fun hr hf y hy => (mem_replace hy).elim (fun he => he ▸ hx hr hf) (h.alive hr hf y)

theorem placed_of_pc {pc : PushAt} (hpc : pc ≠ .entered)
    (hmore : q.sent < q.items.length ∨ ∀ idx, pc ≠ .waiting ∧ pc ≠ .woken ∧ pc ≠ .passed ∧
      pc ≠ .routed idx)
    (htarget : ∀ idx, (pc = .routed idx ∨ pc = .appended idx) → idx < setup.cfg.channelCount)
    (hsent : uncounted { q with pc := pc } = true → 0 < q.sent) :
    Placed setup { q with pc := pc } where
  fresh := fun he => absurd he hpc
  more := by
    rintro hpc
    rcases hmore with hlt | hno
    · exact hlt
    · rcases hpc with hpc | hpc | hpc | ⟨idx, hpc⟩
      · exact absurd hpc (hno 0).1
      · exact absurd hpc (hno 0).2.1
      · exact absurd hpc (hno 0).2.2.1
      · exact absurd hpc (hno idx).2.2.2
  target := htarget
  sent := hsent

/-- **A step of a push keeps the shape.** -/
theorem Shape.pushMove (h : Shape setup s) (hq : s.pushes[p]? = some q)
    (hm : PushMove setup s p q s') : Shape setup s' := by
  have hok := h.pushes q (mem_of_getElem? hq)
  cases hm with
  | woke hpc _ =>
    exact h.setPush
      (placed_of_pc (by simp) (.inl (hok.more (.inl hpc))) (by simp) (by simp [uncounted]))
  | turnedAway hpc _ =>
    exact h.setPush (placed_of_pc (by simp) (.inr (by simp)) (by simp) (by simp [uncounted]))
  | passed hpc _ _ =>
    exact h.setPush
      (placed_of_pc (by simp) (.inl (hok.more (.inr (.inl hpc)))) (by simp) (by simp [uncounted]))
  | routed hpc idx n hidx =>
    refine h.setPush (placed_of_pc (by simp) (.inl (hok.more (.inr (.inr (.inl hpc)))))
      (fun idx' hpc' => ?_) (by simp [uncounted]))
    have hcl : ¬ cleared s := fun hc => by simp [h.gone hc] at hidx
    obtain rfl : idx = idx' := by simpa using hpc'
    rw [← h.channels hcl]
    exact hidx
  | appended idx hpc ch item hch hitem =>
    have hidx := hok.target idx (.inl hpc)
    have hplaced : Placed setup { q with pc := .appended idx, sent := q.sent + 1 } :=
      { fresh := by simp, more := by simp, target := by simpa using hidx
        sent := fun _ => Nat.succ_pos _ }
    have hp : Shape setup (s.setPush p _) := h.setPush hplaced
    exact hp.setChannel hch (fun _ => rfl)
  | notified idx hpc =>
    exact h.setPush (placed_of_pc (by simp) (.inr (by simp)) (by simp) fun _ =>
      hok.sent (by simp [uncounted, hpc]))
  | counted hpc =>
    refine h.setPush (placed_of_pc ?_ ?_ ?_ ?_)
    · split <;> simp
    · split
      · rename_i hlt
        exact .inl hlt
      · exact .inr (by simp)
    · split <;> simp
    · split <;> simp [uncounted]
  | faulted f hpc hgone =>
    refine h.setFault f ?_
    rcases hgone with hzero | ⟨idx, hpc', hnone⟩
    · refine h.cleared_of_none setup.cfg.channelCount_pos ?_
      rw [length_eq_zero_iff.mp hzero]
      rfl
    · exact h.cleared_of_none (hok.target idx hpc') hnone

/-- **A step of a worker keeps the shape.** -/
theorem Shape.workerMove (h : Shape setup s) (hm : WorkerMove s w x s') :
    Shape setup s' := by
  cases hm with
  | left ch hch hstop =>
    refine h.setWorker fun hr hf => ?_
    rcases hstop with hforce | hflag
    · rw [hf] at hforce
      cases hforce
    · rw [h.opened hr ch (mem_of_getElem? hch)] at hflag
      cases hflag
  | idled => exact h
  | took ch hch t rest hitems =>
    have hw : Shape setup (s.setWorker w (.taken t)) := h.setWorker fun _ _ hx => by cases hx
    exact hw.setChannel hch (fun _ => rfl)
  | lowered t => exact h.setWorker fun _ _ hx => by cases hx
  | done t => exact h.setWorker fun _ _ hx => by cases hx

/-- **A step of `stop()` keeps the shape.** -/
theorem Shape.stopNext (h : Shape setup s) (hs : Writer.stopNext s = some s') : Shape setup s' := by
  unfold Writer.stopNext at hs
  split at hs
  · rename_i hidle
    rw [if_pos (h.idle.mpr hidle)] at hs
    cases hs
    have hcl : ¬ cleared s := h.not_cleared (h.idle.mpr hidle)
    exact
      { pushes := h.pushes, workers := h.workers, idle := by simp
        channels := fun _ => h.channels hcl
        gone := by rintro (hc | hc) <;> cases hc
        fault := fun hf => absurd (h.fault hf) hcl
        opened := fun hr => by cases hr
        alive := fun hr => by cases hr }
  · rename_i i hshut
    have hr : s.running = false := by
      cases hr : s.running with
      | false => rfl
      | true => rw [h.idle.mp hr] at hshut; cases hshut
    have hcl : ¬ cleared s := by rintro (hc | hc) <;> rw [hshut] at hc <;> cases hc
    split at hs
    · rename_i ch hch
      cases hs
      exact
        { pushes := h.pushes, workers := h.workers, idle := by simp [hr]
          channels := fun _ => by simpa using h.channels hcl
          gone := by rintro (hc | hc) <;> cases hc
          fault := fun hf => absurd (h.fault hf) hcl
          opened := fun hr' => by rw [hr] at hr'; cases hr'
          alive := fun hr' => by rw [hr] at hr'; cases hr' }
    · split at hs
      · cases hs
        exact
          { pushes := h.pushes, workers := h.workers, idle := by simp [hr]
            channels := fun hc => absurd (.inl rfl) hc
            gone := fun _ => rfl
            fault := fun _ => .inl rfl
            opened := fun _ _ hx => by cases hx
            alive := fun hr' => by rw [hr] at hr'; cases hr' }
      · cases hs
  · rename_i hcleared
    cases hs
    have hr : s.running = false := by
      cases hr : s.running with
      | false => rfl
      | true => rw [h.idle.mp hr] at hcleared; cases hcleared
    exact
      { pushes := h.pushes, workers := h.workers, idle := by simp [hr]
        channels := fun hc => absurd (.inr rfl) hc
        gone := fun _ => h.gone (.inl hcleared)
        fault := fun _ => .inr rfl
        opened := h.opened
        alive := h.alive }
  · cases hs

/-- A new call of `push()`. -/
theorem Shape.enter (h : Shape setup s) (hq : Placed setup q) :
    Shape setup { s with pushes := s.pushes ++ [q] } :=
  { h with pushes := fun x hx => (mem_append.mp hx).elim (h.pushes x) fun hx =>
      mem_singleton.mp hx ▸ hq }

/-- `prepare` gives the push its items or sends it back. -/
theorem Shape.prepared (h : Shape setup s) {enrichers : List (Batch → Enriched Batch)}
    {toItems : Batch → Option (List Item)} (hq : s.pushes[p]? = some q) (hpc : q.pc = .entered)
    (hs : Writer.step setup s (.prepare p enrichers toItems) = some s') :
    Shape setup s' ∧ ∃ q', s' = s.setPush p q' ∧ uncounted q' = false ∧ q'.sent = q.sent ∧
      underWay q' = false ∧ q'.pc ≠ .woken := by
  cases stepMove_of_step hs with
  | refused hq' _ _ =>
    obtain rfl := Option.some.inj (hq.symm.trans hq')
    exact ⟨h.setPush (placed_of_pc (by simp) (.inr (by simp)) (by simp) (by simp [uncounted])),
      _, rfl, rfl, rfl, rfl, by simp⟩
  | ready hq' _ hitems =>
    obtain rfl := Option.some.inj (hq.symm.trans hq')
    refine ⟨h.setPush
      { fresh := by simp
        more := fun _ => by
          rw [(h.pushes q (mem_of_getElem? hq)).fresh hpc]
          exact prepare_ne_nil hitems
        target := by simp
        sent := by simp [uncounted] },
      _, rfl, rfl, rfl, rfl, by simp⟩

/-! ## 4. Orderly runs

On orderly runs the counter is the number of held items whose push has counted them (`Accounts`):
appending changes neither number, as the item is not yet counted, and a worker takes the counter
down for a counted item, so it is above zero.  Section 2 says once what a step of a push or of a
worker can do, and section 3 is what holds of the writer on all runs. -/

/-- **The books.**  The counter is the number of counted items held, and with the pushes under way
it stays within the capacity. -/
structure Accounts (setup : Setup Item) (s : State Batch Item) : Prop where
  distinct : ((held s).map Ticket.name).Nodup
  known : ∀ t ∈ held s, ∃ q, s.pushes[t.push]? = some q ∧ t.index < q.sent
  present : ∀ p q, s.pushes[p]? = some q → uncounted q = true →
    ∃ t ∈ held s, t.push = p ∧ t.index + 1 = q.sent
  counter : s.queuedItems = (held s).countP (counted s.pushes)
  reserve : s.queuedItems + s.pushes.countP underWay ≤ toSize setup.cfg.queueCapacity

theorem held_started (cfg : QueueConfig) : held (Writer.started cfg : State Batch Item) = [] := by
  simp [held, Writer.started, lowering]

theorem accounts_started (setup : Setup Item) :
    Accounts setup (Writer.started setup.cfg : State Batch Item) where
  distinct := by simp [held_started]
  known := by simp [held_started]
  present := by simp [Writer.started]
  counter := by simp [held_started]; rfl
  reserve := by simp [Writer.started]

theorem toSize_lt (i : Int) : toSize i < sizeRange := by
  unfold toSize
  have : (0 : Int) < sizeRange := by decide
  have := Int.emod_lt_of_pos i this
  have := Int.emod_nonneg i (b := sizeRange) (by decide)
  omega

theorem Accounts.known_set (h : Accounts setup s) (hq : s.pushes[p]? = some q)
    (hsent : q.sent ≤ q'.sent) :
    ∀ t ∈ held s, ∃ x, (s.pushes.set p q')[t.push]? = some x ∧ t.index < x.sent := by
  intro t ht
  obtain ⟨x, hx, hlt⟩ := h.known t ht
  rw [getElem?_replace hq]
  by_cases hp : t.push = p
  · rw [if_pos hp]
    rw [hp, hq] at hx
    obtain rfl := Option.some.inj hx
    exact ⟨q', rfl, Nat.lt_of_lt_of_le hlt hsent⟩
  · rw [if_neg hp]
    exact ⟨x, hx, hlt⟩

theorem Accounts.setPush (h : Accounts setup s) {p n : Nat} (hq : s.pushes[p]? = some q)
    (hsent : q'.sent = q.sent) (hu : uncounted q' = uncounted q)
    (hroom : s.queuedItems + (s.pushes.set p q').countP underWay ≤ toSize setup.cfg.queueCapacity) :
    Accounts setup { s.setPush p q' with nextChannel := n } where
  distinct := h.distinct
  known := h.known_set hq (Nat.le_of_eq hsent.symm)
  present := fun p' x hx hux => by
    simp only [State.setPush, getElem?_replace hq] at hx
    split at hx
    · rename_i hp
      obtain rfl := Option.some.inj hx
      rw [hsent, hp]
      exact h.present p q hq (hu ▸ hux)
    · exact h.present p' x hx hux
  counter := h.counter.trans (congrArg (List.countP · (held s)) (counted_move hq hsent hu).symm)
  reserve := hroom

theorem Accounts.rearrange (h : Accounts setup s) (hp : (held s').Perm (held s))
    (hpushes : s'.pushes = s.pushes) (hcount : s'.queuedItems = s.queuedItems) :
    Accounts setup s' where
  distinct := (hp.map _).nodup_iff.mpr h.distinct
  known := fun t ht => hpushes ▸ h.known t (hp.mem_iff.mp ht)
  present := fun p q hq hu => by
    obtain ⟨t, ht, hrest⟩ := h.present p q (hpushes ▸ hq) hu
    exact ⟨t, hp.mem_iff.mpr ht, hrest⟩
  counter := by rw [hcount, h.counter, hpushes, hp.countP_eq]
  reserve := by rw [hcount, hpushes]; exact h.reserve

/-- **The append.**  The new item is held and not counted. -/
theorem Accounts.append (h : Accounts setup s) {p idx : Nat} {ch : WorkerChannel Item} {item : Item}
    (hq : s.pushes[p]? = some q) (hpc : q.pc = .routed idx) (hch : s.channels[idx]? = some ch) :
    Accounts setup { s.setPush p { q with pc := .appended idx, sent := q.sent + 1 } with
      channels := s.channels.set idx { ch with items := ch.items ++ [⟨p, q.sent, item⟩] }
      history := history } := by
  have hnew : ∀ t ∈ held s, t.name ≠ (p, q.sent) := fun t ht hname => by
    obtain ⟨x, hx, hlt⟩ := h.known t ht
    obtain ⟨htp, hti⟩ := Prod.mk.inj hname
    rw [htp, hq] at hx
    obtain rfl := Option.some.inj hx
    omega
  have hperm : (held { s.setPush p { q with pc := .appended idx, sent := q.sent + 1 } with
      channels := s.channels.set idx { ch with items := ch.items ++ [⟨p, q.sent, item⟩] }
      history := history }).Perm (⟨p, q.sent, item⟩ :: held s) := by
    have hset := flatMap_replace hch { ch with items := ch.items ++ [⟨p, q.sent, item⟩] }
      WorkerChannel.items
    have hset' : ((s.channels.set idx { ch with items := ch.items ++ [⟨p, q.sent, item⟩] }).flatMap
        WorkerChannel.items).Perm (s.channels.flatMap WorkerChannel.items ++ [⟨p, q.sent, item⟩]) :=
      (perm_append_right_iff ch.items).mp (hset.trans (by
        rw [append_assoc]
        exact perm_append_comm.append_left _))
    exact (hset'.append_right _).trans (by
      rw [append_assoc]
      exact perm_middle)
  have hcounted : ∀ t ∈ held s, counted (s.pushes.set p
      { q with pc := .appended idx, sent := q.sent + 1 }) t = counted s.pushes t := by
    intro t ht
    rw [counted_set hq]
    split
    · rename_i htp
      have hindex : q.sent ≠ t.index := fun hi => hnew t ht (by rw [Ticket.name, htp, hi])
      have hold : counted s.pushes t = true :=
        counted_other (htp ▸ hq) (.inr (by simp [uncounted, hpc]))
      rw [hold]
      simp [hindex]
    · rfl
  refine ⟨?_, ?_, ?_, ?_, ?_⟩
  · refine (hperm.map _).nodup_iff.mpr (nodup_cons.mpr ⟨fun hmem => ?_, h.distinct⟩)
    obtain ⟨t, ht, hname⟩ := mem_map.mp hmem
    exact hnew t ht hname
  · intro t ht
    rcases mem_cons.mp (hperm.mem_iff.mp ht) with rfl | ht
    · exact ⟨_, (getElem?_replace hq _ p).trans (if_pos rfl), Nat.lt_succ_self _⟩
    · exact h.known_set hq (Nat.le_succ _) t ht
  · intro p' x hx hux
    simp only [State.setPush, getElem?_replace hq] at hx
    split at hx
    · rename_i hp
      obtain rfl := Option.some.inj hx
      exact ⟨_, hperm.mem_iff.mpr mem_cons_self, hp.symm, rfl⟩
    · obtain ⟨t, ht, hrest⟩ := h.present p' x hx hux
      exact ⟨t, hperm.mem_iff.mpr (mem_cons_of_mem _ ht), hrest⟩
  · have hself : counted (s.pushes.set p { q with pc := .appended idx, sent := q.sent + 1 })
        (⟨p, q.sent, item⟩ : Ticket Item) = false := by
      rw [counted_set hq]
      simp [uncounted]
    refine h.counter.trans ?_
    rw [hperm.countP_eq, countP_cons, State.setPush]
    simp only [hself, Bool.false_eq_true, if_false, Nat.add_zero]
    exact (countP_congr fun t ht => by rw [hcounted t ht]).symm
  · have hsame : underWay { q with pc := .appended idx, sent := q.sent + 1 } = underWay q := by
      simp [underWay, hpc]
    simpa only [State.setPush, countP_replace_same hq hsame] using h.reserve

/-- **The counting.**  The push has counted its item. -/
theorem Accounts.count (h : Accounts setup s) {c : PushAt} (hq : s.pushes[p]? = some q)
    (hpc : q.pc = .notified) (hu : uncounted { q with pc := c } = false)
    (hw : underWay { q with pc := c } = false) :
    s.queuedItems + 1 < sizeRange ∧
    Accounts setup { s.setPush p { q with pc := c } with queuedItems := s.queuedItems + 1 } := by
  have hunder := countP_replace hq { q with pc := c } underWay
  have hq' : underWay q = true := by simp [underWay, hpc]
  rw [hw, hq'] at hunder
  have hroom := h.reserve
  have hsize := toSize_lt setup.cfg.queueCapacity
  simp only [Bool.toNat_true, Bool.toNat_false] at hunder
  refine ⟨by omega, h.distinct, h.known_set hq (Nat.le_refl _), ?_, ?_, ?_⟩
  · intro p' x hx hux
    simp only [State.setPush, getElem?_replace hq] at hx
    split at hx
    · obtain rfl := Option.some.inj hx
      rw [hu] at hux
      cases hux
    · exact h.present p' x hx hux
  · obtain ⟨t, ht, htp, hti⟩ := h.present p q hq (by simp [uncounted, hpc])
    have hbefore : counted s.pushes t = false := by
      simp [counted, htp, hq, uncounted, hpc, hti]
    refine (congrArg (· + 1) h.counter).trans (Eq.symm (countP_flip (List.Nodup.of_map _ h.distinct)
      ht hbefore ?_ fun y hy hne => ?_))
    · simp [State.setPush, counted_set hq, htp, hu]
    · simp only [State.setPush, counted_set hq, hu, Bool.false_and, Bool.not_false]
      split
      · rename_i hyp
        refine (counted_other (hyp ▸ hq) (.inl fun hi => hne ?_)).symm
        refine inj_on_of_nodup_map h.distinct hy ht ?_
        rw [Ticket.name, Ticket.name, hyp, htp]
        congr 1
        omega
      · rfl
  · simp only [State.setPush]
    omega

/-- A new call of `push()`. -/
theorem Accounts.enter (h : Accounts setup s) (hu : underWay q = false) :
    Accounts setup { s with pushes := s.pushes ++ [q] } where
  distinct := h.distinct
  known := fun t ht => by
    obtain ⟨x, hx, hlt⟩ := h.known t ht
    exact ⟨x, List.getElem?_append_left (List.getElem?_eq_some_iff.mp hx).1 ▸ hx, hlt⟩
  present := fun p x hx hux => by
    rcases Nat.lt_or_ge p s.pushes.length with hlt | hge
    · exact h.present p x (List.getElem?_append_left hlt ▸ hx) hux
    · rw [List.getElem?_append_right hge] at hx
      obtain rfl := mem_singleton.mp (mem_of_getElem? hx)
      unfold underWay at hu
      unfold uncounted at hux
      split at hux <;> simp_all
  counter := h.counter.trans (countP_congr fun t ht => by
    obtain ⟨x, hx, -⟩ := h.known t ht
    rw [counted_append hx])
  reserve := by simpa [hu] using h.reserve

/-- **A worker lowers the counter** for a counted item, so the counter is above zero. -/
theorem Accounts.lower (h : Accounts setup s) (hw : s.workers[w]? = some (.taken t))
    (ht : counted s.pushes t = true) :
    0 < s.queuedItems ∧
    Accounts setup { s.setWorker w (.processing t) with queuedItems := s.queuedItems - 1 } := by
  have hperm : (held s).Perm (t :: held (s.setWorker w (.processing t))) := by
    have hset := flatMap_replace hw (.processing t) lowering
    simp only [lowering, append_nil] at hset
    refine ((hset.symm.append_left (s.channels.flatMap WorkerChannel.items)).trans ?_)
    rw [← append_assoc]
    exact perm_append_comm
  have hcount : s.queuedItems =
      (held (s.setWorker w (.processing t))).countP (counted s.pushes) + 1 := by
    rw [h.counter, hperm.countP_eq, countP_cons, if_pos ht]
  have hmem : ∀ x ∈ held (s.setWorker w (.processing t)), x ∈ held s := fun x hx =>
    hperm.mem_iff.mpr (mem_cons_of_mem _ hx)
  refine ⟨by omega, ?_, fun x hx => h.known x (hmem x hx), fun p q hq hu => ?_, ?_, ?_⟩
  · exact (nodup_cons.mp ((hperm.map _).nodup_iff.mp h.distinct)).2
  · obtain ⟨x, hx, hxp, hxi⟩ := h.present p q hq hu
    refine ⟨x, ?_, hxp, hxi⟩
    rcases mem_cons.mp (hperm.mem_iff.mp hx) with rfl | hx
    · have hpush : s.pushes[x.push]? = some q := hxp ▸ hq
      simp [counted, hpush, hu, hxi] at ht
    · exact hx
  · change s.queuedItems - 1 = _
    rw [hcount]
    rfl
  · have := h.reserve
    simp only [State.setWorker]
    omega

theorem Accounts.take (h : Accounts setup s) {ch : WorkerChannel Item} {rest : List (Ticket Item)}
    (hw : s.workers[w]? = some .waiting) (hch : s.channels[w]? = some ch)
    (hitems : ch.items = t :: rest) :
    Accounts setup { s.setWorker w (.taken t) with
      channels := s.channels.set w { ch with items := rest } } := by
  refine h.rearrange ?_ rfl rfl
  have hset := flatMap_replace hch { ch with items := rest } WorkerChannel.items
  have hset' : ((s.channels.set w { ch with items := rest }).flatMap WorkerChannel.items ++
      [t]).Perm (s.channels.flatMap WorkerChannel.items) := by
    rw [hitems] at hset
    refine (perm_append_right_iff rest).mp (List.Perm.trans ?_ hset)
    rw [append_assoc]
    rfl
  have hwork := flatMap_replace hw (.taken t) lowering
  simp only [lowering, append_nil] at hwork
  refine (hwork.append_left _).trans ?_
  refine ((perm_append_comm.append_left _).trans ?_)
  rw [← append_assoc]
  exact hset'.append_right _

theorem Accounts.setWorker (h : Accounts setup s) {x y : Worker Item} (hw : s.workers[w]? = some x)
    (hx : lowering x = []) (hy : lowering y = []) :
    Accounts setup { s.setWorker w y with history := history } := by
  refine h.rearrange ?_ rfl rfl
  have hset := flatMap_replace hw y lowering
  rw [hx, hy, append_nil, append_nil] at hset
  exact hset.append_left _

theorem Accounts.lowered_eq (h : Accounts setup s) (hpos : 0 < s.queuedItems) :
    (s.queuedItems + (sizeRange - 1)) % sizeRange = s.queuedItems - 1 := by
  have hlt : s.queuedItems < sizeRange :=
    Nat.lt_of_le_of_lt (Nat.le_trans (Nat.le_add_right ..) h.reserve) (toSize_lt _)
  have hsplit : s.queuedItems + (sizeRange - 1) = (s.queuedItems - 1) + sizeRange := by omega
  rw [hsplit, Nat.add_mod_right, Nat.mod_eq_of_lt (by omega)]

theorem Accounts.moved (h : Accounts setup s) {p n : Nat} {pc : PushAt} (hq : s.pushes[p]? = some q)
    (hu : uncounted { q with pc := pc } = uncounted q)
    (hw : underWay { q with pc := pc } = underWay q) :
    Accounts setup { s.setPush p { q with pc := pc } with nextChannel := n } :=
  h.setPush hq rfl hu (by simpa only [countP_replace_same hq hw] using h.reserve)

/-- **A step of a push keeps the books**, if one that leaves the wait finds room. -/
theorem Accounts.pushMove (h : Accounts setup s) (hq : s.pushes[p]? = some q)
    (hm : PushMove setup s p q s') (hroom : q.pc = .woken → s.running = true → s.forceQuit = false →
      s.queuedItems + s.pushes.countP underWay < toSize setup.cfg.queueCapacity) :
    Accounts setup s' := by
  cases hm with
  | woke hpc _ => exact h.moved hq (by simp [uncounted, hpc]) (by simp [underWay, hpc])
  | turnedAway hpc _ => exact h.moved hq (by simp [uncounted, hpc]) (by simp [underWay, hpc])
  | passed hpc hr hf =>
    refine h.setPush hq rfl (by simp [uncounted, hpc]) ?_
    have hunder := countP_replace hq { q with pc := .passed } underWay
    have hold : underWay q = false := by simp [underWay, hpc]
    have hnew : underWay { q with pc := .passed } = true := rfl
    rw [hold, hnew, Bool.toNat_true, Bool.toNat_false] at hunder
    have := hroom hpc hr hf
    omega
  | routed hpc idx n _ => exact h.moved hq (by simp [uncounted, hpc]) (by simp [underWay, hpc])
  | appended idx hpc ch item hch hitem => exact h.append hq hpc hch
  | notified idx hpc => exact h.moved hq (by simp [uncounted, hpc]) (by simp [underWay, hpc])
  | counted hpc =>
    obtain ⟨hlt, hcount⟩ := h.count (c := if q.sent < q.items.length then .waiting
      else .returned true) hq hpc (by split <;> rfl) (by split <;> rfl)
    rw [Nat.mod_eq_of_lt hlt]
    exact hcount
  | faulted f _ _ => exact h.rearrange (List.Perm.refl _) rfl rfl

/-- **A step of a worker keeps the books**, if it lowers the counter for a counted item. -/
theorem Accounts.workerMove (h : Accounts setup s) (hw : s.workers[w]? = some x)
    (hm : WorkerMove s w x s') (hcounted : ∀ t, x = .taken t → counted s.pushes t = true) :
    Accounts setup s' := by
  cases hm with
  | left ch hch _ => exact h.setWorker hw rfl rfl
  | idled => exact h
  | took ch hch t rest hitems => exact h.take hw hch hitems
  | lowered t =>
    obtain ⟨hpos, hlower⟩ := h.lower hw (hcounted t rfl)
    rw [h.lowered_eq hpos]
    exact hlower
  | done t => exact h.setWorker hw rfl rfl

/-- **A step of `stop()` keeps the books**, if it destroys empty queues. -/
theorem Accounts.stopNext (h : Accounts setup s) (hs : Writer.stopNext s = some s')
    (hempty : clearing s = true → ∀ ch ∈ s.channels, ch.items = []) : Accounts setup s' := by
  unfold Writer.stopNext at hs
  split at hs
  · split at hs <;> cases hs <;> exact h.rearrange (List.Perm.refl _) rfl rfl
  · rename_i i hshut
    split at hs
    · rename_i ch hch
      cases hs
      refine h.rearrange (List.Perm.append_right _ ?_) rfl rfl
      exact (perm_append_right_iff ch.items).mp
        (flatMap_replace hch { ch with shutdown := true } WorkerChannel.items)
    · rename_i hnone
      split at hs
      · cases hs
        refine h.rearrange ?_ rfl rfl
        have hclear : clearing s = true := by
          simpa [clearing, hshut] using List.getElem?_eq_none_iff.mp hnone
        have hnil : s.channels.flatMap WorkerChannel.items = [] :=
          flatMap_eq_nil_iff.mpr (hempty hclear)
        simp [held, hnil]
      · cases hs
  · cases hs
    exact h.rearrange (List.Perm.refl _) rfl rfl
  · cases hs

end MldpDriver.Writer
