/-
# Does stop() drain what push() accepted?

`Drained` says what a caller of the queued writer relies on: an item of a push that returned true
is processed once, and before `stop()` returns; items with one routing key are processed in the
order they were enqueued; no item is left with a worker that has exited; the channel list is not
read after it was cleared.
-/
import MldpDriver.Lib.Tagged
import MldpDriver.Writer.BaseQueuedWriter

namespace MldpDriver.Writer

open Lib.Run Lib.Tagged List

variable {Batch Item : Type}

/-! ## 1. What a run shows -/

/-- What was enqueued, each item under its channel. -/
def enqueued (h : List (Event Item)) : List (Nat × Ticket Item) :=
  h.filterMap fun
    | .enqueued c t => some (c, t)
    | _ => none

/-- What was handed to `processItem`, each item under its worker. -/
def processed (h : List (Event Item)) : List (Nat × Ticket Item) :=
  h.filterMap fun
    | .processed w t => some (w, t)
    | _ => none

@[simp] theorem enqueued_append (h h' : List (Event Item)) :
    enqueued (h ++ h') = enqueued h ++ enqueued h' := filterMap_append

@[simp] theorem processed_append (h h' : List (Event Item)) :
    processed (h ++ h') = processed h ++ processed h' := filterMap_append

@[simp] theorem enqueued_enqueued (c : Nat) (t : Ticket Item) :
    enqueued [.enqueued c t] = [(c, t)] := rfl

@[simp] theorem enqueued_processed (w : Nat) (t : Ticket Item) :
    enqueued [.processed w t] = [] := rfl

@[simp] theorem enqueued_stopReturned : enqueued ([.stopReturned] : List (Event Item)) = [] := rfl

@[simp] theorem processed_enqueued (c : Nat) (t : Ticket Item) :
    processed [.enqueued c t] = [] := rfl

@[simp] theorem processed_processed (w : Nat) (t : Ticket Item) :
    processed [.processed w t] = [(w, t)] := rfl

@[simp] theorem processed_stopReturned : processed ([.stopReturned] : List (Event Item)) = [] := rfl

/-- The name of an item: its push and its place there. -/
def Ticket.name (t : Ticket Item) : Nat × Nat := (t.push, t.index)

/-- The item is handed to `processItem` exactly once in `h`. -/
def handedOnce (h : List (Event Item)) (p i : Nat) (item : Item) : Prop :=
  ∃ w, (processed h).filter (fun x => decide (x.2.name = (p, i))) = [(w, ⟨p, i, item⟩)]

/-- The items with a routing key, in order. -/
def withKey (setup : Setup Item) (key : String) (l : List (Nat × Ticket Item)) :
    List (Nat × Ticket Item) :=
  l.filter fun x => decide (setup.itemRoutingKey x.2.item = key)

/-- The items waiting in a channel. -/
def queued (channels : List (WorkerChannel Item)) (c : Nat) : List (Ticket Item) :=
  match channels[c]? with
  | some ch => ch.items
  | none => []

/-- **What callers rely on.** An item of a push that returned true is processed once, and before
`stop()` returns; items of one key are processed in the order they were enqueued; and a worker that
has exited leaves nothing behind, or an item could wait for a worker that no longer runs. -/
structure Drained (setup : Setup Item) (s : State Batch Item) : Prop where
  handled : s.stopper = .returned → ∀ (p : Nat) (q : Push Batch Item), s.pushes[p]? = some q →
    q.pc = .returned true → ∀ (i : Nat) (item : Item), q.items[i]? = some item →
      ∃ before after, s.history = before ++ .stopReturned :: after ∧
        handedOnce before p i item ∧ handedOnce s.history p i item
  ordered : ∀ key, key ≠ "" →
    withKey setup key (processed s.history) <+: withKey setup key (enqueued s.history)
  noneLeft : ∀ w, s.workers[w]? = some .exited → queued s.channels w = []
  noFault : s.fault = none

/-! ## 2. The condition

Each clause excludes one race between `push()` and `stop()`; `drained_fails` is a run without the
first. -/

/-- A push between its last running check and its last use of the channel list. -/
def inFlight (q : Push Batch Item) : Bool :=
  match q.pc with
  | .passed | .routed _ | .appended _ => true
  | _ => false

/-- The next step of `stop()` may be to clear the channel list. -/
def clearing (s : State Batch Item) : Bool :=
  match s.stopper with
  | .shutting i => decide (s.channels.length ≤ i)
  | _ => false

/-- A step that stays clear of the races: a push appends while the worker of its channel is in its
loop, `stop()` clears the channel list when no push is in flight, and a push that appended an item
is not stopped before the others. -/
def timely (s : State Batch Item) : Action Batch Item → Bool
  | .push p =>
    match s.pushes[p]? with
    | none => true
    | some q =>
      match q.pc with
      | .woken => s.running || decide (q.sent = 0)
      | .routed idx => !(s.workers[idx]? matches some .exited)
      | _ => true
  | .stop => !clearing s || s.pushes.all (!inFlight ·)
  | .forceStop => false
  | _ => true

/-! ## 3. The invariant -/

/-- What is known of a single push. -/
structure PushOk (setup : Setup Item) (q : Push Batch Item) : Prop where
  fresh : q.pc = .entered → q.items = [] ∧ q.sent = 0
  bound : q.sent ≤ q.items.length
  more : (q.pc = .waiting ∨ q.pc = .woken ∨ inFlight q = true ∧ ∀ idx, q.pc ≠ .appended idx) →
    q.sent < q.items.length
  target : ∀ idx, q.pc = .routed idx → idx < setup.cfg.channelCount ∧
    ∀ item, q.items[q.sent]? = some item → setup.itemRoutingKey item ≠ "" →
      idx = setup.hash (setup.itemRoutingKey item) % setup.cfg.channelCount
  appended : ∀ idx, q.pc = .appended idx → idx < setup.cfg.channelCount
  complete : q.pc = .returned true → q.sent = q.items.length

variable {q : Push Batch Item}

theorem PushOk.ready {setup : Setup Item} (hlt : q.sent < q.items.length)
    (hpc : q.pc = .waiting ∨ q.pc = .woken ∨ q.pc = .passed) : PushOk setup q := by
  have hbound := Nat.le_of_lt hlt
  rcases hpc with hpc | hpc | hpc <;>
    exact
      { fresh := by simp [hpc], bound := hbound, more := fun _ => hlt, target := by simp [hpc],
        appended := by simp [hpc], complete := by simp [hpc] }

theorem PushOk.left {setup : Setup Item} (hbound : q.sent ≤ q.items.length)
    (hpc : q.pc = .notified ∨ ∃ ok, q.pc = .returned ok ∧ (ok = true → q.sent = q.items.length)) :
    PushOk setup q := by
  rcases hpc with hpc | ⟨ok, hpc, hall⟩
  · exact
      { fresh := by simp [hpc], bound := hbound, more := by simp [hpc, inFlight]
        target := by simp [hpc], appended := by simp [hpc], complete := by simp [hpc] }
  · exact
      { fresh := by simp [hpc], bound := hbound, more := by simp [hpc, inFlight]
        target := by simp [hpc], appended := by simp [hpc]
        complete := fun hc => hall (by simpa [hpc] using hc) }

/-- What a worker holds between taking an item and handing it to `processItem`. -/
def hand : Option (Worker Item) → List (Ticket Item)
  | some (.taken t) => [t]
  | some (.processing t) => [t]
  | _ => []

/-- The channel list has been cleared. -/
def cleared (s : State Batch Item) : Prop := s.stopper = .cleared ∨ s.stopper = .returned

/-- The invariant of timely runs. -/
structure Inv (setup : Setup Item) (s : State Batch Item) : Prop where
  noFault : s.fault = none
  noForce : s.forceQuit = false
  running : s.running = true ↔ s.stopper = .idle
  workers : s.workers.length = setup.cfg.channelCount
  channels : ¬ cleared s → s.channels.length = setup.cfg.channelCount
  gone : cleared s → s.channels = [] ∧ (∀ x ∈ s.workers, x = .exited) ∧
    ∀ q ∈ s.pushes, inFlight q = false
  pushes : ∀ q ∈ s.pushes, PushOk setup q
  flow : ∀ c, onTag c (enqueued s.history) = onTag c (processed s.history) ++
    (hand s.workers[c]? ++ queued s.channels c).map (c, ·)
  exited : ∀ w, s.workers[w]? = some .exited → queued s.channels w = []
  routed : ∀ x ∈ enqueued s.history, setup.itemRoutingKey x.2.item ≠ "" →
    x.1 = setup.hash (setup.itemRoutingKey x.2.item) % setup.cfg.channelCount
  tickets : ∀ t, t ∈ (enqueued s.history).map (·.2) ↔
    ∃ q, s.pushes[t.push]? = some q ∧ t.index < q.sent ∧ q.items[t.index]? = some t.item
  names : ((enqueued s.history).map (·.2.name)).Nodup
  finished : s.stopper = .returned → ∃ before, s.history = before ++ [.stopReturned]

theorem queued_started (cfg : QueueConfig) (c : Nat) :
    queued (started cfg : State Batch Item).channels c = [] := by
  simp only [queued, started, List.getElem?_replicate]
  split
  · rename_i h
    split at h
    · cases h; rfl
    · cases h
  · rfl

theorem hand_started (cfg : QueueConfig) (c : Nat) :
    hand (started cfg : State Batch Item).workers[c]? = [] := by
  simp only [started, List.getElem?_replicate]
  split <;> rfl

theorem inv_started (setup : Setup Item) : Inv setup (started setup.cfg : State Batch Item) where
  noFault := rfl
  noForce := rfl
  running := by simp [started]
  workers := by simp [started]
  channels := by simp [started]
  gone := by rintro (h | h) <;> cases h
  pushes := by simp [started]
  flow := by
    intro c
    rw [queued_started, hand_started]
    rfl
  exited := by
    intro w h
    simp only [started, List.getElem?_replicate] at h
    split at h <;> cases h
  routed := by simp [started, enqueued]
  tickets := by simp [started, enqueued]
  names := by simp [started, enqueued]
  finished := by intro h; cases h

/-! ## 4. Steps of push() -/

variable {item : Item}

section Steps

variable {setup : Setup Item} {s : State Batch Item}

theorem mem_set_pushes {l : List (Push Batch Item)} {p : Nat} {q x : Push Batch Item}
    (hx : x ∈ l.set p q) : x = q ∨ x ∈ l := by
  rcases mem_or_eq_of_mem_set hx with h | h
  · exact Or.inr h
  · exact Or.inl h

theorem Inv.setPush (h : Inv setup s) {p n m : Nat} {q q' : Push Batch Item}
    (hq : s.pushes[p]? = some q) (hsent : q'.sent = q.sent)
    (hitems : q'.items = q.items ∨ q.sent = 0) (hok : PushOk setup q')
    (hflight : cleared s → inFlight q' = false) :
    Inv setup { s.setPush p q' with nextChannel := n, queuedItems := m } where
  noFault := h.noFault
  noForce := h.noForce
  running := h.running
  workers := h.workers
  channels := h.channels
  gone := by
    intro hc
    obtain ⟨hch, hex, hfl⟩ := h.gone hc
    refine ⟨hch, hex, fun x hx => ?_⟩
    rcases mem_set_pushes hx with rfl | hx'
    · exact hflight hc
    · exact hfl x hx'
  pushes := by
    intro x hx
    rcases mem_set_pushes hx with rfl | hx'
    · exact hok
    · exact h.pushes x hx'
  flow := h.flow
  exited := h.exited
  routed := h.routed
  tickets := by
    intro t
    refine (h.tickets t).trans ?_
    simp only [State.setPush, List.getElem?_set]
    by_cases hp : p = t.push
    · subst hp
      have hlt : t.push < s.pushes.length := (List.getElem?_eq_some_iff.mp hq).1
      simp only [hq, Option.some.injEq, exists_eq_left', hlt, if_true, hsent]
      rcases hitems with hi | hz
      · rw [hi]
      · simp [hz]
    · simp [hp]
  names := h.names
  finished := h.finished

/-- A new call of `push()`. -/
theorem Inv.enter (h : Inv setup s) (hok : PushOk setup q) (hsent : q.sent = 0)
    (hflight : inFlight q = false) :
    Inv setup { s with pushes := s.pushes ++ [q] } where
  noFault := h.noFault
  noForce := h.noForce
  running := h.running
  workers := h.workers
  channels := h.channels
  gone := by
    intro hc
    obtain ⟨hch, hex, hfl⟩ := h.gone hc
    refine ⟨hch, hex, fun x hx => ?_⟩
    rcases mem_append.mp hx with hx | hx
    · exact hfl x hx
    · rw [mem_singleton.mp hx]; exact hflight
  pushes := by
    intro x hx
    rcases mem_append.mp hx with hx | hx
    · exact h.pushes x hx
    · rw [mem_singleton.mp hx]; exact hok
  flow := h.flow
  exited := h.exited
  routed := h.routed
  tickets := by
    intro t
    refine (h.tickets t).trans ?_
    constructor
    · rintro ⟨x, hx, hrest⟩
      have hlt := (List.getElem?_eq_some_iff.mp hx).1
      exact ⟨x, by rw [List.getElem?_append_left hlt]; exact hx, hrest⟩
    · rintro ⟨x, hx, hlt, hitem⟩
      rcases Nat.lt_or_ge t.push s.pushes.length with hlt' | hge
      · rw [List.getElem?_append_left hlt'] at hx
        exact ⟨x, hx, hlt, hitem⟩
      · rw [List.getElem?_append_right hge] at hx
        have hxq := mem_singleton.mp (mem_of_getElem? hx)
        subst hxq
        omega
  names := h.names
  finished := h.finished

variable {chs : List (WorkerChannel Item)}

theorem queued_set {idx : Nat} {ch ch' : WorkerChannel Item} (hch : chs[idx]? = some ch) (c : Nat) :
    queued (chs.set idx ch') c = if c = idx then ch'.items else queued chs c := by
  have hlt := (List.getElem?_eq_some_iff.mp hch).1
  by_cases hc : c = idx
  · subst hc
    simp [queued, hlt]
  · simp [queued, hc, Ne.symm hc]

variable {ch : WorkerChannel Item}

theorem queued_of_some {idx : Nat} (hch : chs[idx]? = some ch) :
    queued chs idx = ch.items := by
  simp [queued, hch]

/-- An appended item is the last of its channel, in the record and in the queue. -/
theorem flow_append {idx c : Nat} (t : Ticket Item) (hch : s.channels[idx]? = some ch)
    (h : onTag c (enqueued s.history) = onTag c (processed s.history) ++
      (hand s.workers[c]? ++ queued s.channels c).map (c, ·)) :
    onTag c (enqueued (s.history ++ [.enqueued idx t])) =
      onTag c (processed (s.history ++ [.enqueued idx t])) ++
        (hand s.workers[c]? ++
          queued (s.channels.set idx { ch with items := ch.items ++ [t] }) c).map (c, ·) := by
  rw [queued_set hch]
  by_cases hc : c = idx
  · subst hc
    simp [h, queued_of_some hch, onTag_self]
  · simp [h, onTag_other (Ne.symm hc), hc]

theorem nodup_append {idx : Nat} {t : Ticket Item} {history : List (Event Item)}
    (h : ((enqueued history).map (·.2.name)).Nodup)
    (hnew : ∀ x ∈ enqueued history, x.2.name ≠ t.name) :
    ((enqueued (history ++ [.enqueued idx t])).map (·.2.name)).Nodup := by
  rw [enqueued_append, map_append, List.nodup_append]
  refine ⟨h, by simp, ?_⟩
  rintro a ha b hb rfl
  simp only [enqueued_enqueued, map_cons, map_nil, mem_singleton] at hb
  obtain ⟨x, hx, hname⟩ := mem_map.mp ha
  exact hnew x hx (hname.trans hb)

/-- **The append.** The item goes to the channel its key selects, whose worker is in its loop. -/
theorem Inv.append (h : Inv setup s) {p idx : Nat} (hq : s.pushes[p]? = some q)
    (hpc : q.pc = .routed idx) (hch : s.channels[idx]? = some ch)
    (hitem : q.items[q.sent]? = some item) (halive : s.workers[idx]? ≠ some .exited) :
    Inv setup { s.setPush p { q with pc := .appended idx, sent := q.sent + 1 } with
      channels := s.channels.set idx { ch with items := ch.items ++ [⟨p, q.sent, item⟩] }
      history := s.history ++ [.enqueued idx ⟨p, q.sent, item⟩] } := by
  have hmem := mem_of_getElem? hq
  have hok := h.pushes q hmem
  have hlt : q.sent < q.items.length := (List.getElem?_eq_some_iff.mp hitem).1
  have hp : p < s.pushes.length := (List.getElem?_eq_some_iff.mp hq).1
  have hncl : ¬ cleared s := by
    intro hc
    have := (h.gone hc).2.2 q hmem
    simp [inFlight, hpc] at this
  refine
    { noFault := h.noFault, noForce := h.noForce, running := h.running, workers := h.workers,
      channels := ?_, gone := ?_, pushes := ?_, flow := ?_, exited := ?_, routed := ?_,
      tickets := ?_, names := ?_, finished := ?_ }
  · intro _
    simpa using h.channels hncl
  · intro hc
    exact absurd hc hncl
  · intro x hx
    rcases mem_set_pushes hx with rfl | hx'
    · exact
        { fresh := fun hf => by cases hf
          bound := hlt
          more := by
            rintro (hf | hf | ⟨_, hf⟩)
            · cases hf
            · cases hf
            · exact absurd rfl (hf idx)
          target := fun _ hf => by cases hf
          appended := by
            intro i hi
            cases hi
            exact (hok.target idx hpc).1
          complete := fun hf => by cases hf }
    · exact h.pushes x hx'
  · exact fun c => flow_append _ hch (h.flow c)
  · intro w hw
    show queued (s.channels.set idx _) w = []
    rw [queued_set hch, if_neg (fun he : w = idx => halive (he ▸ hw))]
    exact h.exited w hw
  · intro x hx hkey
    rw [enqueued_append, mem_append] at hx
    rcases hx with hx | hx
    · exact h.routed x hx hkey
    · rw [enqueued_enqueued, mem_singleton] at hx
      subst hx
      exact (hok.target idx hpc).2 item hitem hkey
  · intro t
    show t ∈ (enqueued (s.history ++ [_])).map (·.2) ↔ _
    rw [enqueued_append, map_append, mem_append, h.tickets t]
    simp only [State.setPush, List.getElem?_set, enqueued_enqueued, map_cons, map_nil,
      mem_singleton]
    by_cases hpt : p = t.push
    · subst hpt
      simp only [hq, Option.some.injEq, exists_eq_left', hp, if_true]
      constructor
      · rintro (⟨hlt', hit⟩ | ht)
        · exact ⟨by omega, hit⟩
        · rw [ht]; exact ⟨Nat.lt_succ_self _, hitem⟩
      · rintro ⟨hlt', hit⟩
        rcases Nat.lt_or_ge t.index q.sent with hl | hg
        · exact Or.inl ⟨hl, hit⟩
        · have hidx : t.index = q.sent := by omega
          rw [hidx, hitem, Option.some.injEq] at hit
          exact Or.inr (by cases t; simp_all)
    · have hne : t ≠ ⟨p, q.sent, item⟩ := fun ht => hpt (by rw [ht])
      simp [hpt, hne]
  · refine nodup_append h.names fun x hx hname => ?_
    obtain ⟨q₂, hq₂, hlt₂, -⟩ := (h.tickets x.2).mp (mem_map_of_mem hx)
    simp only [Ticket.name, Prod.mk.injEq] at hname
    rw [hname.1, hq, Option.some.injEq] at hq₂
    subst hq₂
    omega
  · intro hr
    exact absurd (Or.inr hr) hncl

/-! ## 5. Steps of the workers -/

theorem enqueued_done (history : List (Event Item)) (w : Nat) (done : List (Ticket Item)) :
    enqueued (history ++ done.map (.processed w)) = enqueued history := by
  rw [enqueued_append]
  simp [enqueued]

/-- What worker `w` hands over it had in its hand or in its channel, in this order. -/
theorem flow_worker {c w : Nat} {x x' : Worker Item} {done lost : List (Ticket Item)}
    (hx : s.workers[w]? = some x)
    (h : onTag c (enqueued s.history) = onTag c (processed s.history) ++
      (hand s.workers[c]? ++ queued s.channels c ++ lost).map (c, ·))
    (hflow : hand (some x) ++ queued s.channels w = done ++ (hand (some x') ++ queued chs w))
    (hother : ∀ c, c ≠ w → queued chs c = queued s.channels c) :
    onTag c (enqueued (s.history ++ done.map (.processed w))) =
      onTag c (processed (s.history ++ done.map (.processed w))) ++
        (hand (s.workers.set w x')[c]? ++ queued chs c ++ lost).map (c, ·) := by
  have hlt := (List.getElem?_eq_some_iff.mp hx).1
  have hproc : processed (s.history ++ done.map (.processed w)) =
      processed s.history ++ done.map (w, ·) := by
    rw [processed_append]
    simp [processed, filterMap_map]
  rw [enqueued_done, hproc, onTag_append, h]
  by_cases hc : c = w
  · subst hc
    have htag : onTag c (done.map (c, ·)) = done.map (c, ·) := by simp [onTag]
    rw [htag, hx, hflow, List.getElem?_set_self hlt]
    simp only [map_append, append_assoc]
  · have htag : onTag c (done.map (w, ·)) = [] := by simp [onTag, Ne.symm hc]
    rw [htag, hother c hc, List.getElem?_set_ne (Ne.symm hc), append_nil]

theorem taken_flow {w : Nat} {t : Ticket Item} {rest : List (Ticket Item)}
    (hch : s.channels[w]? = some ch) (hitems : ch.items = t :: rest) :
    hand (some (Worker.waiting : Worker Item)) ++ queued s.channels w =
      [] ++ (hand (some (.taken t)) ++
        queued (s.channels.set w { ch with items := rest }) w) := by
  rw [queued_set hch, queued_of_some hch, hitems]
  simp [hand]

/-- **A worker moves on.** `done` is what it hands to `processItem` in this step; what it holds and
what its channel holds stay in order, the other channels are not touched. -/
theorem Inv.worker (h : Inv setup s) (m : Nat) (x' : Worker Item) (done : List (Ticket Item))
    {w : Nat} {x : Worker Item} (hx : s.workers[w]? = some x) (hne : x ≠ .exited)
    (hlen : chs.length = s.channels.length)
    (hflow : hand (some x) ++ queued s.channels w = done ++ (hand (some x') ++ queued chs w))
    (hother : ∀ c, c ≠ w → queued chs c = queued s.channels c)
    (hexit : x' = .exited → queued chs w = []) :
    Inv setup { s.setWorker w x' with
      channels := chs, queuedItems := m, history := s.history ++ done.map (.processed w) } := by
  have hlt := (List.getElem?_eq_some_iff.mp hx).1
  have hncl : ¬ cleared s := fun hc => hne ((h.gone hc).2.1 x (mem_of_getElem? hx))
  have henq := enqueued_done s.history w done
  refine
    { noFault := h.noFault, noForce := h.noForce, running := h.running, workers := ?_,
      channels := ?_, gone := ?_, pushes := h.pushes, flow := ?_, exited := ?_, routed := ?_,
      tickets := ?_, names := ?_, finished := ?_ }
  · exact (length_set ..).trans h.workers
  · intro _
    exact hlen.trans (h.channels hncl)
  · intro hc
    exact absurd hc hncl
  · intro c
    have hold := h.flow c
    rw [← append_nil (_ ++ queued s.channels c)] at hold
    have hmoved := flow_worker hx hold hflow hother
    rw [append_nil] at hmoved
    exact hmoved
  · intro v hv
    simp only [State.setWorker] at hv
    by_cases hvw : v = w
    · subst hvw
      rw [List.getElem?_set_self hlt, Option.some.injEq] at hv
      exact hexit hv
    · rw [List.getElem?_set_ne (Ne.symm hvw)] at hv
      exact (hother v hvw).trans (h.exited v hv)
  · intro y hy hkey
    exact h.routed y (henq ▸ hy) hkey
  · intro t
    show t ∈ (enqueued (s.history ++ _)).map (·.2) ↔ _
    rw [henq]
    exact h.tickets t
  · show ((enqueued (s.history ++ _)).map (·.2.name)).Nodup
    rw [henq]
    exact h.names
  · intro hr
    exact absurd (Or.inr hr) hncl

variable {s' : State Batch Item}

theorem Inv.workerNext (h : Inv setup s) {w : Nat} {x : Worker Item} (hx : s.workers[w]? = some x)
    (hs : workerNext setup.cfg s w x = some s') : Inv setup s' := by
  cases x with
  | exited => simp [Writer.workerNext] at hs
  | taken t =>
    simp only [Writer.workerNext, Option.some.injEq] at hs
    subst hs
    simpa [State.setWorker] using h.worker ((s.queuedItems + (sizeRange - 1)) % sizeRange)
      (.processing t) [] hx (by simp) rfl rfl (fun _ _ => rfl) (by simp)
  | processing t =>
    simp only [Writer.workerNext, Option.some.injEq] at hs
    subst hs
    simpa [State.setWorker] using h.worker s.queuedItems .waiting [t]
      hx (by simp) rfl rfl (fun _ _ => rfl) (by simp)
  | waiting =>
    simp only [Writer.workerNext, h.noForce, Bool.false_eq_true, if_false] at hs
    split at hs
    · cases hs
    · rename_i ch hch
      split at hs
      · rename_i hitems
        split at hs
        · cases hs
          simpa [State.setWorker] using h.worker s.queuedItems .exited []
            hx (by simp) rfl (by simp [hand]) (fun _ _ => rfl)
            (fun _ => (queued_of_some hch).trans hitems)
        · split at hs
          · cases hs; exact h
          · cases hs
      · rename_i t rest hitems
        cases hs
        simpa [State.setWorker] using h.worker s.queuedItems (.taken t) []
          hx (by simp) (length_set ..) (taken_flow hch hitems)
          (fun c hc => by rw [queued_set hch, if_neg hc]) (by simp)

/-! ## 6. Steps of stop() -/

theorem queued_shutdown {i : Nat} (hch : chs[i]? = some ch) (c : Nat) :
    queued (chs.set i { ch with shutdown := true }) c = queued chs c := by
  rw [queued_set hch]
  split
  · rename_i hc
    exact hc ▸ (queued_of_some hch).symm
  · rfl

theorem Inv.stopNext (h : Inv setup s) (hs : stopNext s = some s')
    (htimely : timely s (.stop : Action Batch Item) = true) : Inv setup s' := by
  unfold Writer.stopNext at hs
  split at hs
  · rename_i hst
    rw [if_pos (h.running.mpr hst)] at hs
    cases hs
    have hncl : ¬ cleared s := by rintro (hc | hc) <;> simp [hst] at hc
    exact
      { noFault := h.noFault, noForce := h.noForce, running := by simp, workers := h.workers,
        channels := fun _ => h.channels hncl
        gone := by rintro (hc | hc) <;> cases hc
        pushes := h.pushes, flow := h.flow, exited := h.exited, routed := h.routed,
        tickets := h.tickets, names := h.names, finished := fun hr => by cases hr }
  · rename_i i hst
    have hncl : ¬ cleared s := by rintro (hc | hc) <;> simp [hst] at hc
    have hrun : ¬ s.running = true := fun hr => by simp [h.running.mp hr] at hst
    split at hs
    · rename_i ch hch
      cases hs
      exact
        { noFault := h.noFault, noForce := h.noForce
          running := ⟨fun hr => absurd hr hrun, fun hr => by cases hr⟩
          workers := h.workers
          channels := fun _ => (length_set ..).trans (h.channels hncl)
          gone := by rintro (hc | hc) <;> cases hc
          pushes := h.pushes
          flow := fun c => (h.flow c).trans (by rw [queued_shutdown hch])
          exited := fun w hw => (queued_shutdown hch w).trans (h.exited w hw)
          routed := h.routed, tickets := h.tickets, names := h.names
          finished := fun hr => by cases hr }
    · rename_i hnone
      split at hs
      · rename_i hall
        cases hs
        have hexit : ∀ x ∈ s.workers, x = .exited := by
          intro x hx
          have := all_eq_true.mp hall x hx
          cases x <;> simp_all
        have hland : ∀ q ∈ s.pushes, inFlight q = false := by
          have hclear : clearing s = true := by
            simpa [clearing, hst] using List.getElem?_eq_none_iff.mp hnone
          simpa [timely, hclear] using htimely
        exact
          { noFault := h.noFault, noForce := h.noForce
            running := ⟨fun hr => absurd hr hrun, fun hr => by cases hr⟩
            workers := h.workers
            channels := fun hc => absurd (Or.inl rfl) hc
            gone := fun _ => ⟨rfl, hexit, hland⟩
            pushes := h.pushes
            flow := by
              intro c
              rw [h.flow c]
              -- every channel is empty before it is destroyed: its worker has exited
              cases hw : s.workers[c]? with
              | none =>
                have hlen := List.getElem?_eq_none_iff.mp hw
                have hch : s.channels[c]? = none := by
                  rw [List.getElem?_eq_none_iff, h.channels hncl, ← h.workers]
                  exact hlen
                simp [queued, hch, hand]
              | some x =>
                have hx := hexit x (mem_of_getElem? hw)
                subst hx
                rw [h.exited c hw]
                simp [queued, hand]
            exited := fun w _ => by simp [queued]
            routed := h.routed, tickets := h.tickets, names := h.names
            finished := fun hr => by cases hr }
      · cases hs
  · rename_i hst
    cases hs
    have hg := h.gone (Or.inl hst)
    exact
      { noFault := h.noFault, noForce := h.noForce
        running := ⟨fun hr => by simp [h.running.mp hr] at hst, fun hr => by cases hr⟩
        workers := h.workers
        channels := fun hc => absurd (Or.inr rfl) hc
        gone := fun _ => hg
        pushes := h.pushes
        flow := fun c => by simpa using h.flow c
        exited := h.exited
        routed := by simpa using h.routed
        tickets := by simpa using h.tickets
        names := by simpa using h.names
        finished := fun _ => ⟨s.history, rfl⟩ }
  · cases hs

/-! ## 7. The other steps of push() -/

theorem route_lt (hlen : s.channels.length = setup.cfg.channelCount) :
    (route setup s item).1 < setup.cfg.channelCount := by
  have hpos := setup.cfg.channelCount_pos
  simp only [route]
  split
  · exact hlen ▸ Nat.mod_lt _ (by omega)
  · exact hlen ▸ Nat.mod_lt _ (by omega)

theorem route_key (hkey : setup.itemRoutingKey item ≠ "") :
    (route setup s item).1 = setup.hash (setup.itemRoutingKey item) % s.channels.length := by
  unfold route
  rw [if_neg hkey]

theorem Inv.pushNext (h : Inv setup s) {p : Nat} {s' : State Batch Item}
    (hq : s.pushes[p]? = some q) (hs : pushNext setup s p q = some s')
    (htimely : timely s (.push p : Action Batch Item) = true) : Inv setup s' := by
  have hmem := mem_of_getElem? hq
  have hok := h.pushes q hmem
  have hland : cleared s → inFlight q = false := fun hc => (h.gone hc).2.2 q hmem
  simp only [timely, hq] at htimely
  unfold Writer.pushNext at hs
  split at hs
  · cases hs
  · rename_i hpc
    have hmore := hok.more (Or.inl hpc)
    split at hs
    · cases hs
      exact h.setPush hq rfl (Or.inl rfl) (PushOk.ready hmore (Or.inr (Or.inl rfl))) (fun _ => rfl)
    · cases hs
  · rename_i hpc
    have hmore := hok.more (Or.inr (Or.inl hpc))
    simp only [hpc, Bool.or_eq_true, decide_eq_true_eq] at htimely
    split at hs
    · rename_i hstop
      cases hs
      have hsent : q.sent = 0 := by
        rcases htimely with hr | hz
        · simp [hr, h.noForce] at hstop
        · exact hz
      exact h.setPush hq rfl (Or.inl rfl)
        (PushOk.left hok.bound (Or.inr ⟨_, rfl, by simp [hsent]⟩)) (fun _ => rfl)
    · rename_i hgo
      cases hs
      have hrun : s.running = true := by
        cases hr : s.running with
        | true => rfl
        | false => simp [hr] at hgo
      have hncl : ¬ cleared s := by
        rintro (hc | hc) <;> simp [h.running.mp hrun] at hc
      exact h.setPush hq rfl (Or.inl rfl) (PushOk.ready hmore (Or.inr (Or.inr rfl)))
        (fun hc => absurd hc hncl)
  · rename_i hpc
    have hncl : ¬ cleared s := fun hc => by simpa [inFlight, hpc] using hland hc
    have hlen := h.channels hncl
    have hpos := setup.cfg.channelCount_pos
    have hmore := hok.more (Or.inr (Or.inr ⟨by simp [inFlight, hpc], by simp [hpc]⟩))
    split at hs
    · cases hs
    · rename_i item hitem
      rw [if_neg (by omega)] at hs
      cases hs
      refine h.setPush hq rfl (Or.inl rfl) ?_ (fun hc => absurd hc hncl)
      exact
        { fresh := fun hf => by cases hf
          bound := hok.bound
          more := fun _ => hmore
          target := by
            intro idx hidx
            cases hidx
            refine ⟨route_lt hlen, fun item' hitem' hkey => ?_⟩
            rw [hitem, Option.some.injEq] at hitem'
            subst hitem'
            rw [route_key hkey, hlen]
          appended := fun _ hf => by cases hf
          complete := fun hf => by cases hf }
  · rename_i idx hpc
    have hncl : ¬ cleared s := fun hc => by simpa [inFlight, hpc] using hland hc
    have htarget := (hok.target idx hpc).1
    have halive : s.workers[idx]? ≠ some .exited := by
      intro he
      simp [hpc, he] at htimely
    split at hs
    · rename_i ch item hch hitem
      cases hs
      exact h.append hq hpc hch hitem halive
    · rename_i hnone
      have hlen := List.getElem?_eq_none_iff.mp hnone
      rw [h.channels hncl] at hlen
      omega
    · cases hs
  · rename_i idx hpc
    have hncl : ¬ cleared s := fun hc => by simpa [inFlight, hpc] using hland hc
    rw [if_pos (by rw [h.channels hncl]; exact hok.appended idx hpc)] at hs
    cases hs
    exact h.setPush hq rfl (Or.inl rfl) (PushOk.left hok.bound (Or.inl rfl)) (fun _ => rfl)
  · cases hs
    by_cases hlt : q.sent < q.items.length
    · simp only [if_pos hlt]
      exact h.setPush hq rfl (Or.inl rfl) (PushOk.ready hlt (Or.inl rfl)) (fun _ => rfl)
    · simp only [if_neg hlt]
      have hall : q.sent = q.items.length := Nat.le_antisymm hok.bound (Nat.not_lt.mp hlt)
      exact h.setPush hq rfl (Or.inl rfl)
        (PushOk.left hok.bound (Or.inr ⟨true, rfl, fun _ => hall⟩)) (fun _ => rfl)
  · cases hs

/-- **The step lemma.** A timely step keeps the invariant. -/
theorem Inv.step (h : Inv setup s) {a : Action Batch Item} (htimely : timely s a = true)
    (hs : step setup s a = some s') : Inv setup s' := by
  cases stepMove_of_step hs with
  | entered batch =>
    refine h.enter ?_ ?_ ?_
    · cases s.running
      · exact PushOk.left (Nat.zero_le _) (Or.inr ⟨false, rfl, fun hf => by cases hf⟩)
      · exact
          { fresh := fun _ => ⟨rfl, rfl⟩, bound := Nat.zero_le _
            more := by rintro (hf | hf | ⟨hf, -⟩) <;> cases hf
            target := fun _ hf => by cases hf
            appended := fun _ hf => by cases hf
            complete := fun hf => by cases hf }
    · rfl
    · cases s.running <;> rfl
  | @refused p enrichers toItems q ok hq hpc hprep =>
    obtain ⟨hnil, hzero⟩ := (h.pushes q (mem_of_getElem? hq)).fresh hpc
    exact h.setPush hq rfl (Or.inl rfl)
      (PushOk.left (by simp [hnil, hzero]) (Or.inr ⟨ok, rfl, by simp [hnil, hzero]⟩))
      (fun _ => rfl)
  | @ready p enrichers toItems q items hq hpc hprep =>
    have hzero := ((h.pushes q (mem_of_getElem? hq)).fresh hpc).2
    have hlt : q.sent < items.length := hzero ▸ prepare_ne_nil hprep
    exact h.setPush hq rfl (Or.inr hzero) (PushOk.ready hlt (Or.inl rfl)) (fun _ => rfl)
  | @timedOut p q hq hpc =>
    have hbound := (h.pushes q (mem_of_getElem? hq)).bound
    exact h.setPush hq rfl (Or.inl rfl)
      (PushOk.left hbound (Or.inr ⟨false, rfl, fun hf => by cases hf⟩)) (fun _ => rfl)
  | pushed hq hnext => exact h.pushNext hq hnext htimely
  | worked hx hnext => exact h.workerNext hx hnext
  | stopped hnext => exact h.stopNext hnext htimely
  | forced => cases htimely

end Steps

/-! ## 8. From the invariant to the callers -/

section Drained

variable {setup : Setup Item} {s : State Batch Item}

theorem Inv.processed_perm (h : Inv setup s) (hc : cleared s) :
    (processed s.history).Perm (enqueued s.history) := by
  refine perm_of_onTag fun c => ?_
  obtain ⟨hnil, hexit, -⟩ := h.gone hc
  have hhand : hand s.workers[c]? = [] := by
    cases hw : s.workers[c]? with
    | none => rfl
    | some x => rw [hexit x (mem_of_getElem? hw)]; rfl
  rw [h.flow c, hhand, hnil]
  simp [queued]

theorem Inv.handedOnce (h : Inv setup s) (hc : cleared s) {p i : Nat} (hq : s.pushes[p]? = some q)
    (hi : i < q.sent) (hitem : q.items[i]? = some item) :
    handedOnce s.history p i item := by
  have hmem : (⟨p, i, item⟩ : Ticket Item) ∈ (enqueued s.history).map (·.2) :=
    (h.tickets ⟨p, i, item⟩).mpr ⟨q, hq, hi, hitem⟩
  obtain ⟨⟨c, t⟩, hx, ht⟩ := mem_map.mp hmem
  simp only at ht
  subst ht
  have honce := filter_name_eq (fun x : Nat × Ticket Item => x.2.name) h.names hx
  have hperm := (h.processed_perm hc).filter (fun x => decide (x.2.name = (p, i)))
  exact ⟨c, perm_singleton.mp (honce ▸ hperm)⟩

theorem Inv.ordered (h : Inv setup s) {key : String} (hkey : key ≠ "") :
    withKey setup key (processed s.history) <+: withKey setup key (enqueued s.history) := by
  have henq : ∀ x ∈ enqueued s.history, decide (setup.itemRoutingKey x.2.item = key) = true →
      x.1 = setup.hash key % setup.cfg.channelCount := by
    intro x hx hk
    rw [decide_eq_true_eq] at hk
    exact hk ▸ h.routed x hx (hk ▸ hkey)
  -- what was processed by worker `c` was enqueued on channel `c`
  have hproc : ∀ x ∈ processed s.history, decide (setup.itemRoutingKey x.2.item = key) = true →
      x.1 = setup.hash key % setup.cfg.channelCount := by
    intro x hx hk
    have htag : x ∈ onTag x.1 (processed s.history) := mem_filter.mpr ⟨hx, by simp⟩
    have hin : x ∈ onTag x.1 (enqueued s.history) := by
      rw [h.flow x.1]
      exact mem_append_left _ htag
    exact henq x (mem_filter.mp hin).1 hk
  exact filter_prefix henq hproc (h.flow _)

theorem Inv.drained (h : Inv setup s) : Drained setup s where
  handled := by
    intro hr p q hq hpc i item hitem
    have hall := (h.pushes q (mem_of_getElem? hq)).complete hpc
    have hi : i < q.sent := by rw [hall]; exact (List.getElem?_eq_some_iff.mp hitem).1
    have honce := h.handedOnce (Or.inr hr) hq hi hitem
    obtain ⟨before, hbefore⟩ := h.finished hr
    refine ⟨before, [], hbefore, ?_, honce⟩
    obtain ⟨w, hw⟩ := honce
    rw [hbefore, processed_append, processed_stopReturned, append_nil] at hw
    exact ⟨w, hw⟩
  ordered := fun _ hkey => h.ordered hkey
  noneLeft := h.exited
  noFault := h.noFault

end Drained

/-- **On timely runs `stop()` drains what `push()` accepted.** A run is timely when no push appends
to a worker that has exited, `stop()` does not clear the channels under a push, and no push is cut
off between two of its items.  Without the first an accepted item is left behind, since a worker
that found its queue empty never looks again. -/
theorem drained_of_timely (setup : Setup Item) (s : State Batch Item)
    (hrun : Runs (step setup) (fun s a => timely s a = true) (started setup.cfg) s) :
    Drained setup s :=
  (hrun.keeps (fun _ _ _ h hok hs => Inv.step h hok hs) (inv_started setup)).drained

/-! ## 9. Two runs

In the first the pushes and the workers take turns and `stop()` comes in between; in the second the
worker leaves before the push appends.

It FAILS on some runs (`drained_fails`): the push passes its last check, the worker it is about to
append to sees its shutdown flag and an empty queue, and exits. -/

/-- Two workers, items without a routing key. -/
def twoDrainers : Setup Nat where
  cfg := { workerCount := 2 }
  itemRoutingKey := fun _ => ""
  hash := String.length

/-- Two pushes, of two items and of one, while `stop()` begins; the workers drain all three. -/
def drainingActions : List (Action (List Nat) Nat) :=
  [.enter [7, 8], .enter [9], .prepare 0 [] some, .prepare 1 [] some] ++
    List.replicate 6 (.push 0) ++ List.replicate 5 (.push 1) ++ [.worker 1] ++
    List.replicate 6 (.push 0) ++ [.stop, .worker 1, .worker 1, .push 1, .stop] ++
    List.replicate 3 (.worker 0) ++ [.stop] ++ List.replicate 4 (.worker 0) ++
    [.worker 1, .stop, .stop]

theorem drained_of_timely_push :
    ∃ s, exec (step twoDrainers) (fun s a => timely s a = true) (started twoDrainers.cfg)
        drainingActions = some s ∧
      s.stopper = .returned ∧ processed s.history = [(1, ⟨1, 0, 9⟩), (0, ⟨0, 0, 7⟩), (0, ⟨0, 1, 8⟩)] ∧
      Drained twoDrainers s := by
  have hrun : (exec (step twoDrainers) (fun s a => timely s a = true) (started twoDrainers.cfg)
      drainingActions).map (fun s => (s.stopper, processed s.history)) = some (.returned, _) := rfl
  obtain ⟨s, hs, hend⟩ := Option.map_eq_some_iff.mp hrun
  obtain ⟨hstopper, hprocessed⟩ := Prod.mk.inj hend
  exact ⟨s, hs, hstopper, hprocessed, drained_of_timely twoDrainers s (Runs.of_exec _ hs)⟩

/-- Any step but `forceStop()`. -/
def unforced (_ : State Batch Item) : Action Batch Item → Bool
  | .forceStop => false
  | _ => true

/-- One worker, items without a routing key. -/
def oneWorker : Setup Nat where
  cfg := { workerCount := 1 }
  itemRoutingKey := fun _ => ""
  hash := String.length

/-- The worker sees its shutdown flag and an empty channel after the push has passed its last
running check and before it appends. -/
def losingActions : List (Action (List Nat) Nat) :=
  [.enter [7], .prepare 0 [] some, .push 0, .push 0, .stop, .stop, .worker 0, .push 0, .push 0,
    .push 0, .push 0, .stop, .stop]

/-- The state the run ends in. -/
def leftOver : State (List Nat) Nat where
  running := false
  channels := []
  nextChannel := 1
  queuedItems := 1
  pushes := [{ pc := .returned true, batch := [7], items := [7], sent := 1 }]
  workers := [.exited]
  stopper := .returned
  history := [.enqueued 0 ⟨0, 0, 7⟩, .stopReturned]

theorem losingActions_exec :
    exec (step oneWorker) (fun s a => unforced s a = true) (started oneWorker.cfg) losingActions =
      some leftOver := by
  rfl

/-- **An accepted item is lost.** `push()` returns true, `stop()` returns, and the item was never
handed to `processItem`. -/
theorem drained_fails :
    ¬ ∀ (setup : Setup Nat) (s : State (List Nat) Nat),
      Runs (step setup) (fun s a => unforced s a = true) (started setup.cfg) s →
        Drained setup s := by
  intro hall
  have hdrained := hall oneWorker _ (Runs.of_exec losingActions losingActions_exec)
  obtain ⟨before, after, -, -, w, hw⟩ := hdrained.handled rfl 0 _ rfl rfl 0 7 rfl
  have hnone : processed leftOver.history = [] := rfl
  rw [hnone] at hw
  cases hw

end MldpDriver.Writer
