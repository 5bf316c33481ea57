/-
# Routing while start() runs

Readers push as soon as they are created.  `RoutedOk` asks that this makes no difference: each batch
a reader pushes is offered to the processors the CONFIGURED routes admit, and each accepted batch is
dispatched to the writers they admit, never by the default all-to-all table and never after the
writers are gone.
-/
import MldpDriver.Controller.BusQueue

namespace MldpDriver.Controller

open Lib.Run List

/-! ## 1. What the configuration says -/

/-- The configured routes and the target itself let it have a batch. -/
def configAdmits (setup : Setup) (t : Target) (b : EventBatch) : Bool :=
  routesAdmit setup.fnmatch setup.routes t.name b.readerName b.rootSource &&
    t.acceptsPayload b.payload

/-- The first `n` targets that should have a batch, by position. -/
def expectedUpTo (setup : Setup) (targets : List Target) (b : EventBatch) (n : Nat) : List Nat :=
  (List.range n).filter fun i => targets[i]?.any (configAdmits setup · b)

/-- The targets that should have a batch. -/
def expected (setup : Setup) (targets : List Target) (b : EventBatch) : List Nat :=
  expectedUpTo setup targets b targets.length

/-- The processors that were given the batch of a push. -/
def givenTo (p : Nat) (h : List Event) : List Nat :=
  h.filterMap fun
    | .asked p' i _ true => if p' = p then some i else none
    | _ => none

/-- A push that has asked about every processor. -/
def PushAt.fanoutDone : PushAt → Bool
  | .fanout _ => false
  | _ => true

/-- **Routing as configured.** What counts is the configuration, not the table of the moment: a
batch that meets no table yet, or no writers any more, is not routed as configured. -/
structure RoutedOk (setup : Setup) (s : State) : Prop where
  offered : ∀ (p : Nat) (q : Push), s.pushes[p]? = some q → q.origin.isSome = true →
    q.passed = true → q.pc.fanoutDone = true →
      givenTo p s.history = expected setup setup.processors q.batch
  noDefault : ∀ (p i : Nat) (byDefault given : Bool), .asked p i byDefault given ∈ s.history →
    ∀ (q : Push), s.pushes[p]? = some q → q.origin.isSome = true →
      byDefault = setup.routes.isEmpty
  dispatched : ∀ t writers late, Event.dispatched t writers late ∈ s.history →
    writers = expected setup setup.writers t.batch ∧ late = false
  waiting : accepted s.history =
    Controller.dispatched s.history ++ (s.consumer.batches ++ s.queue)
  finished : s.stopper = .stopped ∨ (∃ message, s.starter = .failed message) →
    Controller.dispatched s.history = accepted s.history

/-! ## 2. The condition -/

/-- The route table has been built. -/
def StartAt.built : StartAt → Bool
  | .tableBuilt | .returned => true
  | _ => false

/-- The route table that `start()` would build now. -/
def buildNow (setup : Setup) (s : State) : Except String RouteTable :=
  RouteTable.build setup.routes
    (s.readers.filterMap (setup.readers[·]?) ++ s.processors.map Target.name)
    ((s.writers ++ s.processors).map Target.name)

/-- A step that does not depend on how far `start()` has come: a reader's push asks about a
processor when the table is built (or there are no routes), the table can be built unless the bus
has been stopped with nothing in it, and `stop()` joins the consumer or finds an empty queue. -/
def settled (setup : Setup) (s : State) : Action → Bool
  | .push p =>
    match s.pushes[p]? with
    | none => true
    | some q =>
      match q.pc with
      | .fanout i => q.origin.isNone || decide (s.processors.length ≤ i) || s.starter.built ||
          setup.routes.isEmpty
      | _ => true
  | .start =>
    !(s.starter matches .creating) || decide (s.created < setup.readers.length) ||
      (buildNow setup s matches .ok _) || (!s.running && s.queue.isEmpty)
  | .stop => soundJoin s .stop
  | _ => true

/-! ## 3. The invariant -/

/-- `stop()` has joined the readers' threads. -/
def StopAt.landed : StopAt → Bool
  | .idle | .stopping | .clearingReaders => false
  | _ => true

/-- How far a reader's push has come, and what its processors were given. -/
def progress (setup : Setup) (h : List Event) (p : Nat) (q : Push) : Prop :=
  match q.pc with
  | .fanout i => i ≤ setup.processors.length ∧
      givenTo p h = expectedUpTo setup setup.processors q.batch i
  | _ => q.passed = true → givenTo p h = expected setup setup.processors q.batch

/-- The invariant of settled runs. -/
structure StartInv (setup : Setup) (s : State) : Prop where
  bus : BusInv setup s
  early : s.starter.built = false → s.table = {}
  processors : s.stopper.landed = false → s.processors = setup.processors
  landed : s.stopper.landed = true → ∀ q ∈ s.pushes, q.readerBusy = false
  names : ∀ q ∈ s.pushes, q.origin.isSome = true → q.batch.readerName ∈ setup.readers
  progress : ∀ (p : Nat) (q : Push), s.pushes[p]? = some q → q.origin.isSome = true →
    progress setup s.history p q
  asked : ∀ (p i : Nat) (byDefault given : Bool), .asked p i byDefault given ∈ s.history →
    p < s.pushes.length ∧ ∀ (q : Push), s.pushes[p]? = some q → q.origin.isSome = true →
      byDefault = setup.routes.isEmpty
  failed : (∃ message, s.starter = .failed message) → s.running = false ∧ s.queue = []

theorem startInv_starting (setup : Setup) : StartInv setup (starting setup) where
  bus := busInv_starting setup
  early := fun _ => rfl
  processors := fun _ => rfl
  landed := by simp [starting]
  names := by simp [starting]
  progress := by simp [starting]
  asked := by simp [starting]
  failed := by simp [starting]

/-! ## 4. What the processors are given -/

theorem givenTo_append (p : Nat) (h h' : List Event) :
    givenTo p (h ++ h') = givenTo p h ++ givenTo p h' := filterMap_append

theorem givenTo_asked (p p' i : Nat) (d g : Bool) :
    givenTo p [.asked p' i d g] = if p' = p ∧ g = true then [i] else [] := by
  cases g <;> by_cases h : p' = p <;> simp [givenTo, h]

theorem givenTo_other {p : Nat} {es : List Event}
    (h : ∀ p' i d g, .asked p' i d g ∈ es → p' ≠ p) : givenTo p es = [] := by
  rw [givenTo, filterMap_eq_nil_iff]
  rintro (⟨p', i, d, g⟩ | _ | _) he
  · cases g
    · rfl
    · simp [h p' i d true he]
  · rfl
  · rfl

theorem expectedUpTo_succ (setup : Setup) (targets : List Target) (b : EventBatch) (n : Nat) :
    expectedUpTo setup targets b (n + 1) = expectedUpTo setup targets b n ++
      if targets[n]?.any (configAdmits setup · b) then [n] else [] := by
  rw [expectedUpTo, range_succ, filter_append]
  congr 1
  rw [filter_singleton]
  cases Option.any (configAdmits setup · b) targets[n]? <;> rfl

theorem takes_ofRoutes_target {setup : Setup} (hcov : FirstCovers setup.fnmatch setup.routes)
    (t : Target) (b : EventBatch) :
    takes setup (RouteTable.ofRoutes setup.routes) t b = configAdmits setup t b := by
  rw [takes, configAdmits, takes_ofRoutes hcov]

theorem configuredWriters_eq {setup : Setup} (hcov : FirstCovers setup.fnmatch setup.routes)
    (b : EventBatch) : configuredWriters setup b = expected setup setup.writers b := by
  simp only [configuredWriters, selected, expected, expectedUpTo, takes_ofRoutes_target hcov]

/-! ## 5. Steps that ask no question -/

section Steps

variable {setup : Setup} {s s' : State}

/-- A push before and after a step that does not ask about a processor. -/
structure SamePush (q q' : Push) : Prop where
  batch : q'.batch = q.batch
  origin : q'.origin = q.origin
  passed : q'.passed = q.passed
  pc : q'.pc = q.pc ∨ q.pc.fanoutDone = true ∧ q'.pc.fanoutDone = true
  busy : q'.readerBusy = true → q.readerBusy = true

theorem SamePush.refl (q : Push) : SamePush q q := ⟨rfl, rfl, rfl, Or.inl rfl, id⟩

variable {q : Push}

theorem SamePush.moved {pc : PushAt} (hpc : q.pc.fanoutDone = true) (hpc' : pc.fanoutDone = true)
    (hbusy : ∀ ok, q.pc ≠ .returned ok) :
    SamePush q { q with pc := pc } := by
  refine ⟨rfl, rfl, rfl, Or.inr ⟨hpc, hpc'⟩, fun hb => ?_⟩
  have horigin : q.origin.isSome = true := by
    cases ho : q.origin with
    | none => simp [Push.readerBusy, ho] at hb
    | some r => rfl
  cases hq : q.pc with
  | returned ok => exact absurd hq (hbusy ok)
  | _ => simp [Push.readerBusy, horigin, hq]

theorem samePush_wake (q : Push) : SamePush q (wakePush q) := by
  unfold wakePush
  split
  · rename_i hpc
    exact SamePush.moved (by rw [hpc]; rfl) rfl (by simp [hpc])
  · exact SamePush.refl q

theorem progress_of_same {h es : List Event} {p : Nat} {q q' : Push} (hsame : SamePush q q')
    (hes : givenTo p es = []) (hp : progress setup h p q) : progress setup (h ++ es) p q' := by
  have hgiven : givenTo p (h ++ es) = givenTo p h := by
    rw [givenTo_append, hes, append_nil]
  rcases hsame.pc with hpc | ⟨hpc, hpc'⟩
  · simpa only [progress, hpc, hgiven, hsame.batch, hsame.passed] using hp
  · have hq : q.passed = true → givenTo p h = expected setup setup.processors q.batch := by
      cases hc : q.pc <;> simp_all [progress, PushAt.fanoutDone]
    cases hc' : q'.pc <;>
      first
        | (simp [hc', PushAt.fanoutDone] at hpc'; done)
        | simpa only [progress, hc', hgiven, hsame.batch, hsame.passed] using hq

/-- Steps of push() behind its questions, and of the consumer. -/
theorem StartInv.keep (h : StartInv setup s) (hbus : BusInv setup s') {es : List Event}
    (hhist : s'.history = s.history ++ es) (hes : ∀ p i d g, .asked p i d g ∉ es)
    (hlen : s'.pushes.length = s.pushes.length)
    (hpush : ∀ (p : Nat) (q' : Push), s'.pushes[p]? = some q' →
      ∃ q, s.pushes[p]? = some q ∧ SamePush q q')
    (hstarter : s'.starter = s.starter) (htable : s'.table = s.table)
    (hproc : s'.processors = s.processors) (hstopper : s'.stopper = s.stopper)
    (hrunning : s'.running = s.running)
    (hqueue : s.running = false → s.queue = [] → s'.queue = []) : StartInv setup s' where
  bus := hbus
  early := by rw [hstarter, htable]; exact h.early
  processors := by rw [hstopper, hproc]; exact h.processors
  landed := by
    rw [hstopper]
    intro hl q' hq'
    obtain ⟨p, hp⟩ := List.getElem?_of_mem hq'
    obtain ⟨q, hq, hsame⟩ := hpush p q' hp
    have hnot := h.landed hl q (mem_of_getElem? hq)
    rw [Bool.eq_false_iff] at hnot ⊢
    exact fun hb => hnot (hsame.busy hb)
  names := by
    intro q' hq' ho
    obtain ⟨p, hp⟩ := List.getElem?_of_mem hq'
    obtain ⟨q, hq, hsame⟩ := hpush p q' hp
    rw [hsame.batch]
    exact h.names q (mem_of_getElem? hq) (hsame.origin ▸ ho)
  progress := by
    intro p q' hq' ho
    obtain ⟨q, hq, hsame⟩ := hpush p q' hq'
    rw [hhist]
    exact progress_of_same hsame (givenTo_other fun p' i d g he => absurd he (hes p' i d g))
      (h.progress p q hq (hsame.origin ▸ ho))
  asked := by
    intro p i d g he
    rw [hhist, mem_append] at he
    obtain ⟨hlt, hall⟩ := h.asked p i d g (he.resolve_right (hes p i d g))
    refine ⟨hlen ▸ hlt, fun q' hq' ho => ?_⟩
    obtain ⟨q, hq, hsame⟩ := hpush p q' hq'
    exact hall q hq (hsame.origin ▸ ho)
  failed := by
    rw [hstarter, hrunning]
    intro hf
    obtain ⟨hr, hq⟩ := h.failed hf
    exact ⟨hr, hqueue hr hq⟩

theorem same_setPush {p : Nat} {pc : PushAt} (hq : s.pushes[p]? = some q)
    (hpc : q.pc.fanoutDone = true) (hpc' : pc.fanoutDone = true) (hbusy : ∀ ok, q.pc ≠ .returned
    ok) :
    ∀ (p' : Nat) (q' : Push), (s.setPush p pc).pushes[p']? = some q' →
      ∃ x, s.pushes[p']? = some x ∧ SamePush x q' := by
  intro p' q' hq'
  rw [getElem?_setPush] at hq'
  obtain ⟨x, hx, rfl⟩ := Option.map_eq_some_iff.mp hq'
  refine ⟨x, hx, ?_⟩
  split
  · rename_i hp
    subst hp
    rw [hq, Option.some.injEq] at hx
    exact hx ▸ SamePush.moved hpc hpc' hbusy
  · exact SamePush.refl x

/-! ## 6. A push asks about its processors -/

theorem StartInv.processors_of_busy (h : StartInv setup s) (hq : q ∈ s.pushes)
    (hbusy : q.readerBusy = true) : s.processors = setup.processors := by
  refine h.processors ?_
  rw [Bool.eq_false_iff]
  intro hl
  rw [h.landed hl q hq] at hbusy
  cases hbusy

theorem StartInv.table_eq (h : StartInv setup s)
    (hok : s.starter.built = true ∨ setup.routes.isEmpty = true) :
    s.table = RouteTable.ofRoutes setup.routes := by
  cases hb : s.starter.built with
  | true =>
    refine h.bus.table ?_
    cases hs : s.starter <;> simp_all [StartAt.built]
  | false =>
    have hempty := hok.resolve_left (by simp [hb])
    rw [h.early hb, List.isEmpty_iff.mp hempty]
    rfl

/-- A push moves on with its questions; `es` is the one that it asks, if any. -/
theorem StartInv.asking (h : StartInv setup s) {p i : Nat} {pc : PushAt} {es : List Event}
    (hq : s.pushes[p]? = some q) (hpc : q.pc = .fanout i)
    (hbus : BusInv setup { s.setPush p pc with history := s.history ++ es })
    (hother : ∀ p', p' ≠ p → givenTo p' es = [])
    (hself : q.origin.isSome = true → s.processors = setup.processors →
      Controller.progress setup (s.history ++ es) p { q with pc := pc })
    (hasked : ∀ p' i' d g, .asked p' i' d g ∈ es →
      p' = p ∧ (q.origin.isSome = true → d = setup.routes.isEmpty)) :
    StartInv setup { s.setPush p pc with history := s.history ++ es } where
  bus := hbus
  early := h.early
  processors := h.processors
  landed := fun hl => mem_setPush hq
    (fun p' q' _ hq' => h.landed hl q' (mem_of_getElem? hq')) (by
      have := h.landed hl q (mem_of_getElem? hq)
      simp only [Push.readerBusy, hpc, Bool.and_eq_false_imp] at this ⊢
      exact fun ho => absurd (this ho) Bool.noConfusion)
  names := mem_setPush hq (fun p' q' _ hq' => h.names q' (mem_of_getElem? hq'))
    (h.names q (mem_of_getElem? hq))
  progress := by
    refine forall_setPush hq (fun p' q' hne hq' ho => ?_) (fun ho => hself ho ?_)
    · exact progress_of_same (SamePush.refl q') (hother p' hne) (h.progress p' q' hq' ho)
    · have ho' : q.origin.isSome = true := ho
      exact h.processors_of_busy (mem_of_getElem? hq) (by simp [Push.readerBusy, ho', hpc])
  asked := by
    intro p' i' d g he
    rcases mem_append.mp he with he | he
    · obtain ⟨hlt', hall⟩ := h.asked p' i' d g he
      refine ⟨by simpa using hlt', fun q' hq' ho => ?_⟩
      rw [getElem?_setPush] at hq'
      obtain ⟨x, hx, rfl⟩ := Option.map_eq_some_iff.mp hq'
      refine hall x hx ?_
      split at ho <;> exact ho
    · obtain ⟨rfl, hd⟩ := hasked p' i' d g he
      refine ⟨by simpa using (List.getElem?_eq_some_iff.mp hq).1, fun q' hq' ho => hd ?_⟩
      rw [getElem?_setPush, hq] at hq'
      simp only [Option.map_some, if_true, Option.some.injEq] at hq'
      subst hq'
      exact ho
  failed := h.failed

theorem StartInv.ask (h : StartInv setup s) (hcov : FirstCovers setup.fnmatch setup.routes)
    {p i : Nat} {t : Target} (hq : s.pushes[p]? = some q) (hpc : q.pc = .fanout i)
    (ht : s.processors[i]? = some t) (hok : settled setup s (.push p) = true)
    (hbus : BusInv setup { s.setPush p (.fanout (i + 1)) with
      history := s.history ++ [.asked p i s.table.allToAll (takes setup s.table t q.batch)] }) :
    StartInv setup { s.setPush p (.fanout (i + 1)) with
      history := s.history ++ [.asked p i s.table.allToAll (takes setup s.table t q.batch)] } := by
  have hlt : i < s.processors.length := (List.getElem?_eq_some_iff.mp ht).1
  have htable : q.origin.isSome = true → s.table = RouteTable.ofRoutes setup.routes := by
    intro ho
    refine h.table_eq ?_
    have hnone : q.origin.isNone = false := by
      cases hq' : q.origin <;> simp_all
    simpa [settled, hq, hpc, hnone, Nat.not_le.mpr hlt] using hok
  refine h.asking hq hpc hbus (fun p' hne => ?_) (fun ho hproc => ?_) fun p' i' d g he => ?_
  · rw [givenTo_asked, if_neg (fun hh => hne hh.1.symm)]
  · have hpr := h.progress p q hq ho
    simp only [Controller.progress, hpc] at hpr
    refine ⟨hproc ▸ hlt, ?_⟩
    rw [givenTo_append, hpr.2, expectedUpTo_succ, givenTo_asked, ← hproc, ht, htable ho,
      takes_ofRoutes_target hcov]
    simp
  · rw [mem_singleton, Event.asked.injEq] at he
    obtain ⟨rfl, rfl, rfl, rfl⟩ := he
    refine ⟨rfl, fun ho => ?_⟩
    rw [htable ho]
    rfl

/-! ## 7. The other steps -/

theorem StartInv.pushNext (h : StartInv setup s) (hcov : FirstCovers setup.fnmatch setup.routes)
    {p : Nat} (hq : s.pushes[p]? = some q) (hok : settled setup s (.push p) = true)
    (hs : pushNext setup s p q = some s') : StartInv setup s' := by
  have hbus := h.bus.pushNext hq hs
  have hpr := h.progress p q hq
  unfold Controller.pushNext at hs
  split at hs
  · rename_i i hpc
    split at hs
    · -- all processors were asked
      rename_i hnone
      cases hs
      have hi := List.getElem?_eq_none_iff.mp hnone
      have hsame : s.setPush p .ready = { s.setPush p .ready with history := s.history ++ [] } := by
        rw [append_nil]
        rfl
      rw [hsame] at hbus ⊢
      refine h.asking hq hpc hbus (fun _ _ => rfl) (fun ho hproc _ => ?_)
        fun _ _ _ _ he => absurd he not_mem_nil
      have hpr' := hpr ho
      simp only [Controller.progress, hpc] at hpr'
      have hall : i = setup.processors.length := by
        rw [hproc] at hi
        exact Nat.le_antisymm hpr'.1 hi
      rw [append_nil, expected, ← hall]
      exact hpr'.2
    · rename_i t ht
      cases hs
      exact h.ask hcov hq hpc ht hok hbus
  · rename_i hpc
    split at hs
    · cases hs
      exact h.keep hbus (append_nil _).symm (by simp) (by simp)
        (same_setPush hq (by rw [hpc]; rfl) rfl (by simp [hpc])) rfl rfl rfl rfl rfl (fun _ => id)
    · cases hs
  · rename_i hpc
    cases hs
    have hdone : (if hasRoom setup s then PushAt.admitted else .dozing).fanoutDone = true := by
      split <;> rfl
    exact h.keep hbus (append_nil _).symm (by simp) (by simp)
      (same_setPush hq (by rw [hpc]; rfl) hdone (by simp [hpc])) rfl rfl rfl rfl rfl (fun _ => id)
  · rename_i hpc
    split at hs
    · rename_i hrun
      cases hs
      exact h.keep hbus rfl (by simp) (by simp)
        (same_setPush hq (by rw [hpc]; rfl) rfl (by simp [hpc])) rfl rfl rfl rfl rfl
        (fun hr => by rw [hrun] at hr; cases hr)
    · cases hs
      exact h.keep hbus (append_nil _).symm (by simp) (by simp)
        (same_setPush hq (by rw [hpc]; rfl) rfl (by simp [hpc])) rfl rfl rfl rfl rfl (fun _ => id)
  · rename_i hpc
    cases hs
    exact h.keep hbus (append_nil _).symm (by simp) (by simp)
      (same_setPush hq (by rw [hpc]; rfl) rfl (by simp [hpc])) rfl rfl rfl rfl rfl (fun _ => id)
  · cases hs
  · rename_i hpc
    cases hs
    exact h.keep hbus (append_nil _).symm (by simp) (by simp)
      (same_setPush hq (by rw [hpc]; rfl) rfl (by simp [hpc])) rfl rfl rfl rfl rfl (fun _ => id)
  · cases hs

theorem same_refl : ∀ (p : Nat) (q' : Push), s.pushes[p]? = some q' →
    ∃ q, s.pushes[p]? = some q ∧ SamePush q q' :=
  fun _ q' hq' => ⟨q', hq', SamePush.refl q'⟩

theorem same_wakeAll : ∀ (p : Nat) (q' : Push), (s.pushes.map wakePush)[p]? = some q' →
    ∃ q, s.pushes[p]? = some q ∧ SamePush q q' := by
  intro p q' hq'
  rw [List.getElem?_map] at hq'
  obtain ⟨q, hq, rfl⟩ := Option.map_eq_some_iff.mp hq'
  exact ⟨q, hq, samePush_wake q⟩

theorem StartInv.consumerNext (h : StartInv setup s) (hs : consumerNext setup s = some s') :
    StartInv setup s' := by
  have hbus := h.bus.consumerNext hs
  unfold Controller.consumerNext at hs
  split at hs
  · cases hs
  · split at hs
    · cases hs
      exact h.keep hbus (append_nil _).symm (by simp) rfl same_refl rfl rfl rfl rfl rfl
        (fun _ => id)
    · cases hs
  · cases hs
    exact h.keep hbus (append_nil _).symm (by simp) rfl same_refl rfl rfl rfl rfl rfl
      (fun _ => id)
  · split at hs
    · cases hs
      exact h.keep hbus (append_nil _).symm (by simp) rfl same_refl rfl rfl rfl rfl rfl
        (fun _ => id)
    · cases hs
      exact h.keep hbus (append_nil _).symm (by simp) rfl same_refl rfl rfl rfl rfl rfl
        (fun _ _ => rfl)
  · cases hs
    exact h.keep hbus (append_nil _).symm (by simp) rfl same_refl rfl rfl rfl rfl rfl
      (fun _ => id)
  · cases hs
  · cases hs
    exact h.keep hbus (append_nil _).symm (by simp) (length_map ..) same_wakeAll
      rfl rfl rfl rfl rfl (fun _ => id)
  · cases hs
    exact h.keep hbus (append_nil _).symm (by simp) rfl same_refl rfl rfl rfl rfl rfl
      (fun _ => id)
  · cases hs
    exact h.keep hbus rfl (by simp) rfl same_refl rfl rfl rfl rfl rfl (fun _ => id)
  · cases hs

/-- A new call of `push()`; a reader's bears the reader's name, which no processor has. -/
theorem StartInv.enter (h : StartInv setup s)
    (hshadow : ∀ r ∈ setup.readers, ∀ t ∈ setup.processors, t.name ≠ r) {b : EventBatch}
    {origin : Option Nat} (hname : origin.isSome = true → b.readerName ∈ setup.readers) :
    StartInv setup { s with
      pushes := s.pushes ++ [{
        batch := b, origin := origin, passed := s.running && b.wellFormed, pc := enterAt s b }] } :=
  { h with
    bus := h.bus.enter b origin _
    landed := by
      intro hl q hq
      rcases mem_append.mp hq with hq | hq
      · exact h.landed hl q hq
      · rw [mem_singleton.mp hq]
        have hrun : s.running = false := by
          rw [Bool.eq_false_iff]
          intro hr
          rcases h.bus.running.mp hr with hst | hst <;>
            simp [hst, StopAt.landed] at hl
        simp [Push.readerBusy, enterAt, hrun]
    names := by
      intro q hq ho
      rcases mem_append.mp hq with hq | hq
      · exact h.names q hq ho
      · rw [mem_singleton.mp hq] at ho ⊢
        exact hname ho
    progress := by
      intro p q hq ho
      rcases Nat.lt_or_ge p s.pushes.length with hlt | hge
      · rw [List.getElem?_append_left hlt] at hq
        exact h.progress p q hq ho
      · rw [List.getElem?_append_right hge] at hq
        have hq' := mem_singleton.mp (mem_of_getElem? hq)
        subst hq'
        cases hpass : s.running && b.wellFormed with
        | false => simp [Controller.progress, enterAt, hpass]
        | true =>
          have hrun : s.running = true := (Bool.and_eq_true _ _ ▸ hpass).1
          have hproc : s.processors = setup.processors := by
            refine h.processors ?_
            rcases h.bus.running.mp hrun with hst | hst <;> rw [hst] <;> rfl
          have hnot : s.processors.any (fun t => decide (t.name = b.readerName)) = false := by
            rw [hproc, any_eq_false]
            intro t ht
            simpa using hshadow _ (hname ho) t ht
          have hnil : givenTo p s.history = [] := by
            refine givenTo_other fun p' i d g he => ?_
            have := (h.asked p' i d g he).1
            omega
          simp [Controller.progress, enterAt, hpass, hnot, hnil, expectedUpTo]
    asked := by
      intro p i d g he
      obtain ⟨hlt, hall⟩ := h.asked p i d g he
      refine ⟨by simp only [length_append]; omega, fun q hq ho => ?_⟩
      rw [List.getElem?_append_left hlt] at hq
      exact hall q hq ho }

theorem StartInv.startNext (h : StartInv setup s) (hok : settled setup s .start = true)
    (hs : startNext setup s = some s') : StartInv setup s' := by
  have hbus := h.bus.startNext hs
  unfold Controller.startNext at hs
  split at hs
  · rename_i hst
    split at hs
    · cases hs
      exact { h with bus := hbus }
    · rename_i hcreated
      simp only at hs
      split at hs
      · cases hs
        exact { h with bus := hbus, early := fun he => (by cases he), failed := by simp }
      · rename_i message hbuild
        cases hs
        have hnone : buildNow setup s = .error message := hbuild
        have hclosed : s.running = false ∧ s.queue = [] := by
          simpa [settled, hst, hcreated, hnone] using hok
        exact
          { h with
            bus := hbus
            early := fun _ => h.early (by rw [hst]; rfl)
            failed := fun _ => hclosed }
  · rename_i hst
    cases hs
    exact { h with bus := hbus, early := fun he => (by cases he), failed := by simp }
  · cases hs
  · cases hs

theorem StartInv.stopNext (h : StartInv setup s) (hok : settled setup s .stop = true)
    (hs : stopNext s = some s') : StartInv setup s' := by
  have hbus := h.bus.stopNext hs hok
  have hproc := h.processors
  have hland := h.landed
  unfold Controller.stopNext at hs
  split at hs
  all_goals rename_i hst
  all_goals simp only [hst, StopAt.landed, Bool.true_eq_false, Bool.false_eq_true, false_implies,
    forall_const] at hproc hland
  · cases hs
    exact { h with bus := hbus, processors := fun _ => hproc, landed := fun hl => by cases hl }
  · cases hs
    exact
      { h with
        bus := hbus, processors := fun _ => hproc, landed := fun hl => by cases hl
        failed := fun hf => ⟨rfl, (h.failed hf).2⟩ }
  · split at hs
    · cases hs
    · rename_i hbusy
      cases hs
      have hnone : ∀ q ∈ s.pushes, q.readerBusy = false := by
        simpa using hbusy
      exact { h with bus := hbus, processors := fun hl => (by cases hl), landed := fun _ => hnone }
  · split at hs
    · cases hs
      exact { h with bus := hbus, processors := fun hl => (by cases hl), landed := fun _ => hland }
    · cases hs
  · cases hs
    have hwake : BusInv setup { s with pushes := s.pushes.map wakePush } :=
      h.bus.wakeAll (Or.inl rfl) (Or.inl rfl)
    have hkeep := h.keep hwake (append_nil _).symm (by simp)
      (length_map ..) same_wakeAll rfl rfl rfl rfl rfl (fun _ => id)
    exact
      { hkeep with
        bus := hbus, processors := fun hl => by cases hl
        landed := fun _ => hkeep.landed (by rw [hst]; rfl) }
  · cases hs
    exact { h with bus := hbus, processors := fun hl => (by cases hl), landed := fun _ => hland }
  · split at hs
    · cases hs
      exact { h with bus := hbus, processors := fun hl => (by cases hl), landed := fun _ => hland }
    · cases hs
  · cases hs
    exact { h with bus := hbus, processors := fun hl => (by cases hl), landed := fun _ => hland }
  · cases hs
    exact { h with bus := hbus, processors := fun hl => (by cases hl), landed := fun _ => hland }
  · cases hs

/-- **The step lemma.** A settled step keeps the invariant. -/
theorem StartInv.step (h : StartInv setup s) (hcov : FirstCovers setup.fnmatch setup.routes)
    (hshadow : ∀ r ∈ setup.readers, ∀ t ∈ setup.processors, t.name ≠ r) {a : Action}
    (hok : settled setup s a = true) (hs : Controller.step setup s a = some s') :
    StartInv setup s' := by
  cases a with
  | enter b origin =>
    simp only [Controller.step] at hs
    split at hs
    · cases hs
      exact h.enter hshadow (fun ho => by cases ho)
    · split at hs
      · rename_i r hr
        cases hs
        exact h.enter hshadow (fun _ => mem_of_getElem? hr.2)
      · cases hs
  | push p =>
    obtain ⟨q, hq, hnext⟩ := Option.bind_eq_some_iff.mp hs
    exact h.pushNext hcov hq hok hnext
  | spuriousPush p =>
    have hbus := h.bus.step rfl hs
    simp only [Controller.step] at hs
    split at hs
    · rename_i hpc
      cases hs
      obtain ⟨q, hq, hasleep⟩ : ∃ q, s.pushes[p]? = some q ∧ q.pc = .asleep := by
        cases hq : s.pushes[p]? with
        | none => simp [hq] at hpc
        | some q => exact ⟨q, rfl, by simpa [hq] using hpc⟩
      exact h.keep hbus (append_nil _).symm (by simp) (by simp)
        (same_setPush hq (by rw [hasleep]; rfl) rfl (by simp [hasleep])) rfl rfl rfl rfl rfl
        (fun _ => id)
    · cases hs
  | consumer => exact h.consumerNext hs
  | spuriousConsumer =>
    have hbus := h.bus.step rfl hs
    simp only [Controller.step] at hs
    split at hs
    · cases hs
      exact { h with bus := hbus }
    · cases hs
  | start => exact h.startNext hok hs
  | complete r =>
    have hbus := h.bus.step rfl hs
    simp only [Controller.step] at hs
    split at hs
    · cases hs
      exact { h with bus := hbus }
    · cases hs
  | stop => exact h.stopNext hok hs

/-! ## 8. From the invariant to the routing -/

/-- When `start()` has failed there never was a consumer. -/
theorem StartInv.nothing_waits (h : StartInv setup s)
    (hend : s.stopper = .stopped ∨ (∃ message, s.starter = .failed message)) :
    s.consumer.batches ++ s.queue = [] := by
  rcases hend with hst | ⟨message, hf⟩
  · exact h.bus.joined (by rw [hst]; rfl)
  · have habsent : s.consumer = .absent := by
      by_contra hne
      simp [h.bus.spawned.mp hne] at hf
    rw [habsent, (h.failed ⟨message, hf⟩).2]
    rfl

theorem StartInv.routedOk (h : StartInv setup s)
    (hcov : FirstCovers setup.fnmatch setup.routes) : RoutedOk setup s where
  offered := by
    intro p q hq ho hpass hdone
    have hpr := h.progress p q hq ho
    cases hpc : q.pc with
    | fanout i => simp [hpc, PushAt.fanoutDone] at hdone
    | _ => simp only [Controller.progress, hpc] at hpr; exact hpr hpass
  noDefault := fun p i d g he q hq ho => (h.asked p i d g he).2 q hq ho
  dispatched := by
    intro t ws late he
    obtain ⟨hws, hlate⟩ := h.bus.routed t ws late he
    exact ⟨hws.trans (configuredWriters_eq hcov t.batch), hlate⟩
  waiting := h.bus.flow
  finished := by
    intro hend
    rw [h.bus.flow, h.nothing_waits hend, append_nil]

end Steps

/-! ## 9. A reader that is too fast

It FAILS on some runs (`routedOk_fails`): the route table is built after the readers are created,
and until then the default table lets every processor have every batch. -/

/-- One reader, one writer that takes its batches, one processor that is not routed to. -/
def routedReader : Setup where
  capacity := 1
  routes := [{ writerName := "w", fromReaders := ["r"] }]
  readers := ["r"]
  processors := [{ name := "p", acceptsPayload := fun _ => true }]
  writers := [{ name := "w", acceptsPayload := fun _ => true }]
  fnmatch := fun _ _ => true
  readers_ne := cons_ne_nil _ _
  writers_ne := cons_ne_nil _ _
  routes_known := rfl

/-- The reader pushes before the table is built. -/
def fastActions : List Action := [.start, .enter (frameOf "a") (some 0), .push 0, .push 0]

/-- The reader pushes when `start()` has returned. -/
def patientActions : List Action :=
  [.start, .start, .start, .enter (frameOf "a") (some 0), .push 0, .push 0, .push 0, .push 0, .push 0]

/-- The processor was given a batch the configured routes keep from it. -/
def fastState : State where
  created := 1
  readers := [0]
  processors := routedReader.processors
  writers := routedReader.writers
  pushes := [{ batch := frameOf "a", origin := some 0, pc := .ready }]
  history := [.asked 0 0 true true]

/-- The processor was not given the batch, which waits for the consumer. -/
def patientState : State where
  table := RouteTable.ofRoutes routedReader.routes
  created := 1
  readers := [0]
  queue := [⟨0, frameOf "a"⟩]
  processors := routedReader.processors
  writers := routedReader.writers
  pushes := [{ batch := frameOf "a", origin := some 0, pc := .pushed }]
  consumer := .top
  starter := .returned
  history := [.asked 0 0 false false, .accepted ⟨0, frameOf "a"⟩]

theorem routedReader_firstCovers : FirstCovers routedReader.fnmatch routedReader.routes := by
  intro e he first hfirst readerName rootSource h
  have hmem : first = e := by
    rw [mem_singleton.mp he] at hfirst ⊢
    exact (Option.some.inj hfirst).symm
  exact hmem ▸ h

end MldpDriver.Controller
