/-
# When the last reader has completed

`start()` creates the configured readers one after the other, puts each on `readers_` and then sets
its lifecycle observer.  A reader that is done stores its flag and looks for the observer; the
controller answers with a detached thread that takes a reader of that NAME off the list and calls
`stop()` if the list is empty then.

`Lifecycle.step` is this as one transition system.  The registration, the readers and the detached
threads take their steps in any order; `readers_mutex_` makes each removal one step.

Calls of `stop()` from outside are left out, as are configurations without readers, which `start()`
refuses.
-/
import MldpDriver.Lib.Replace
import MldpDriver.Lib.Run

namespace MldpDriver.Controller.Lifecycle

open Lib.Run Lib.Replace List Option

/-! ## 1. States -/

/-- The names of the configured readers. -/
structure Config where
  names : List String
  configured : names ≠ []

/-- A `Reader`: its `completed_` flag, whether `signalCompleted()` has still to look for the
observer, whether `lifecycle_` is set. -/
structure Reader where
  completed : Bool := false
  announcing : Bool := false
  observed : Bool := false
  deriving DecidableEq

/-- Where `start()` stands with the reader created last: constructed, on the list, inside
`setLifecycleObserver()` with `lifecycle_` set. -/
inductive StartAt
  | creating
  | created
  | pushed
  | observing
  | returned
  deriving DecidableEq

/-- Where a detached thread stands: about to call `removeCompletedReader`, to look at `running_`, to
call `stop()`; inside `stop()`, about to clear `running_`, about to clear the list. -/
inductive ThreadAt
  | removing
  | checking
  | stopping
  | halting
  | clearing
  | done
  deriving DecidableEq

/-- The thread emptied the list and is on the way to `stop()`. -/
def ThreadAt.toStop (pc : ThreadAt) : Bool := pc matches .checking | .stopping

/-- The thread is inside `stop()`. -/
def ThreadAt.inStop (pc : ThreadAt) : Bool := pc matches .halting | .clearing

/-- The detached thread of a completion of `reader`. -/
structure Completion where
  reader : Nat
  pc : ThreadAt := .removing
  deriving DecidableEq

/-- The controller as far as its readers go.  `readers` holds positions in `objects`; `removed` are
the readers that completions took off the list, each with its flag at that moment; `dangling` says
that `start()` used a reader that was destroyed. -/
structure State where
  objects : List Reader := []
  starter : StartAt := .creating
  readers : List Nat := []
  threads : List Completion := []
  running : Bool := true
  stopping : Bool := false
  removed : List (Nat × Bool) := []
  dangling : Bool := false
  deriving DecidableEq

/-- The reader created last. -/
def State.last (s : State) : Nat := s.objects.length - 1

/-- The number of readers that were put on the list. -/
def State.registered (s : State) : Nat :=
  if s.starter = .created then s.objects.length - 1 else s.objects.length

/-- `start()` is inside `setLifecycleObserver()` of the last reader. -/
def State.observing (s : State) : Bool := s.starter matches .pushed | .observing

/-- The reader has completed. -/
def State.completed (s : State) (r : Nat) : Bool := s.objects[r]?.any (·.completed)

/-- The reader was not destroyed. -/
def State.alive (s : State) (r : Nat) : Bool :=
  decide (r ∈ s.readers) || decide (s.starter = .created) && decide (r = s.last)

/-! ## 2. Steps -/

/-- `onReaderCompleted`. -/
def State.notify (s : State) (r : Nat) : State :=
  if s.running then { s with threads := s.threads ++ [{ reader := r }] } else s

/-- The next step of `start()`. -/
def startNext (config : Config) (s : State) : Option State :=
  match s.starter with
  | .creating =>
    if s.objects.length < config.names.length then
      some { s with objects := s.objects ++ [{}], starter := .created }
    else some { s with starter := .returned }
  | .created => some { s with readers := s.readers ++ [s.last], starter := .pushed }
  | .pushed =>
    match s.objects[s.last]? with
    | none => none
    | some o =>
      if s.last ∈ s.readers then
        some { s with
          objects := s.objects.set s.last { o with observed := true }
          starter := .observing }
      else some { s with dangling := true }
  | .observing =>
    if s.last ∈ s.readers then
      some { (if s.completed s.last then s.notify s.last else s) with starter := .creating }
    else some { s with dangling := true }
  | .returned => none

/-- The first reader on the list with the name of `r`. -/
def firstNamed (config : Config) (readers : List Nat) (r : Nat) : Option Nat :=
  readers.find? fun x => decide (config.names[x]? = config.names[r]?)

/-- `removeCompletedReader`: the list afterwards. -/
def withoutFirst (config : Config) (readers : List Nat) (r : Nat) : List Nat :=
  readers.eraseP fun x => decide (config.names[x]? = config.names[r]?)

/-- The next step of a detached thread. -/
def threadNext (config : Config) (s : State) (i : Nat) (t : Completion) : Option State :=
  match t.pc with
  | .removing =>
    match firstNamed config s.readers t.reader with
    | none => some { s with threads := s.threads.set i { t with pc := .done } }
    | some x =>
      let rest := withoutFirst config s.readers t.reader
      some { s with
        readers := rest
        removed := s.removed ++ [(x, s.completed x)]
        threads := s.threads.set i { t with pc := if rest = [] then .checking else .done } }
  | .checking =>
    some { s with
      threads := s.threads.set i { t with pc := if s.running then .stopping else .done } }
  | .stopping =>
    -- a second call of `stop()` only waits for the first
    some { s with
      stopping := true
      threads := s.threads.set i { t with pc := if s.stopping then .done else .halting } }
  | .halting =>
    some { s with running := false, threads := s.threads.set i { t with pc := .clearing } }
  | .clearing => some { s with readers := [], threads := s.threads.set i { t with pc := .done } }
  | .done => none

/-- The next step of `start()`, a reader that is done, its look for the observer, the next step of
a detached thread. -/
inductive Action
  | start
  | complete (r : Nat)
  | announce (r : Nat)
  | thread (i : Nat)

/-- One step of the system; nothing moves after `start()` used a destroyed reader. -/
def step (config : Config) (s : State) (a : Action) : Option State :=
  if s.dangling then none
  else
    match a with
    | .start => startNext config s
    | .complete r =>
      match s.objects[r]? with
      | none => none
      | some o =>
        if s.alive r && !o.completed then
          some { s with
            objects := s.objects.set r { o with completed := true, announcing := true } }
        else none
    | .announce r =>
      match s.objects[r]? with
      | none => none
      | some o =>
        if o.announcing then
          let s' := { s with objects := s.objects.set r { o with announcing := false } }
          some (if o.observed then s'.notify r else s')
        else none
    | .thread i =>
      match s.threads[i]? with
      | none => none
      | some t => threadNext config s i t

/-! ## 3. What the controller is for -/

/-- `start()` has returned and nobody is on the way to the list. -/
def Settled (s : State) : Prop :=
  s.starter = .returned ∧ (∀ o ∈ s.objects, o.announcing = false) ∧ ∀ t ∈ s.threads, t.pc = .done

/-- All configured readers have completed. -/
def AllCompleted (config : Config) (s : State) : Prop :=
  ∀ r < config.names.length, s.completed r = true

/-- **The controller stops with the last reader**: not before all are registered and have completed,
and then it does; a completion takes a reader off the list that has completed. -/
structure StopsWithLast (config : Config) (s : State) : Prop where
  notBefore : s.stopping = true →
    s.registered = config.names.length ∧ AllCompleted config s
  afterAll : Settled s → AllCompleted config s → s.stopping = true
  completed : ∀ x ∈ s.removed, x.2 = true

/-! ## 4. The condition -/

/-- A removal that stays clear of the races: the first reader of that name is the one that
completed, `start()` is not at work on it, and if it is the last on the list, all are registered. -/
def sound (config : Config) (s : State) : Action → Bool
  | .thread i =>
    match s.threads[i]? with
    | some ⟨r, .removing⟩ =>
      match firstNamed config s.readers r with
      | none => true
      | some x =>
        decide (x = r) && !(s.observing && decide (x = s.last)) &&
          (decide (withoutFirst config s.readers r ≠ []) ||
            decide (s.registered = config.names.length))
    | _ => true
  | _ => true

/-! ## 5. The invariant

`noticed` carries the argument: a reader that is on the list and has completed has its removal on
the way.  Between a step and the removal it causes this is not yet so, hence `exempt`. -/

/-- The completion of the reader is on its way to the list. -/
def Underway (s : State) (r : Nat) : Prop :=
  (∃ o, s.objects[r]? = some o ∧ o.announcing = true) ∨ (s.observing = true ∧ r = s.last) ∨
    ⟨r, .removing⟩ ∈ s.threads

/-- The invariant of sound runs; the completion of a reader in `exempt` may be on no way at all. -/
structure Inv (config : Config) (exempt : Nat → Prop) (s : State) : Prop where
  noDangling : s.dangling = false
  created : s.objects.length ≤ config.names.length
  nonempty : s.starter ≠ .creating → s.starter ≠ .returned → 0 < s.objects.length
  returned : s.starter = .returned → s.objects.length = config.names.length
  bounded : ∀ r ∈ s.readers, r < s.registered
  nodup : s.readers.Nodup
  raw : s.observing = true → s.last ∈ s.readers
  running : s.running = false → s.stopping = true
  threads : ∀ t ∈ s.threads, s.completed t.reader = true
  announcing : ∀ o ∈ s.objects, o.announcing = true → o.completed = true
  observed : ∀ (r : Nat) (o : Reader), s.objects[r]? = some o → o.observed = false →
    (s.starter = .created ∨ s.starter = .pushed) ∧ r = s.last
  covered : s.stopping = false → ∀ r < s.registered, r ∈ s.readers ∨ s.completed r = true
  noticed : s.stopping = false → ∀ r ∈ s.readers, ¬ exempt r → s.completed r = true →
    Underway s r
  emptied : s.stopping = false → s.readers = [] →
    s.registered = 0 ∨ ∃ t ∈ s.threads, t.pc.toStop = true
  inStop : ∀ t ∈ s.threads, t.pc.inStop = true → s.stopping = true
  atStop : (s.stopping = true ∨ ∃ t ∈ s.threads, t.pc.toStop = true) →
    (s.starter = .creating ∨ s.starter = .returned) ∧
      s.objects.length = config.names.length ∧ AllCompleted config s
  removed : ∀ x ∈ s.removed, x.2 = true

variable {config : Config} {s s' : State}

theorem inv_initial (config : Config) : Inv config (fun _ => False) {} where
  noDangling := rfl
  created := Nat.zero_le _
  nonempty := fun h => absurd rfl h
  returned := by simp
  bounded := by simp
  nodup := nodup_nil
  raw := by simp [State.observing]
  running := fun h => by cases h
  threads := by simp
  announcing := by simp
  observed := by simp
  covered := by simp [State.registered]
  noticed := by simp
  emptied := fun _ _ => .inl rfl
  inStop := by simp
  atStop := by simp
  removed := by simp

variable {r : Nat}

theorem completed_set {o : Reader} (ho : s.objects[r]? = some o) (o' : Reader) (x : Nat) :
    State.completed { s with objects := s.objects.set r o' } x =
      if x = r then o'.completed else s.completed x := by
  simp only [State.completed, getElem?_replace ho]
  split <;> rfl

theorem Inv.notify (h : Inv config (fun x => x = r) s) (hc : s.completed r = true) :
    Inv config (fun _ => False) (s.notify r) := by
  unfold State.notify
  split
  · exact
      { h with
        threads := fun t ht => (mem_append.mp ht).elim (h.threads t) fun ht => by
          rw [mem_singleton.mp ht]
          exact hc
        noticed := fun hs x hx _ hxc => by
          by_cases hxr : x = r
          · subst hxr
            exact .inr (.inr (mem_append_right _ (mem_singleton.mpr rfl)))
          · exact (h.noticed hs x hx hxr hxc).imp_right (·.imp_right (mem_append_left _))
        emptied := fun hs hr => (h.emptied hs hr).imp_right fun ⟨t, ht, hpc⟩ =>
          ⟨t, mem_append_left _ ht, hpc⟩
        inStop := fun t ht hpc => (mem_append.mp ht).elim (fun ht => h.inStop t ht hpc)
          fun ht => by
            rw [mem_singleton.mp ht] at hpc
            cases hpc
        atStop := fun hs => h.atStop (hs.imp_right fun ⟨t, ht, hpc⟩ => by
          rcases mem_append.mp ht with ht | ht
          · exact ⟨t, ht, hpc⟩
          · rw [mem_singleton.mp ht] at hpc
            cases hpc) }
  · rename_i hoff
    have hstop : s.stopping = true := h.running (Bool.eq_false_iff.mpr hoff)
    exact { h with noticed := fun hs => by simp [hstop] at hs }

/-- A reader changes its flags; its completion is announced, or on the way it was on. -/
theorem Inv.setReader {e e' : Nat → Prop} (h : Inv config e s) {o o' : Reader}
    (ho : s.objects[r]? = some o) (hc : o.completed = true → o'.completed = true)
    (ha : o'.announcing = true → o'.completed = true)
    (hobserved : o'.observed = false → o.observed = false) (hexempt : ∀ x, e x → e' x)
    (hr : ¬ e' r → o'.completed = true → o'.announcing = true ∨
      o.completed = true ∧ (o.announcing = true → o'.announcing = true)) :
    Inv config e' { s with objects := s.objects.set r o' } := by
  have hmono : ∀ x, s.completed x = true →
      State.completed { s with objects := s.objects.set r o' } x = true := by
    intro x hx
    rw [completed_set ho]
    split
    · rename_i hxr
      exact hc (by simpa [State.completed, hxr, ho] using hx)
    · exact hx
  have hreg : State.registered { s with objects := s.objects.set r o' } = s.registered := by
    simp [State.registered]
  have hlast : State.last { s with objects := s.objects.set r o' } = s.last := by
    simp [State.last]
  exact
    { h with
      created := by simpa using h.created
      nonempty := by simpa using h.nonempty
      returned := by simpa using h.returned
      bounded := fun x hx => hreg ▸ h.bounded x hx
      raw := fun hs => hlast ▸ h.raw hs
      threads := fun t ht => hmono _ (h.threads t ht)
      announcing := fun x hx hxa => by
        rcases mem_replace hx with rfl | hx
        · exact ha hxa
        · exact h.announcing x hx hxa
      observed := fun x y hy hyo => by
        rw [getElem?_replace ho] at hy
        split at hy
        · rename_i hxr
          obtain rfl := some.inj hy
          exact hlast ▸ h.observed x o (hxr ▸ ho) (hobserved hyo)
        · exact hlast ▸ h.observed x y hy hyo
      covered := fun hs x hx => (h.covered hs x (hreg ▸ hx)).imp_right (hmono x)
      noticed := fun hs x hx he hxc => by
        have hself : x = r → (s.completed x = true → Underway s x) →
            Underway { s with objects := s.objects.set r o' } x := by
          rintro rfl hold
          rw [completed_set ho, if_pos rfl] at hxc
          rcases hr he hxc with hann | ⟨hoc, hkeep⟩
          · exact .inl ⟨o', (getElem?_replace ho _ x).trans (if_pos rfl), hann⟩
          · rcases hold (by simpa [State.completed, ho] using hoc) with ⟨y, hy, hya⟩ | hrest
            · rw [ho] at hy
              obtain rfl := some.inj hy
              exact .inl ⟨o', (getElem?_replace ho _ x).trans (if_pos rfl), hkeep hya⟩
            · exact .inr (hrest.imp_left fun ⟨hobs, hxl⟩ => ⟨hobs, hxl.trans hlast.symm⟩)
        have hold : s.completed x = true → Underway s x :=
          h.noticed hs x hx fun hx' => he (hexempt x hx')
        by_cases hxr : x = r
        · exact hself hxr hold
        · rw [completed_set ho, if_neg hxr] at hxc
          rcases hold hxc with ⟨y, hy, hya⟩ | ⟨hobs, hxl⟩ | hthread
          · exact .inl ⟨y, (getElem?_replace ho _ x).trans ((if_neg hxr).trans hy), hya⟩
          · exact .inr (.inl ⟨hobs, hxl.trans hlast.symm⟩)
          · exact .inr (.inr hthread)
      emptied := fun hs hr => hreg ▸ h.emptied hs hr
      atStop := fun hs => by
        obtain ⟨hstart, hlen, hall⟩ := h.atStop hs
        exact ⟨hstart, by simpa using hlen, fun x hx => hmono x (hall x hx)⟩ }

/-! ## 6. Steps -/

theorem Inv.announce (h : Inv config (fun _ => False) s) {o : Reader} (ho : s.objects[r]? = some o)
    (ha : o.announcing = true) :
    Inv config (fun _ => False)
      (if o.observed then
        State.notify { s with objects := s.objects.set r { o with announcing := false } } r
      else { s with objects := s.objects.set r { o with announcing := false } }) := by
  have hc : o.completed = true := h.announcing o (mem_of_getElem? ho) ha
  have hset : Inv config (fun x => x = r)
      { s with objects := s.objects.set r { o with announcing := false } } :=
    h.setReader ho id (fun hf => by cases hf) id (fun _ hf => hf.elim) fun hr => absurd rfl hr
  split
  · refine hset.notify ?_
    rw [completed_set ho, if_pos rfl]
    exact hc
  · rename_i hobserved
    -- the observer is set next, and the flag is looked at after it
    obtain ⟨hstart, hlast⟩ := h.observed r o ho (Bool.eq_false_iff.mpr hobserved)
    refine { hset with noticed := fun hs x hx _ hxc => ?_ }
    by_cases hxr : x = r
    · subst hxr
      refine .inr (.inl ⟨?_, ?_⟩)
      · rcases hstart with hstart | hstart
        · have hlt := h.bounded x hx
          rw [State.registered, if_pos hstart] at hlt
          rw [hlast, State.last] at hlt
          exact absurd hlt (Nat.lt_irrefl _)
        · simp [State.observing, hstart]
      · simpa [State.last] using hlast
    · exact hset.noticed hs x hx hxr hxc

theorem completed_create (x : Nat) (starter : StartAt) :
    State.completed { s with objects := s.objects ++ [{}], starter := starter } x =
      s.completed x := by
  simp only [State.completed]
  rcases Nat.lt_trichotomy x s.objects.length with hx | hx | hx
  · rw [List.getElem?_append_left hx]
  · subst hx
    simp
  · rw [List.getElem?_eq_none (by simp; omega), List.getElem?_eq_none (Nat.le_of_lt hx)]

theorem Inv.create (h : Inv config (fun _ => False) s) (hat : s.starter = .creating)
    (hlt : s.objects.length < config.names.length) :
    Inv config (fun _ => False)
      { s with objects := s.objects ++ [{}], starter := .created } := by
  have hreg : State.registered { s with objects := s.objects ++ [{}], starter := .created } =
      s.registered := by simp [State.registered, hat]
  have hnotObserving : s.observing = false := by simp [State.observing, hat]
  have hstop : ¬ (s.stopping = true ∨ ∃ t ∈ s.threads, t.pc.toStop = true) := fun hs =>
    Nat.ne_of_lt hlt (h.atStop hs).2.1
  exact
    { h with
      created := by
        rw [length_append]
        exact hlt
      nonempty := fun _ _ => by simp
      returned := fun hs => by cases hs
      bounded := fun x hx => hreg ▸ h.bounded x hx
      raw := fun hs => by cases hs
      threads := fun t ht => (completed_create t.reader _).trans (h.threads t ht)
      announcing := fun o ho ha => by
        rcases mem_append.mp ho with ho | ho
        · exact h.announcing o ho ha
        · rw [mem_singleton.mp ho] at ha
          cases ha
      observed := fun x o ho hobs => by
        by_cases hx : x < s.objects.length
        · rw [List.getElem?_append_left hx] at ho
          rcases (h.observed x o ho hobs).1 with hs | hs <;> rw [hat] at hs <;> cases hs
        · have := (List.getElem?_eq_some_iff.mp ho).1
          simp only [length_append, length_singleton] at this
          exact ⟨.inl rfl, by simp [State.last]; omega⟩
      covered := fun hs x hx => (h.covered hs x (hreg ▸ hx)).imp_right
        (completed_create x _).trans
      noticed := fun hs x hx he hc => by
        rcases h.noticed hs x hx he ((completed_create x _).symm.trans hc) with
          ⟨o, ho, ha⟩ | ⟨hobs, -⟩ | hthread
        · refine .inl ⟨o, ?_, ha⟩
          rw [List.getElem?_append_left (List.getElem?_eq_some_iff.mp ho).1]
          exact ho
        · rw [hnotObserving] at hobs
          cases hobs
        · exact .inr (.inr hthread)
      emptied := fun hs hr => hreg ▸ h.emptied hs hr
      atStop := fun hs => absurd hs hstop }

theorem Inv.register (h : Inv config (fun _ => False) s) (hat : s.starter = .created) :
    Inv config (fun _ => False)
      { s with readers := s.readers ++ [s.last], starter := .pushed } := by
  have hpos : 0 < s.objects.length := h.nonempty (by simp [hat]) (by simp [hat])
  have hreg : s.registered = s.last := by simp [State.registered, State.last, hat]
  have hreg' : State.registered { s with readers := s.readers ++ [s.last], starter := .pushed } =
      s.last + 1 := by simp [State.registered, State.last]; omega
  have hstop : ¬ (s.stopping = true ∨ ∃ t ∈ s.threads, t.pc.toStop = true) := fun hs => by
    rcases (h.atStop hs).1 with hs | hs <;> rw [hat] at hs <;> cases hs
  exact
    { h with
      nonempty := fun _ _ => hpos
      returned := fun hs => by cases hs
      bounded := fun x hx => by
        rw [hreg']
        rcases mem_append.mp hx with hx | hx
        · exact Nat.lt_succ_of_lt (hreg ▸ h.bounded x hx)
        · rw [mem_singleton.mp hx]
          exact Nat.lt_succ_self _
      nodup := h.nodup.append (nodup_singleton _) fun x hx hx' => by
        rw [mem_singleton.mp hx'] at hx
        exact absurd (hreg ▸ h.bounded _ hx) (Nat.lt_irrefl _)
      raw := fun _ => mem_append_right _ (mem_singleton.mpr rfl)
      observed := fun x o ho hobs => ⟨.inr rfl, (h.observed x o ho hobs).2⟩
      covered := fun hs x hx => by
        rw [hreg'] at hx
        rcases Nat.lt_succ_iff_lt_or_eq.mp hx with hx | rfl
        · exact (h.covered hs x (hreg ▸ hx)).imp_left (mem_append_left _)
        · exact .inl (mem_append_right _ (mem_singleton.mpr rfl))
      noticed := fun hs x hx he hc => by
        rcases mem_append.mp hx with hx | hx
        · rcases h.noticed hs x hx he hc with hann | ⟨hobs, -⟩ | hthread
          · exact .inl hann
          · simp [State.observing, hat] at hobs
          · exact .inr (.inr hthread)
        · exact .inr (.inl ⟨rfl, mem_singleton.mp hx⟩)
      emptied := fun _ hr => absurd hr (by simp)
      atStop := fun hs => absurd hs hstop }

theorem Inv.observe (h : Inv config (fun _ => False) s) (hat : s.starter = .pushed) {o : Reader}
    (ho : s.objects[s.last]? = some o) :
    Inv config (fun _ => False)
      { s with
        objects := s.objects.set s.last { o with observed := true }
        starter := .observing } := by
  have hset : Inv config (fun _ => False)
      { s with objects := s.objects.set s.last { o with observed := true } } :=
    h.setReader ho id (h.announcing o (mem_of_getElem? ho)) (fun hf => by cases hf)
      (fun _ => id) fun _ hc => .inr ⟨hc, id⟩
  exact
    { hset with
      nonempty := fun _ _ => hset.nonempty (by simp [hat]) (by simp [hat])
      returned := fun hs => by cases hs
      bounded := fun x hx => by simpa [State.registered, hat] using hset.bounded x hx
      raw := fun _ => hset.raw (by simp [State.observing, hat])
      observed := fun x y hy hobs => by
        rw [getElem?_replace ho] at hy
        split at hy
        · obtain rfl := some.inj hy
          cases hobs
        · exact absurd (h.observed x y hy hobs).2 ‹_›
      covered := fun hs x hx => hset.covered hs x (by simpa [State.registered, hat] using hx)
      noticed := fun hs x hx he hc => (hset.noticed hs x hx he hc).imp_right
        (·.imp_left (And.imp_left fun _ => rfl))
      emptied := fun hs hr => by simpa [State.registered, hat] using hset.emptied hs hr
      atStop := fun hs => by
        rcases (hset.atStop hs).1 with hs | hs <;> simp [hat] at hs }

/-- `setLifecycleObserver()` looks at the flag and returns. -/
theorem Inv.leave (h : Inv config (fun _ => False) s) (hat : s.starter = .observing) :
    Inv config (fun _ => False)
      { (if s.completed s.last then s.notify s.last else s) with starter := .creating } := by
  have hreg : State.registered { s with starter := .creating } = s.registered := by
    simp [State.registered, hat]
  have hstop : ¬ (s.stopping = true ∨ ∃ t ∈ s.threads, t.pc.toStop = true) := fun hs => by
    rcases (h.atStop hs).1 with hs | hs <;> rw [hat] at hs <;> cases hs
  have hleft : Inv config (fun x => x = s.last) { s with starter := .creating } :=
    { h with
      nonempty := fun hs => absurd rfl hs
      returned := fun hs => by cases hs
      bounded := fun x hx => hreg ▸ h.bounded x hx
      raw := fun hs => by cases hs
      observed := fun x o ho hobs => by
        rcases (h.observed x o ho hobs).1 with hs | hs <;> rw [hat] at hs <;> cases hs
      covered := fun hs x hx => h.covered hs x (hreg ▸ hx)
      noticed := fun hs x hx he hc => by
        rcases h.noticed hs x hx id hc with hann | ⟨-, hlast⟩ | hthread
        · exact .inl hann
        · exact absurd hlast he
        · exact .inr (.inr hthread)
      emptied := fun hs hr => hreg ▸ h.emptied hs hr
      atStop := fun hs => absurd hs hstop }
  split
  · rename_i hc
    have := hleft.notify hc
    simp only [State.notify] at this ⊢
    split at this <;> rename_i hon <;> simpa [hon] using this
  · rename_i hc
    refine { hleft with noticed := fun hs x hx _ hxc => ?_ }
    have hne : x ≠ s.last := by
      rintro rfl
      exact hc hxc
    exact hleft.noticed hs x hx hne hxc

theorem Inv.return (h : Inv config (fun _ => False) s) (hat : s.starter = .creating)
    (hge : ¬ s.objects.length < config.names.length) :
    Inv config (fun _ => False) { s with starter := .returned } := by
  have hreg : State.registered { s with starter := .returned } = s.registered := by
    simp [State.registered, hat]
  have hlen : s.objects.length = config.names.length :=
    Nat.le_antisymm h.created (Nat.not_lt.mp hge)
  exact
    { h with
      nonempty := fun _ hs => absurd rfl hs
      returned := fun _ => hlen
      bounded := fun x hx => hreg ▸ h.bounded x hx
      raw := fun hs => by cases hs
      observed := fun x o ho hobs => by
        rcases (h.observed x o ho hobs).1 with hs | hs <;> rw [hat] at hs <;> cases hs
      covered := fun hs x hx => h.covered hs x (hreg ▸ hx)
      noticed := fun hs x hx he hc => by
        rcases h.noticed hs x hx he hc with hann | ⟨hobs, -⟩ | hthread
        · exact .inl hann
        · simp [State.observing, hat] at hobs
        · exact .inr (.inr hthread)
      emptied := fun hs hr => hreg ▸ h.emptied hs hr
      atStop := fun hs => ⟨.inr rfl, hlen, (h.atStop hs).2.2⟩ }

/-- **`start()` keeps the invariant.** -/
theorem Inv.start (h : Inv config (fun _ => False) s) (hs : startNext config s = some s') :
    Inv config (fun _ => False) s' := by
  unfold startNext at hs
  split at hs
  · rename_i hat
    split at hs
    · rename_i hlt
      obtain rfl := some.inj hs
      exact h.create hat hlt
    · rename_i hge
      obtain rfl := some.inj hs
      exact h.return hat hge
  · rename_i hat
    obtain rfl := some.inj hs
    exact h.register hat
  · rename_i hat
    cases ho : s.objects[s.last]? with
    | none => simp [ho] at hs
    | some o =>
      simp only [ho, if_pos (h.raw (by simp [State.observing, hat]))] at hs
      obtain rfl := some.inj hs
      exact h.observe hat ho
  · rename_i hat
    rw [if_pos (h.raw (by simp [State.observing, hat]))] at hs
    obtain rfl := some.inj hs
    exact h.leave hat
  · cases hs

/-! ## 7. Detached threads -/

theorem notMem_of_firstNamed {readers : List Nat} (h : firstNamed config readers r = none) :
    r ∉ readers := fun hr => by
  simpa using List.find?_eq_none.mp h r hr

theorem mem_withoutFirst {readers : List Nat} (h : firstNamed config readers r = some r)
    (hnd : readers.Nodup) :
    (withoutFirst config readers r).Nodup ∧
      ∀ x, x ∈ withoutFirst config readers r ↔ x ∈ readers ∧ x ≠ r := by
  obtain ⟨hp, before, after, rfl, hbefore⟩ := List.find?_eq_some_iff_append.mp h
  have hrest : withoutFirst config (before ++ r :: after) r = before ++ after := by
    rw [withoutFirst, eraseP_append_right _ fun x hx => by simpa using hbefore x hx]
    simp
  obtain ⟨hr, hnd⟩ := nodup_cons.mp (nodup_middle.mp hnd)
  rw [hrest]
  refine ⟨hnd, fun x => ⟨fun hx => ⟨?_, fun hxr => hr (hxr ▸ hx)⟩, fun ⟨hx, hxr⟩ => ?_⟩⟩
  · exact perm_middle.mem_iff.mpr (mem_cons_of_mem _ hx)
  · exact (mem_cons.mp (perm_middle.mem_iff.mp hx)).resolve_left hxr

/-- A thread moves; if it was to stop the controller it still is, or the controller stops. -/
theorem Inv.moveThread {e : Nat → Prop} (h : Inv config e s) {i : Nat} {t t' : Completion}
    (ht : s.threads[i]? = some t) (hreader : t'.reader = t.reader)
    (hremoving : s.stopping = false → t.pc = .removing → t.reader ∉ s.readers)
    (htoStop : t'.pc.toStop = true → t.pc.toStop = true)
    (hkeep : s.stopping = false → t.pc.toStop = true → t'.pc.toStop = true)
    (hinStop : t'.pc.inStop = true → s.stopping = true) :
    Inv config e { s with threads := s.threads.set i t' } :=
  { h with
    threads := fun x hx => by
      rcases mem_replace hx with rfl | hx
      · exact (congrArg _ hreader).trans (h.threads t (mem_of_getElem? ht))
      · exact h.threads x hx
    noticed := fun hs x hx he hc => by
      refine (h.noticed hs x hx he hc).imp_right (·.imp_right fun hthread => ?_)
      refine (stays_replace ht t' hthread).resolve_left ?_
      rintro rfl
      exact hremoving hs rfl hx
    emptied := fun hs hr => (h.emptied hs hr).imp_right fun ⟨x, hx, hpc⟩ => by
      rcases stays_replace ht t' hx with rfl | hx
      · exact ⟨t', new_replace ht t', hkeep hs hpc⟩
      · exact ⟨x, hx, hpc⟩
    inStop := fun x hx hpc => by
      rcases mem_replace hx with rfl | hx
      · exact hinStop hpc
      · exact h.inStop x hx hpc
    atStop := fun hs => h.atStop (hs.imp_right fun ⟨x, hx, hpc⟩ => by
      rcases mem_replace hx with rfl | hx
      · exact ⟨t, mem_of_getElem? ht, htoStop hpc⟩
      · exact ⟨x, hx, hpc⟩) }

/-- **A sound removal keeps the invariant.** -/
theorem Inv.remove (h : Inv config (fun _ => False) s) {i r : Nat}
    (ht : s.threads[i]? = some ⟨r, .removing⟩) (hfirst : firstNamed config s.readers r = some r)
    (hclear : s.observing = true → r ≠ s.last)
    (hlast : withoutFirst config s.readers r = [] → s.registered = config.names.length) :
    Inv config (fun _ => False)
      { s with
        readers := withoutFirst config s.readers r
        removed := s.removed ++ [(r, s.completed r)]
        threads := s.threads.set i
          ⟨r, if withoutFirst config s.readers r = [] then .checking else .done⟩ } := by
  obtain ⟨hnd, hmem⟩ := mem_withoutFirst hfirst h.nodup
  have hc : s.completed r = true := h.threads _ (mem_of_getElem? ht)
  exact
    { h with
      bounded := fun x hx => h.bounded x ((hmem x).mp hx).1
      nodup := hnd
      raw := fun hobs => (hmem _).mpr ⟨h.raw hobs, (hclear hobs).symm⟩
      threads := fun x hx => by
        rcases mem_replace hx with rfl | hx
        · exact hc
        · exact h.threads x hx
      covered := fun hs x hx => by
        by_cases hxr : x = r
        · exact .inr (hxr ▸ hc)
        · exact (h.covered hs x hx).imp_left fun hx => (hmem x).mpr ⟨hx, hxr⟩
      noticed := fun hs x hx he hxc => by
        obtain ⟨hx, hxr⟩ := (hmem x).mp hx
        refine (h.noticed hs x hx he hxc).imp_right (·.imp_right fun hthread => ?_)
        refine (stays_replace ht _ hthread).resolve_left fun heq => ?_
        exact hxr (congrArg Completion.reader heq)
      emptied := fun hs hr => .inr ⟨_, new_replace ht _, by rw [if_pos hr]; rfl⟩
      inStop := fun x hx hpc => by
        rcases mem_replace hx with rfl | hx
        · split at hpc <;> cases hpc
        · exact h.inStop x hx hpc
      atStop := fun hs => by
        by_cases hold : s.stopping = true ∨ ∃ t ∈ s.threads, t.pc.toStop = true
        · exact h.atStop hold
        -- the thread just emptied the list, so every reader was registered and has completed
        obtain ⟨hnot, hnone⟩ := not_or.mp hold
        obtain ⟨x, hx, hpc⟩ := hs.resolve_left hnot
        have hempty : withoutFirst config s.readers r = [] := by
          rcases mem_replace hx with rfl | hx
          · by_contra hne
            rw [if_neg hne] at hpc
            cases hpc
          · exact absurd ⟨x, hx, hpc⟩ hnone
        have hreg := hlast hempty
        have hcreated : s.starter ≠ .created := fun hat => by
          have hpos := h.nonempty (by simp [hat]) (by simp [hat])
          have hle := h.created
          rw [State.registered, if_pos hat] at hreg
          omega
        have hlen : s.objects.length = config.names.length := by
          rwa [State.registered, if_neg hcreated] at hreg
        have hquiet : s.observing = false := Bool.eq_false_iff.mpr fun hobs => by
          have hin := (hmem _).mpr ⟨h.raw hobs, (hclear hobs).symm⟩
          rw [hempty] at hin
          cases hin
        refine ⟨?_, hlen, fun x hx => ?_⟩
        · revert hcreated hquiet
          cases hat : s.starter <;> simp [State.observing, hat]
        · by_cases hxr : x = r
          · exact hxr ▸ hc
          · refine (h.covered (Bool.eq_false_iff.mpr hnot) x (hreg ▸ hx)).resolve_left fun hin => ?_
            have := (hmem x).mpr ⟨hin, hxr⟩
            rw [hempty] at this
            cases this
      removed := fun x hx => (mem_append.mp hx).elim (h.removed x) fun hx => by
        rw [mem_singleton.mp hx]
        exact hc }

/-- **A detached thread keeps the invariant.** -/
theorem Inv.thread (h : Inv config (fun _ => False) s) {i : Nat} {t : Completion}
    (ht : s.threads[i]? = some t) (hsound : sound config s (.thread i) = true)
    (hs : threadNext config s i t = some s') : Inv config (fun _ => False) s' := by
  obtain ⟨r, pc⟩ := t
  have hmem := mem_of_getElem? ht
  cases pc with
  | removing =>
    simp only [threadNext] at hs
    simp only [sound, ht] at hsound
    cases hfirst : firstNamed config s.readers r with
    | none =>
      simp only [hfirst] at hs
      obtain rfl := some.inj hs
      exact h.moveThread ht rfl (fun _ _ => notMem_of_firstNamed hfirst) (fun hf => by cases hf)
        (fun _ hf => by cases hf) fun hf => by cases hf
    | some x =>
      simp only [hfirst] at hs hsound
      simp only [Bool.and_eq_true, decide_eq_true_eq, Bool.not_eq_true', Bool.and_eq_false_iff,
        decide_eq_false_iff_not, Bool.or_eq_true] at hsound
      obtain ⟨⟨rfl, hclear⟩, hlast⟩ := hsound
      obtain rfl := some.inj hs
      exact h.remove ht hfirst (fun hobs => hclear.resolve_left (by simp [hobs])) fun hempty =>
        hlast.resolve_left fun hne => hne hempty
  | checking =>
    obtain rfl := some.inj hs
    have hon : s.stopping = false → s.running = true := fun hstop =>
      Bool.not_eq_false _ ▸ fun hoff => by simp [h.running hoff] at hstop
    exact h.moveThread ht rfl (fun _ hf => by cases hf) (fun _ => rfl)
      (fun hstop _ => by simp [hon hstop, ThreadAt.toStop]) fun hf => by
        split at hf <;> cases hf
  | stopping =>
    obtain rfl := some.inj hs
    have hat := h.atStop (.inr ⟨_, hmem, rfl⟩)
    have hcalled : Inv config (fun _ => False) { s with stopping := true } :=
      { h with
        running := fun _ => rfl
        covered := fun hf => by cases hf
        noticed := fun hf => by cases hf
        emptied := fun hf => by cases hf
        inStop := fun _ _ _ => rfl
        atStop := fun _ => hat }
    exact hcalled.moveThread ht rfl (fun hf => by cases hf) (fun _ => rfl) (fun hf => by cases hf)
      fun _ => rfl
  | halting =>
    obtain rfl := some.inj hs
    have hstop := h.inStop _ hmem rfl
    have hoff : Inv config (fun _ => False) { s with running := false } :=
      { h with running := fun _ => hstop }
    exact hoff.moveThread ht rfl (fun _ hf => by cases hf) (fun hf => by cases hf)
      (fun _ hf => by cases hf) fun _ => hstop
  | clearing =>
    obtain rfl := some.inj hs
    have hstop := h.inStop _ hmem rfl
    have hnot : ¬ s.stopping = false := by simp [hstop]
    have hcleared : Inv config (fun _ => False) { s with readers := [] } :=
      { h with
        bounded := fun _ hx => by cases hx
        nodup := nodup_nil
        raw := fun hobs => by
          rcases (h.atStop (.inl hstop)).1 with hat | hat <;> simp [State.observing, hat] at hobs
        covered := fun hf => absurd hf hnot
        noticed := fun hf => absurd hf hnot
        emptied := fun hf => absurd hf hnot }
    exact hcleared.moveThread ht rfl (fun _ hf => by cases hf) (fun hf => by cases hf)
      (fun _ hf => by cases hf) fun hf => by cases hf
  | done => cases hs

/-! ## 8. Runs -/

/-- **A sound step keeps the invariant.** -/
theorem Inv.step (h : Inv config (fun _ => False) s) (a : Action)
    (hsound : sound config s a = true) (hs : Lifecycle.step config s a = some s') :
    Inv config (fun _ => False) s' := by
  unfold Lifecycle.step at hs
  rw [if_neg (by simp [h.noDangling])] at hs
  cases a with
  | start => exact h.start hs
  | complete r =>
    cases ho : s.objects[r]? with
    | none => simp [ho] at hs
    | some o =>
      simp only [ho] at hs
      split at hs
      · obtain rfl := some.inj hs
        refine h.setReader ho (fun _ => rfl) (fun _ => rfl) (fun hobs => hobs) (fun _ => id) ?_
        exact fun _ _ => .inl rfl
      · cases hs
  | announce r =>
    cases ho : s.objects[r]? with
    | none => simp [ho] at hs
    | some o =>
      simp only [ho] at hs
      split at hs
      · rename_i hann
        obtain rfl := some.inj hs
        exact h.announce ho hann
      · cases hs
  | thread i =>
    cases ht : s.threads[i]? with
    | none => simp [ht] at hs
    | some t =>
      simp only [ht] at hs
      exact h.thread ht hsound hs

theorem Inv.stopsWithLast (h : Inv config (fun _ => False) s) : StopsWithLast config s where
  notBefore := fun hs => by
    obtain ⟨hat, hlen, hall⟩ := h.atStop (.inl hs)
    refine ⟨?_, hall⟩
    rw [State.registered, if_neg (by rcases hat with hat | hat <;> simp [hat])]
    exact hlen
  afterAll := fun ⟨hat, hannounced, hdone⟩ hall => by
    by_contra hnot
    have hs : s.stopping = false := Bool.eq_false_iff.mpr hnot
    have hreg : s.registered = config.names.length := by
      rw [State.registered, if_neg (by simp [hat]), h.returned hat]
    have hempty : s.readers = [] := eq_nil_iff_forall_not_mem.mpr fun x hx => by
      rcases h.noticed hs x hx id (hall x (hreg ▸ h.bounded x hx)) with
        ⟨o, ho, ha⟩ | ⟨hobs, -⟩ | hthread
      · simp [hannounced o (mem_of_getElem? ho)] at ha
      · simp [State.observing, hat] at hobs
      · exact absurd (hdone _ hthread) (by simp)
    rcases h.emptied hs hempty with hzero | ⟨t, ht, hpc⟩
    · exact config.configured (length_eq_zero_iff.mp (hreg.symm.trans hzero))
    · rw [hdone t ht] at hpc
      cases hpc
  completed := h.removed

/-- **On runs whose removals are sound, the controller stops exactly with the last reader.** A
removal goes by name: it must not take a namesake that still runs, nor the reader whose observer
`start()` is setting, nor the only reader on the list while others are yet to be created. -/
theorem stopsWithLast_of_sound (config : Config) {s : State}
    (hrun : Runs (step config) (fun s a => sound config s a = true) {} s) :
    StopsWithLast config s :=
  (hrun.keeps (fun _ a _ h hok hs => h.step a hok hs) (inv_initial config)).stopsWithLast

/-- Two readers of different names. -/
def twoReaders : Config := ⟨["a", "b"], cons_ne_nil _ _⟩

/-- `start()` registers a reader. -/
def registration : List Action := [.start, .start, .start, .start]

/-- Both are registered, then both complete. -/
def soundActions : List Action :=
  registration ++ registration ++ [.start, .complete 0, .complete 1, .announce 0, .announce 1] ++
    [.thread 0, .thread 1, .thread 1, .thread 1, .thread 1, .thread 1]

/-- The controller has stopped. -/
def stoppedState : State where
  objects := [⟨true, false, true⟩, ⟨true, false, true⟩]
  starter := .returned
  threads := [⟨0, .done⟩, ⟨1, .done⟩]
  running := false
  stopping := true
  removed := [(0, true), (1, true)]

theorem stopsWithLast_of_sound_two :
    exec (step twoReaders) (sound twoReaders · ·) {} soundActions = some stoppedState ∧
      StopsWithLast twoReaders stoppedState := by
  have hrun : exec (step twoReaders) (sound twoReaders · ·) {} soundActions =
      some stoppedState := by decide +kernel
  exact ⟨hrun, stopsWithLast_of_sound twoReaders (Runs.of_exec _ hrun)⟩

/-! ## 9. Two races

The controller can stop before the next reader is created, and can take a running reader for the
one of its name that is done (`stopsWithLast_fails`). -/

/-- The first reader completes before the second is created. -/
def earlyActions : List Action :=
  registration ++ [.complete 0, .announce 0, .thread 0, .thread 0, .thread 0]

/-- `stop()` runs and no second reader was created. -/
def earlyState : State where
  objects := [⟨true, false, true⟩]
  starter := .creating
  threads := [⟨0, .halting⟩]
  stopping := true
  removed := [(0, true)]

/-- Two readers of one name. -/
def namesakes : Config := ⟨["a", "a"], cons_ne_nil _ _⟩

/-- The second of them completes. -/
def mistakenActions : List Action :=
  registration ++ registration ++ [.start, .complete 1, .announce 1, .thread 0]

/-- The first was taken off the list while it runs. -/
def mistakenState : State where
  objects := [⟨false, false, true⟩, ⟨true, false, true⟩]
  starter := .returned
  readers := [1]
  threads := [⟨1, .done⟩]
  removed := [(0, false)]

/-- **The controller stops before the second reader is created, and removes one that runs.** -/
theorem stopsWithLast_fails :
    (Runs (step twoReaders) anyStep {} earlyState ∧ ¬ StopsWithLast twoReaders earlyState) ∧
      Runs (step namesakes) anyStep {} mistakenState ∧
        ¬ StopsWithLast namesakes mistakenState := by
  have hearly : exec (step twoReaders) anyStep {} earlyActions = some earlyState := by
    decide +kernel
  have hmistaken : exec (step namesakes) anyStep {} mistakenActions = some mistakenState := by
    decide +kernel
  refine ⟨⟨Runs.of_exec _ hearly, fun h => ?_⟩, Runs.of_exec _ hmistaken, fun h => ?_⟩
  · exact absurd (h.notBefore rfl).1 (by decide)
  · exact absurd (h.completed (0, false) (mem_singleton.mpr rfl)) (by decide)

end MldpDriver.Controller.Lifecycle
