/-
# Batches grouped by update

A writer of tables takes what comes between two markers of a PV for one update.  Two updates of one
PV are two tasks of the pool, and when two threads have them their batches and their markers meet
on the bus in any order.
-/
import MldpDriver.Reader.ReaderPool

namespace MldpDriver.Reader.Pool

open Bus Lib.Replace Lib.Run List

variable {V : Type} {keep : DataBatch V → Bool} {s s' : State V}

/-! ## 1. Groups

`Grouped` says that the batches of a PV come update by update, each with its marker last. -/

/-- The first batch may stand before the second. -/
def Before (a b : Pushed V) : Prop :=
  a.pvName = b.pvName → a.id < b.id ∨ (a.id = b.id ∧ a.marker = false)

/-- **The batches of a PV come update by update, each with its marker last.** -/
def Grouped (s : State V) : Prop := s.history.Pairwise Before

/-- The update a thread has, and its PV. -/
def works : Thread V → Option (Nat × String)
  | .submitting id u _ => some (id, u.pvName)
  | .emitting id u _ _ => some (id, u.pvName)
  | .marking id u => some (id, u.pvName)
  | _ => none

/-- An update is taken only when no thread has an update of its PV.  Updates of different PVs may
be mixed: what is grouped are the batches of one PV. -/
def alone (s : State V) : Action V → Bool
  | .take _ =>
    match s.queue with
    | .update _ u :: _ => s.threads.all fun t => decide ((works t).map (·.2) ≠ some u.pvName)
    | _ => true
  | _ => true

/-! ## 2. What a step does -/

/-- The update a task is. -/
def updateId : Task V → Option Nat
  | .update id _ => some id
  | .column _ _ => none

/-- The updates that wait, and the next to arrive. -/
def waiting (s : State V) : List Nat := s.queue.filterMap updateId ++ [s.nextId]

/-- What a thread that goes on pushes: batches of its update, or the marker, with which it is
done. -/
structure Pushes (t t' : Thread V) (more : List (Pushed V)) : Prop where
  own : ∀ p ∈ more, works t = some (p.id, p.pvName)
  goesOn : works t' = works t ∨ works t' = none
  markerLast : (∀ p ∈ more, p.marker = false) ∨ (more.length = 1 ∧ works t' = none)

variable {t t' : Thread V}

theorem pushes_nothing (h : works t' = works t ∨ works t' = none) :
    Pushes t t' [] :=
  ⟨nofun, h, .inl nofun⟩

theorem pushes_since {id : Nat} {u : TableUpdate V} (b b' : Batching V)
    (ht : works t = some (id, u.pvName)) (ht' : works t' = some (id, u.pvName)) :
    Pushes t t' (pushedSince id u b b') := by
  have hmem : ∀ p ∈ pushedSince id u b b', (p.id, p.pvName) = (id, u.pvName) ∧ p.marker = false := by
    intro p hp
    obtain ⟨frames, -, rfl⟩ := mem_map.mp hp
    exact ⟨rfl, rfl⟩
  exact ⟨fun p hp => by rw [ht, (hmem p hp).1], .inl (by rw [ht, ht']), .inl fun p hp => (hmem p hp).2⟩

/-- **A thread that goes on pushes for its own update and leaves the updates in the queue.** -/
theorem run_pushes {i : Nat} (h : step keep s (.run i) = some s') :
    ∃ t t' more, s.threads[i]? = some t ∧ s'.threads = s.threads.set i t' ∧
      waiting s' = waiting s ∧ s'.nextId = s.nextId ∧ s'.history = s.history ++ more ∧
      Pushes t t' more := by
  obtain ⟨t, hi, hrun⟩ := run_cases h
  cases t with
  | idle => cases hrun
  | submitting id u k =>
    rw [runThread] at hrun
    split at hrun
    · obtain rfl := Option.some.inj hrun
      refine ⟨_, _, [], hi, rfl, ?_, rfl, (append_nil _).symm, pushes_nothing (.inl rfl)⟩
      simp [waiting, updateId]
    · obtain rfl := Option.some.inj hrun
      exact ⟨_, _, [], hi, rfl, rfl, rfl, (append_nil _).symm, pushes_nothing (.inl rfl)⟩
  | emitting id u k b =>
    rw [runThread] at hrun
    split at hrun
    · obtain ⟨-, hrun⟩ := Option.ite_none_left_eq_some.mp hrun
      obtain rfl := Option.some.inj hrun
      exact ⟨_, _, _, hi, rfl, rfl, rfl, rfl, pushes_since _ _ rfl rfl⟩
    · obtain rfl := Option.some.inj hrun
      exact ⟨_, _, _, hi, rfl, rfl, rfl, rfl, pushes_since _ _ rfl rfl⟩
  | marking id u =>
    obtain rfl := Option.some.inj hrun
    refine ⟨_, _, _, hi, rfl, rfl, rfl, rfl, ?_, .inr rfl, .inr ⟨rfl, rfl⟩⟩
    intro p hp
    obtain rfl := mem_singleton.mp hp
    rfl
  | converting id k =>
    obtain rfl := Option.some.inj hrun
    exact ⟨_, _, [], hi, rfl, rfl, rfl, (append_nil _).symm, pushes_nothing (.inr rfl)⟩

/-! ## 3. The invariant

`apart` is what the condition on the steps is for; with it `last` says that the batches a thread
pushes next belong behind those on the bus. -/

/-- The updates wait in the order they came, behind those that threads have and those on the bus;
the threads have updates of different PVs, and of its PV each has the last. -/
structure InOrder (s : State V) : Prop where
  sorted : (waiting s).Pairwise (· < ·)
  behind : ∀ id ∈ waiting s, (∀ t ∈ s.threads, ∀ w ∈ works t, w.1 < id) ∧
    ∀ p ∈ s.history, p.id < id
  apart : ∀ (i j : Nat) (a b : Thread V), s.threads[i]? = some a → s.threads[j]? = some b → i ≠ j →
    ∀ w ∈ works a, ∀ w' ∈ works b, w.2 ≠ w'.2
  last : ∀ t ∈ s.threads, ∀ w ∈ works t, ∀ p ∈ s.history, p.pvName = w.2 →
    p.id < w.1 ∨ (p.id = w.1 ∧ p.marker = false)
  grouped : Grouped s

theorem nextId_mem_waiting (s : State V) : s.nextId ∈ waiting s :=
  mem_append_right _ (mem_singleton.mpr rfl)

theorem InOrder.le_nextId (h : InOrder s) {id : Nat} (hid : id ∈ waiting s) : id ≤ s.nextId := by
  rcases mem_append.mp hid with hid | hid
  · exact Nat.le_of_lt ((pairwise_append.mp h.sorted).2.2 id hid s.nextId
      (mem_singleton.mpr rfl))
  · exact Nat.le_of_eq (mem_singleton.mp hid)

/-- A thread that starts on an update of a PV nobody else has, or goes on with its own, keeps the
threads apart. -/
theorem apart_replace {i : Nat} {a b : Thread V} (h : InOrder s) (hi : s.threads[i]? = some a)
    (hb : ∀ w ∈ works b, w ∈ works a ∨ ∀ t ∈ s.threads, ∀ w' ∈ works t, w'.2 ≠ w.2) :
    ∀ (j k : Nat) (x y : Thread V), (s.threads.set i b)[j]? = some x → (s.threads.set i b)[k]? = some y →
      j ≠ k → ∀ w ∈ works x, ∀ w' ∈ works y, w.2 ≠ w'.2 := by
  have hnew : ∀ (k : Nat) (y : Thread V), k ≠ i → s.threads[k]? = some y →
      ∀ w ∈ works b, ∀ w' ∈ works y, w'.2 ≠ w.2 := by
    intro k y hk hy w hw w' hw'
    rcases hb w hw with hw | hfresh
    · exact h.apart k i y a hy hi hk w' hw' w hw
    · exact hfresh y (mem_of_getElem? hy) w' hw'
  intro j k x y hj hk hne w hw w' hw'
  rw [getElem?_replace hi] at hj hk
  split at hj
  · next hji =>
    obtain rfl := Option.some.inj hj
    rw [if_neg (fun hki => hne (hji.trans hki.symm))] at hk
    exact Ne.symm (hnew k y (fun hki => hne (hji.trans hki.symm)) hk w hw w' hw')
  · next hji =>
    split at hk
    · obtain rfl := Option.some.inj hk
      exact hnew j x hji hj w' hw' w hw
    · exact h.apart j k x y hj hk hne w hw w' hw'

theorem Pushes.before {more : List (Pushed V)} (hpushes : Pushes t t' more) (h : InOrder s)
    (ht : t ∈ s.threads) : (s.history ++ more).Pairwise Before := by
  refine pairwise_append.mpr ⟨h.grouped, ?_, ?_⟩
  · rcases hpushes.markerLast with hframes | ⟨hone, -⟩
    · refine pairwise_of_forall_mem_list ?_
      intro a ha b hb _
      have hsame := Option.some.inj ((hpushes.own a ha).symm.trans (hpushes.own b hb))
      exact .inr ⟨congrArg Prod.fst hsame, hframes a ha⟩
    · obtain ⟨p, rfl⟩ := length_eq_one_iff.mp hone
      exact pairwise_singleton _ _
  · intro a ha b hb hpv
    exact h.last t ht _ (hpushes.own b hb) a ha hpv

theorem Pushes.last {i : Nat} {more : List (Pushed V)} (hpushes : Pushes t t' more) (h : InOrder s)
    (hi : s.threads[i]? = some t) :
    ∀ x ∈ s.threads.set i t', ∀ w ∈ works x, ∀ p ∈ s.history ++ more, p.pvName = w.2 →
      p.id < w.1 ∨ (p.id = w.1 ∧ p.marker = false) := by
  intro x hx w hw p hp hpv
  obtain ⟨j, hj⟩ := List.getElem?_of_mem hx
  rw [getElem?_replace hi] at hj
  split at hj
  · obtain rfl := Option.some.inj hj
    rcases hpushes.goesOn with hsame | hnone
    · rw [hsame] at hw
      rcases mem_append.mp hp with hp | hp
      · exact h.last t (mem_of_getElem? hi) w hw p hp hpv
      · obtain rfl := Option.some.inj ((hpushes.own p hp).symm.trans hw)
        rcases hpushes.markerLast with hframes | ⟨-, hnone⟩
        · exact .inr ⟨rfl, hframes p hp⟩
        · rw [hnone, hw] at hsame
          cases hsame
    · rw [hnone] at hw
      cases hw
  · next hji =>
    rcases mem_append.mp hp with hp | hp
    · exact h.last x (mem_of_getElem? hj) w hw p hp hpv
    · -- another thread pushes for another PV
      exact absurd hpv (h.apart i j t x hi hj (Ne.symm hji) _ (hpushes.own p hp) w hw)

theorem InOrder.arrive (h : InOrder s) (u : TableUpdate V) :
    InOrder { s with queue := s.queue ++ [.update s.nextId u], nextId := s.nextId + 1 } := by
  have hwaiting : waiting { s with
        queue := s.queue ++ [.update s.nextId u], nextId := s.nextId + 1 } =
      waiting s ++ [s.nextId + 1] := by
    simp [waiting, updateId]
  refine ⟨?_, ?_, h.apart, h.last, h.grouped⟩
  · rw [hwaiting]
    refine pairwise_append.mpr ⟨h.sorted, pairwise_singleton _ _, ?_⟩
    intro id hid id' hid'
    obtain rfl := mem_singleton.mp hid'
    exact Nat.lt_succ_of_le (h.le_nextId hid)
  · rw [hwaiting]
    intro id hid
    rcases mem_append.mp hid with hid | hid
    · exact h.behind id hid
    · obtain rfl := mem_singleton.mp hid
      obtain ⟨hthreads, hhistory⟩ := h.behind s.nextId (nextId_mem_waiting s)
      exact ⟨fun t ht w hw => Nat.lt_succ_of_lt (hthreads t ht w hw),
        fun p hp => Nat.lt_succ_of_lt (hhistory p hp)⟩

section Take

variable {i : Nat} {rest : List (Task V)}

theorem InOrder.takeColumn (h : InOrder s) (hi : s.threads[i]? = some .idle) {id k : Nat}
    (hqueue : s.queue = .column id k :: rest) :
    InOrder { s with threads := s.threads.set i (begin_ s (.column id k)), queue := rest } := by
  have hwaiting : waiting { s with
      threads := s.threads.set i (begin_ s (.column id k)), queue := rest } = waiting s := by
    rw [waiting, waiting, hqueue]
    rfl
  refine ⟨?_, ?_, apart_replace h hi nofun, ?_, h.grouped⟩
  · rw [hwaiting]
    exact h.sorted
  · rw [hwaiting]
    intro id' hid'
    refine ⟨?_, (h.behind id' hid').2⟩
    intro t ht
    rcases mem_replace ht with rfl | ht
    · exact nofun
    · exact (h.behind id' hid').1 t ht
  · intro t ht
    rcases mem_replace ht with rfl | ht
    · exact nofun
    · exact h.last t ht

/-- An update is taken, and no other thread has one of its PV. -/
theorem InOrder.takeUpdate (h : InOrder s) (hi : s.threads[i]? = some .idle) {id : Nat}
    {u : TableUpdate V} (hqueue : s.queue = .update id u :: rest)
    (hok : alone s (.take i) = true) :
    InOrder { s with threads := s.threads.set i (begin_ s (.update id u)), queue := rest } := by
  have hworks : works (begin_ s (.update id u)) = some (id, u.pvName) := by
    rw [begin_]
    split <;> rfl
  have hwaiting : waiting s = id :: waiting { s with
      threads := s.threads.set i (begin_ s (.update id u)), queue := rest } := by
    simp [waiting, hqueue, updateId]
  obtain ⟨hfirst, hsorted⟩ := pairwise_cons.mp (hwaiting ▸ h.sorted)
  obtain ⟨-, hhistory⟩ := h.behind id (hwaiting ▸ mem_cons_self)
  refine ⟨hsorted, ?_, apart_replace h hi ?_, ?_, h.grouped⟩
  · intro id' hid'
    obtain ⟨hthreads', hhistory'⟩ := h.behind id' (hwaiting ▸ mem_cons_of_mem _ hid')
    refine ⟨?_, hhistory'⟩
    intro t ht w hw
    rcases mem_replace ht with rfl | ht
    · obtain rfl := Option.some.inj (hworks.symm.trans hw)
      exact hfirst id' hid'
    · exact hthreads' t ht w hw
  · intro w hw
    obtain rfl := Option.some.inj (hworks.symm.trans hw)
    refine .inr ?_
    intro t ht w' hw' hpv
    simp only [alone, hqueue, all_eq_true, decide_eq_true_eq] at hok
    exact hok t ht (by rw [Option.mem_def.mp hw', Option.map_some, hpv])
  · intro t ht w hw p hp hpv
    rcases mem_replace ht with rfl | ht
    · obtain rfl := Option.some.inj (hworks.symm.trans hw)
      exact .inl (hhistory p hp)
    · exact h.last t ht w hw p hp hpv

end Take

theorem InOrder.run (h : InOrder s) {i : Nat} (ha : step keep s (.run i) = some s') :
    InOrder s' := by
  obtain ⟨t, t', more, hi, hthreads, hwaiting, hnextId, hhistory, hpushes⟩ := run_pushes ha
  have ht : t ∈ s.threads := mem_of_getElem? hi
  have hkeeps : ∀ w ∈ works t', w ∈ works t := by
    intro w hw
    rcases hpushes.goesOn with hsame | hnone
    · exact hsame ▸ hw
    · rw [hnone] at hw
      cases hw
  refine ⟨hwaiting ▸ h.sorted, ?_, ?_, ?_, ?_⟩
  · rw [hwaiting, hthreads, hhistory]
    intro id hid
    obtain ⟨hbehind, hpushed⟩ := h.behind id hid
    constructor
    · intro x hx w hw
      rcases mem_replace hx with rfl | hx
      · exact hbehind t ht w (hkeeps w hw)
      · exact hbehind x hx w hw
    · intro p hp
      rcases mem_append.mp hp with hp | hp
      · exact hpushed p hp
      · exact hbehind t ht _ (hpushes.own p hp)
  · rw [hthreads]
    exact apart_replace h hi fun w hw => .inl (hkeeps w hw)
  · rw [hthreads, hhistory]
    exact hpushes.last h hi
  · rw [Grouped, hhistory]
    exact hpushes.before h ht

/-- **A step keeps the invariant, if an update is taken alone.** -/
theorem InOrder.step (h : InOrder s) {a : Action V} (hok : alone s a = true)
    (ha : step keep s a = some s') : InOrder s' := by
  cases a with
  | arrive u =>
    obtain rfl := Option.some.inj ha
    exact h.arrive u
  | take i =>
    obtain ⟨task, rest, hi, hqueue, rfl⟩ := take_cases ha
    cases task with
    | column id k => exact h.takeColumn hi hqueue
    | update id u => exact h.takeUpdate hi hqueue hok
  | run i => exact h.run ha

/-! ## 4. Every run

`grouped_fails` is a pool of three threads and two updates. -/

theorem inOrder_started (threadPoolSize : Nat) : InOrder (started V threadPoolSize) where
  sorted := pairwise_singleton _ _
  behind id _ := by
    refine ⟨?_, nofun⟩
    intro t ht
    rw [eq_of_mem_replicate ht]
    exact nofun
  apart i j a b hi _ _ := by
    rw [eq_of_mem_replicate (mem_of_getElem? hi)]
    exact nofun
  last t ht := by
    rw [eq_of_mem_replicate ht]
    exact nofun
  grouped := List.Pairwise.nil

/-- **The batches of a PV are grouped by update, in every run in which each update is taken when no
thread has an update of its PV.** Two tasks of one PV otherwise push their batches and their
markers in any order, and the marker of one update comes among the batches of the other. -/
theorem grouped_of_alone (keep : DataBatch V → Bool) {threadPoolSize : Nat} {s : State V}
    (hrun : Runs (step keep) (fun s a => alone s a = true) (started V threadPoolSize) s) :
    Grouped s := by
  have hinv : InOrder s := hrun.keeps (fun _ _ _ h hok ha => h.step hok ha)
    (inOrder_started threadPoolSize)
  exact hinv.grouped

/-- An update of a PV, with a column. -/
def updateOf (pvName : String) : TableUpdate Nat where
  pvName := pvName
  cfg := { busBatchSize := 0 }
  columns := [some [{ timestamps := [⟨10, 0⟩] }]]

/-- The updates, PVs and markers on the bus. -/
def onBus (s : State Nat) : List (Nat × String × Bool) :=
  s.history.map fun p => (p.id, p.pvName, p.marker)

/-- Updates of two PVs at once, and the second of one of them after its first. -/
def groupedActions : List (Action Nat) :=
  [.arrive (updateOf "T"), .arrive (updateOf "U"), .take 0, .run 0, .run 0, .take 1, .run 1, .run 1,
    .take 2, .run 2, .take 2, .run 2, .run 0, .run 0, .run 0, .run 1, .run 1, .arrive (updateOf "T"),
    .take 0, .run 0, .run 0, .take 2, .run 2, .run 0, .run 0, .run 0, .run 1]

/-- A pool of three threads after these. -/
theorem groupedActions_grouped : ∃ s : State Nat,
    exec (step fun _ => true) (fun s a => alone s a = true) (started Nat 3) groupedActions = some s ∧
      onBus s = [(0, "T", false), (0, "T", true), (1, "U", false), (2, "T", false), (2, "T", true),
        (1, "U", true)] ∧ Grouped s := by
  have hsample : (exec (step fun _ => true) (fun s a => alone s a = true) (started Nat 3)
      groupedActions).map onBus = some [(0, "T", false), (0, "T", true), (1, "U", false),
        (2, "T", false), (2, "T", true), (1, "U", true)] := by
    decide +kernel
  obtain ⟨s, hs, hbus⟩ := Option.map_eq_some_iff.mp hsample
  exact ⟨s, hs, hbus, grouped_of_alone _ (Runs.of_exec _ hs)⟩

/-- Two updates of a PV at once, the second faster than the first. -/
def mixedActions : List (Action Nat) :=
  [.arrive (updateOf "T"), .arrive (updateOf "T"), .take 0, .take 1, .run 0, .run 0, .run 1, .run 1,
    .take 2, .run 2, .take 2, .run 2, .run 1, .run 1, .run 0, .run 0, .run 0, .run 1]

/-- **The frame of the second update stands before that of the first, and both before a marker.** -/
theorem grouped_fails : ∃ s : State Nat,
    Runs (step fun _ => true) anyStep (started Nat 3) s ∧
      onBus s = [(1, "T", false), (0, "T", false), (0, "T", true), (1, "T", true)] ∧
      ¬ Grouped s := by
  have hmixed : (exec (step fun _ => true) anyStep (started Nat 3) mixedActions).map
      (fun s => s.history) = some [⟨1, "T", [{ timestamps := [⟨10, 0⟩] }], false⟩,
        ⟨0, "T", [{ timestamps := [⟨10, 0⟩] }], false⟩, ⟨0, "T", [], true⟩, ⟨1, "T", [], true⟩] := by
    decide +kernel
  obtain ⟨s, hs, hhistory⟩ := Option.map_eq_some_iff.mp hmixed
  refine ⟨s, Runs.of_exec _ hs, by rw [onBus, hhistory]; rfl, ?_⟩
  intro hgrouped
  rw [Grouped, hhistory] at hgrouped
  rcases rel_of_pairwise_cons hgrouped (.head _) rfl with hlt | ⟨heq, -⟩
  · exact absurd hlt (by decide)
  · exact absurd heq (by decide)

end MldpDriver.Reader.Pool
