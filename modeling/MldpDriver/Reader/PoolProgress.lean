/-
# A pool that never stands still

The task of a table update keeps its thread while it waits for the columns, whose tasks are in the
same queue behind everything that came before.  When every thread has such an update nobody is left
to convert a column, and the pool stands still for ever.
-/
import MldpDriver.Reader.ReaderPool

namespace MldpDriver.Reader.Pool

open Bus Lib.Replace Lib.Run List

variable {V : Type} {keep : DataBatch V → Bool} {s s' : State V}

/-! ## 1. Progress

`Progress` says that not every thread waits for a column that is still in the queue, and that
while there is work some thread can go on. -/

/-- The thread waits for the future of a column whose task is in the queue. -/
def WaitsForQueued (s : State V) (t : Thread V) : Prop :=
  ∃ id u k b, t = .emitting id u k b ∧ k < u.columns.length ∧ (id, k) ∉ s.ready ∧
    .column id k ∈ s.queue

/-- **Not all threads wait for queued columns, and while there is work a thread can go on.** The
first is what keeps the second: a queued column needs a thread that takes it. -/
structure Progress (keep : DataBatch V → Bool) (s : State V) : Prop where
  notStuck : ¬ ∀ t ∈ s.threads, WaitsForQueued s t
  goesOn : (s.queue ≠ [] ∨ ∃ t ∈ s.threads, t ≠ .idle) →
    ∃ i s', step keep s (.take i) = some s' ∨ step keep s (.run i) = some s'

/-- The thread has an update that still needs columns which are not ready. -/
def held (ready : List (Nat × Nat)) : Thread V → Bool
  | .submitting id u _ => (List.range u.columns.length).any fun k => !ready.contains (id, k)
  | .emitting id u k _ =>
    (List.range u.columns.length).any fun k' => decide (k ≤ k') && !ready.contains (id, k')
  | _ => false

/-- An update is taken only if some thread is not held afterwards.  A thread is held by an update
whose columns are not all ready. -/
def spare (s : State V) : Action V → Bool
  | .take i =>
    match s.queue with
    | .update id u :: _ =>
      (s.threads.set i (begin_ s (.update id u))).any fun t => !held s.ready t
    | _ => true
  | _ => true

/-! ## 2. The invariant

A thread that waits for a column waits for one that is in the queue, with a thread or ready; and
the thread that is not held is the one that goes on. -/

/-- The columns whose futures a thread has. -/
def expects : Thread V → Nat → Nat → Prop
  | .submitting id _ m, id', k => id' = id ∧ k < m
  | .emitting id u _ _, id', k => id' = id ∧ k < u.columns.length
  | _, _, _ => False

/-- A column is in the queue, with a thread or ready. -/
def Tracked (s : State V) (id k : Nat) : Prop :=
  .column id k ∈ s.queue ∨ .converting id k ∈ s.threads ∨ (id, k) ∈ s.ready

/-- Every column that is expected is tracked, and some thread is not held. -/
structure Inv (s : State V) : Prop where
  tracked : ∀ t ∈ s.threads, ∀ id k, expects t id k → Tracked s id k
  free : ∃ t ∈ s.threads, held s.ready t = false
  pooled : s.pooled = true

variable {ready : List (Nat × Nat)}
variable {i : Nat}

/-- A held thread is not free, and the others keep their columns. -/
theorem tracked_replace {a b : Thread V} (h : Inv s) (hi : s.threads[i]? = some a)
    {queue : List (Task V)}
    (hexpects : ∀ id k, expects b id k → expects a id k ∨ .column id k ∈ queue)
    (hqueue : ∀ id k, .column id k ∈ s.queue → .column id k ∈ queue ∨ b = .converting id k)
    (hready : ∀ id k, (id, k) ∈ s.ready ∨ a = .converting id k → (id, k) ∈ ready) :
    ∀ t ∈ s.threads.set i b, ∀ id k, expects t id k →
      .column id k ∈ queue ∨ .converting id k ∈ s.threads.set i b ∨ (id, k) ∈ ready := by
  have hold : ∀ id k, Tracked s id k →
      .column id k ∈ queue ∨ .converting id k ∈ s.threads.set i b ∨ (id, k) ∈ ready := by
    rintro id k (hcolumn | hconverting | hmem)
    · rcases hqueue id k hcolumn with hcolumn | rfl
      · exact .inl hcolumn
      · exact .inr (.inl (new_replace hi _))
    · rcases stays_replace hi b hconverting with ha | hstays
      · exact .inr (.inr (hready id k (.inr ha.symm)))
      · exact .inr (.inl hstays)
    · exact .inr (.inr (hready id k (.inl hmem)))
  intro t ht id k hexp
  rcases mem_replace ht with rfl | ht
  · rcases hexpects id k hexp with hexp | hcolumn
    · exact hold id k (h.tracked a (mem_of_getElem? hi) id k hexp)
    · exact .inl hcolumn
  · exact hold id k (h.tracked t ht id k hexp)

theorem free_replace {a b : Thread V} (h : Inv s) (hi : s.threads[i]? = some a)
    (hb : held s.ready a = false → held s.ready b = false) :
    ∃ t ∈ s.threads.set i b, held s.ready t = false := by
  obtain ⟨t, ht, hfree⟩ := h.free
  rcases stays_replace hi b ht with rfl | hstays
  · exact ⟨b, new_replace hi b, hb hfree⟩
  · exact ⟨t, hstays, hfree⟩

theorem pooled_set {b : Thread V} {queue : List (Task V)} {nextId : Nat} {history : List (Pushed V)}
    (h : s.pooled = true) :
    State.pooled ⟨s.threads.set i b, queue, nextId, ready, history⟩ = true := by
  rw [State.pooled] at h ⊢
  rwa [length_set]

variable {u : TableUpdate V}

theorem held_next {id k : Nat} {b b' : Batching V} (h : held ready (.emitting id u k b) = false) :
    held ready (.emitting id u (k + 1) b') = false := by
  simp only [held, any_eq_false, Bool.and_eq_true, decide_eq_true_eq, not_and] at h ⊢
  intro k' hk' hle
  exact h k' hk' (Nat.le_of_succ_le hle)

theorem held_first {id k : Nat} {b : Batching V} (h : held ready (.submitting id u k) = false) :
    held ready (.emitting id u 0 b) = false := by
  simpa [held] using h

theorem Inv.runThread {t : Thread V} (h : Inv s) (hi : s.threads[i]? = some t)
    (hrun : runThread keep s i t = some s') : Inv s' := by
  cases t with
  | idle => cases hrun
  | submitting id u m =>
    by_cases hm : m < u.columns.length
    · rw [Pool.runThread, if_pos hm] at hrun
      obtain rfl := Option.some.inj hrun
      refine ⟨tracked_replace h hi ?_ ?_ ?_, free_replace h hi fun h => h, pooled_set h.pooled⟩
      · rintro id' k ⟨rfl, hk⟩
        rcases Nat.lt_succ_iff_lt_or_eq.mp hk with hk | rfl
        · exact .inl ⟨rfl, hk⟩
        · exact .inr (mem_append_right _ (mem_singleton.mpr rfl))
      · exact fun _ _ hcolumn => .inl (mem_append_left _ hcolumn)
      · rintro id' k (hmem | hconverting)
        · exact hmem
        · cases hconverting
    · rw [Pool.runThread, if_neg hm] at hrun
      obtain rfl := Option.some.inj hrun
      refine ⟨tracked_replace h hi ?_ ?_ ?_, free_replace h hi held_first, pooled_set h.pooled⟩
      · rintro id' k ⟨rfl, hk⟩
        exact .inl ⟨rfl, Nat.lt_of_lt_of_le hk (Nat.not_lt.mp hm)⟩
      · exact fun _ _ hcolumn => .inl hcolumn
      · rintro id' k (hmem | hconverting)
        · exact hmem
        · cases hconverting
  | emitting id u k b =>
    have hsame : ∀ id' k', (id', k') ∈ s.ready ∨
        (.emitting id u k b : Thread V) = .converting id' k' → (id', k') ∈ s.ready := by
      rintro id' k' (hmem | hconverting)
      · exact hmem
      · cases hconverting
    rw [Pool.runThread] at hrun
    split at hrun
    · obtain ⟨-, hrun⟩ := Option.ite_none_left_eq_some.mp hrun
      obtain rfl := Option.some.inj hrun
      exact ⟨tracked_replace h hi (fun _ _ hexp => .inl hexp) (fun _ _ hcolumn => .inl hcolumn)
          hsame,
        free_replace h hi held_next, pooled_set h.pooled⟩
    · obtain rfl := Option.some.inj hrun
      exact ⟨tracked_replace h hi (fun _ _ hexp => hexp.elim) (fun _ _ hcolumn => .inl hcolumn)
          hsame,
        free_replace h hi fun _ => rfl, pooled_set h.pooled⟩
  | marking id u =>
    obtain rfl := Option.some.inj hrun
    refine ⟨tracked_replace h hi (fun _ _ hexp => hexp.elim) (fun _ _ hcolumn => .inl hcolumn) ?_,
      free_replace h hi fun _ => rfl, pooled_set h.pooled⟩
    rintro id' k' (hmem | hconverting)
    · exact hmem
    · cases hconverting
  | converting id k =>
    obtain rfl := Option.some.inj hrun
    refine ⟨tracked_replace h hi (fun _ _ hexp => hexp.elim) (fun _ _ hcolumn => .inl hcolumn) ?_,
      ⟨.idle, new_replace hi _, rfl⟩, pooled_set h.pooled⟩
    rintro id' k' (hmem | hconverting)
    · exact mem_append_left _ hmem
    · cases hconverting
      exact mem_append_right _ (mem_singleton.mpr rfl)

/-- **A step that leaves a thread free keeps the invariant.** -/
theorem Inv.step (h : Inv s) {a : Action V} (hok : spare s a = true)
    (ha : step keep s a = some s') : Inv s' := by
  cases a with
  | arrive u =>
    obtain rfl := Option.some.inj ha
    refine ⟨?_, h.free, h.pooled⟩
    intro t ht id k hexp
    rcases h.tracked t ht id k hexp with hcolumn | hrest
    · exact .inl (mem_append_left _ hcolumn)
    · exact .inr hrest
  | take i =>
    obtain ⟨task, rest, hi, hqueue, rfl⟩ := take_cases ha
    have hready : ∀ id k, (id, k) ∈ s.ready ∨ (.idle : Thread V) = .converting id k →
        (id, k) ∈ s.ready := by
      rintro id k (hmem | hconverting)
      · exact hmem
      · cases hconverting
    cases task with
    | update id u =>
      have hbegin : begin_ s (.update id u) = .submitting id u 0 := if_pos h.pooled
      have hfree : ∃ t ∈ s.threads.set i (begin_ s (.update id u)), held s.ready t = false := by
        simpa [spare, hqueue] using hok
      refine ⟨tracked_replace h hi ?_ ?_ hready, hfree, pooled_set h.pooled⟩
      · rw [hbegin]
        rintro id' k ⟨-, hk⟩
        cases hk
      · intro id' k hcolumn
        rw [hqueue] at hcolumn
        rcases mem_cons.mp hcolumn with hcolumn | hcolumn
        · cases hcolumn
        · exact .inl hcolumn
    | column id k =>
      refine ⟨tracked_replace h hi (fun _ _ hexp => hexp.elim) ?_ hready,
        ⟨.converting id k, new_replace hi _, rfl⟩, pooled_set h.pooled⟩
      intro id' k' hcolumn
      rw [hqueue] at hcolumn
      rcases mem_cons.mp hcolumn with hcolumn | hcolumn
      · cases hcolumn
        exact .inr rfl
      · exact .inl hcolumn
  | run i =>
    obtain ⟨t, hi, hrun⟩ := run_cases ha
    exact h.runThread hi hrun

/-! ## 3. Going on -/

/-- A thread with something to do goes on, or waits for a column that is not ready. -/
theorem run_or_waits {t : Thread V} (hi : s.threads[i]? = some t) (ht : t ≠ .idle) :
    (∃ s', step keep s (.run i) = some s') ∨
      ∃ id u k b, t = .emitting id u k b ∧ k < u.columns.length ∧ (id, k) ∉ s.ready := by
  have hstep : step keep s (.run i) = runThread keep s i t := by
    simp only [step, hi]
  rw [hstep]
  cases t with
  | idle => exact absurd rfl ht
  | submitting id u m =>
    rw [Pool.runThread]
    split
    · exact .inl ⟨_, rfl⟩
    · exact .inl ⟨_, rfl⟩
  | marking id u => exact .inl ⟨_, rfl⟩
  | converting id k => exact .inl ⟨_, rfl⟩
  | emitting id u k b =>
    rw [Pool.runThread]
    cases hcolumn : u.columns[k]? with
    | none => exact .inl ⟨_, rfl⟩
    | some result =>
      by_cases hready : (id, k) ∈ s.ready
      · exact .inl ⟨_, if_neg fun h => h.2 hready⟩
      · exact .inr ⟨id, u, k, b, rfl, (List.getElem?_eq_some_iff.mp hcolumn).1, hready⟩

theorem not_waits_of_free {id k : Nat} {b : Batching V}
    (h : held ready (.emitting id u k b) = false) (hk : k < u.columns.length) :
    (id, k) ∈ ready := by
  simp only [held, any_eq_false, mem_range, Bool.and_eq_true, decide_eq_true_eq, not_and,
    Bool.not_eq_true', Bool.not_eq_false, contains_iff_mem] at h
  exact h k hk (Nat.le_refl k)

/-- **The invariant says that the pool goes on.** -/
theorem Inv.progress (h : Inv s) : Progress keep s where
  notStuck := by
    intro hall
    obtain ⟨t, ht, hfree⟩ := h.free
    obtain ⟨id, u, k, b, rfl, hk, hready, -⟩ := hall t ht
    exact hready (not_waits_of_free hfree hk)
  goesOn := by
    intro hwork
    obtain ⟨t, ht, hfree⟩ := h.free
    obtain ⟨i, hi⟩ := List.getElem?_of_mem ht
    by_cases hidle : t = .idle
    · subst hidle
      cases hqueue : s.queue with
      | cons task rest =>
        exact ⟨i, { s with threads := s.threads.set i (begin_ s task), queue := rest },
          .inl (by simp only [Pool.step, hi, hqueue])⟩
      | nil =>
        obtain ⟨t, ht, hne⟩ := hwork.resolve_left (fun h => h hqueue)
        obtain ⟨j, hj⟩ := List.getElem?_of_mem ht
        rcases run_or_waits hj hne with ⟨s', hs'⟩ | ⟨id, u, k, b, rfl, hk, hready⟩
        · exact ⟨j, s', .inr hs'⟩
        · -- the queue is empty, so the column is with a thread, which goes on
          rcases h.tracked _ ht id k ⟨rfl, hk⟩ with hcolumn | hconverting | hmem
          · rw [hqueue] at hcolumn
            cases hcolumn
          · obtain ⟨j, hj⟩ := List.getElem?_of_mem hconverting
            exact ⟨j, { s with threads := s.threads.set j .idle, ready := s.ready ++ [(id, k)] },
              .inr (by simp only [Pool.step, hj, Pool.runThread])⟩
          · exact absurd hmem hready
    · rcases run_or_waits hi hidle with ⟨s', hs'⟩ | ⟨id, u, k, b, rfl, hk, hready⟩
      · exact ⟨i, s', .inr hs'⟩
      · exact absurd (not_waits_of_free hfree hk) hready

/-! ## 4. Every run -/

theorem inv_started {threadPoolSize : Nat} (h : 2 ≤ threadPoolSize) :
    Inv (started V threadPoolSize) where
  tracked t ht id k hexp := by
    rw [eq_of_mem_replicate ht] at hexp
    exact hexp.elim
  free := ⟨.idle, mem_replicate.mpr ⟨by omega, rfl⟩, rfl⟩
  pooled := by
    rw [State.pooled, started, length_replicate]
    exact decide_eq_true h

/-- **A pool of two threads or more never stands still, in every run in which no update takes the
last free thread**, that is, the last one not held by an update with columns to wait for.
`progress_fails` is a pool of two threads and two updates. -/
theorem progress_of_spare (keep : DataBatch V → Bool) {threadPoolSize : Nat}
    (hsize : 2 ≤ threadPoolSize) {s : State V}
    (hrun : Runs (step keep) (fun s a => spare s a = true) (started V threadPoolSize) s) :
    Progress keep s := by
  have hinv : Inv s := hrun.keeps (fun _ _ _ h hok ha => h.step hok ha) (inv_started hsize)
  exact hinv.progress

/-- An update with a column. -/
def sampleUpdate : TableUpdate Nat where
  pvName := "T"
  cfg := { busBatchSize := 0 }
  columns := [some [{ timestamps := [⟨10, 0⟩] }]]

/-- Two updates with a thread each, and a third thread for their columns. -/
def sampleActions : List (Action Nat) :=
  [.arrive sampleUpdate, .arrive sampleUpdate, .take 0, .take 1, .run 0, .run 0, .run 1, .run 1,
    .take 2, .run 2, .take 2, .run 2, .run 0, .run 0, .run 0, .run 1, .run 1, .run 1]

/-- A pool of three threads after these. -/
theorem sampleActions_progress : ∃ s : State Nat,
    exec (step fun _ => true) (fun s a => spare s a = true) (started Nat 3) sampleActions = some s ∧
      s.history.map (fun p => (p.id, p.marker)) = [(0, false), (0, true), (1, false), (1, true)] ∧
      Progress (fun _ => true) s := by
  have hsample : (exec (step fun _ => true) (fun s a => spare s a = true) (started Nat 3)
      sampleActions).map (fun s => s.history.map fun p => (p.id, p.marker)) =
        some [(0, false), (0, true), (1, false), (1, true)] := by
    decide +kernel
  obtain ⟨s, hs, hhistory⟩ := Option.map_eq_some_iff.mp hsample
  exact ⟨s, hs, hhistory, progress_of_spare _ (by decide) (Runs.of_exec _ hs)⟩

/-- Both updates take a thread at once. -/
def stuckActions : List (Action Nat) :=
  [.arrive sampleUpdate, .arrive sampleUpdate, .take 0, .take 1, .run 0, .run 0, .run 1, .run 1]

/-- The two threads wait for the two columns in the queue. -/
def stuck : State Nat where
  threads := [.emitting 0 sampleUpdate 0 {}, .emitting 1 sampleUpdate 0 {}]
  queue := [.column 0 0, .column 1 0]
  nextId := 2

/-- **Two updates stop a pool of two threads for ever.** -/
theorem progress_fails : ∃ s : State Nat,
    Runs (step fun _ => true) anyStep (started Nat 2) s ∧ s.queue ≠ [] ∧
      (∀ t ∈ s.threads, WaitsForQueued s t) ∧
      (∀ i, step (fun _ => true) s (.take i) = none ∧ step (fun _ => true) s (.run i) = none) := by
  have hexec : exec (step fun _ => true) anyStep (started Nat 2) stuckActions = some stuck := rfl
  refine ⟨stuck, Runs.of_exec _ hexec, nofun, ?_, ?_⟩
  · intro t ht
    rcases mem_pair.mp ht with rfl | rfl
    · exact ⟨0, sampleUpdate, 0, {}, rfl, by decide, nofun, .head _⟩
    · exact ⟨1, sampleUpdate, 0, {}, rfl, by decide, nofun, .tail _ (.head _)⟩
  · intro i
    match i with
    | 0 => exact ⟨rfl, rfl⟩
    | 1 => exact ⟨rfl, rfl⟩
    | _ + 2 => exact ⟨rfl, rfl⟩

end MldpDriver.Reader.Pool
