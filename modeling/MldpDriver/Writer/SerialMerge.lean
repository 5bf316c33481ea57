/-
# Updates of one PV that are merged one after another

The invariant of runs whose steps are `inTurn`: the saved updates of a PV are the first ones of the
accepted, the service holds what they make of its record, and a worker that has fetched holds the
next update and what is stored now.  Two workers never hold the same update (`Flow.same`), so a save
finds nothing fetched for its PV elsewhere.
-/
import MldpDriver.Lib.Directory
import MldpDriver.Writer.Fifo
import MldpDriver.Writer.MLDPPVMetadataWriter

namespace MldpDriver.Writer.PvMetadata

open Lib.Run Lib.Replace Lib.Tagged List

/-! ## 1. The next of a list -/

/-- **The first entry that a beginning of the list lacks comes right after it.** -/
theorem snoc_prefix_of_find {α : Type} [DecidableEq α] {done all : List α} {t : α}
    (hpre : done <+: all) (hnd : all.Nodup)
    (h : all.find? (fun x => decide (x ∉ done)) = some t) : done ++ [t] <+: all := by
  obtain ⟨rest, rfl⟩ := hpre
  have hskip : done.find? (fun x => decide (x ∉ done)) = none :=
    List.find?_eq_none.mpr fun x hx => by simpa using hx
  rw [List.find?_append, hskip, Option.none_or] at h
  cases rest with
  | nil => cases h
  | cons y rest =>
    have hy : y ∉ done := fun hy =>
      (List.nodup_append.mp hnd).2.2 y hy y (mem_cons_self ..) rfl
    rw [List.find?_cons_of_pos (by simpa using hy)] at h
    obtain rfl := Option.some.inj h
    exact ⟨rest, by simp⟩

theorem eq_of_prefix {α : Type} {done all : List α} (hpre : done <+: all) (hnd : all.Nodup)
    (h : ∀ x ∈ all, x ∈ done) : done = all := by
  obtain ⟨rest, rfl⟩ := hpre
  cases rest with
  | nil => exact (append_nil _).symm
  | cons y rest =>
    have hy : y ∈ done ++ y :: rest := mem_append_right _ (mem_cons_self ..)
    exact absurd rfl ((List.nodup_append.mp hnd).2.2 y (h y hy) y (mem_cons_self ..))

theorem lookup_savePvMetadata (store : List (String × Record)) (pv : String) (r : Record)
    (x : String) :
    (savePvMetadata store pv r).lookup x = if x = pv then some r else store.lookup x :=
  Lib.Directory.lookup_put store pv r x

/-! ## 2. What the queue does -/

variable {Batch Item : Type} {setup' : Setup Item} {q q' : Writer.State Batch Item}

theorem enqueued_step {a : Writer.Action Batch Item} (hs : Writer.step setup' q a = some q') :
    enqueued q'.history = enqueued q.history ∨
      q.channels ≠ [] ∧ ∃ x, enqueued q'.history = enqueued q.history ++ [x] := by
  cases stepMove_of_step hs with
  | @pushed p x _ hx hnext =>
    cases pushMove_of_pushNext hnext with
    | appended idx hpc ch item hch hitem =>
      refine .inr ⟨fun hnil => ?_, (idx, ⟨p, x.sent, item⟩), by simp⟩
      rw [hnil] at hch
      cases hch
    | _ => exact .inl rfl
  | worked hx hnext =>
    cases workerMove_of_workerNext hnext with
    | done t => exact .inl (by simp)
    | _ => exact .inl rfl
  | stopped hnext =>
    simp only [Writer.stopNext] at hnext
    repeat' split at hnext
    all_goals first | cases hnext; exact .inl (by simp) | cases hnext
  | _ => exact .inl rfl

/-- Only `stop()` destroys the queues, when every worker has exited. -/
theorem channels_step {a : Writer.Action Batch Item} (hs : Writer.step setup' q a = some q')
    (hne : q.channels ≠ []) (hnil : q'.channels = []) :
    a = .stop ∧ clearing q = true ∧ q'.history = q.history ∧ q'.workers = q.workers ∧
      ∀ x ∈ q.workers, x = .exited := by
  cases stepMove_of_step hs with
  | pushed hx hnext =>
    cases pushMove_of_pushNext hnext with
    | appended idx hpc ch item hch hitem => exact absurd ((set_eq_nil_iff _ _).mp hnil) hne
    | _ => exact absurd hnil hne
  | worked hx hnext =>
    cases workerMove_of_workerNext hnext with
    | took ch hch t rest hitems => exact absurd ((set_eq_nil_iff _ _).mp hnil) hne
    | _ => exact absurd hnil hne
  | stopped hnext =>
    simp only [Writer.stopNext] at hnext
    split at hnext
    · split at hnext <;> cases hnext <;> exact absurd hnil hne
    · rename_i i hat
      split at hnext
      · cases hnext
        exact absurd ((set_eq_nil_iff _ _).mp hnil) hne
      · rename_i hend
        split at hnext
        · rename_i hall
          cases hnext
          refine ⟨rfl, ?_, rfl, rfl, fun x hx => ?_⟩
          · simpa [clearing, hat] using hend
          · have := all_eq_true.mp hall x hx
            cases x <;> simp_all
        · cases hnext
    · cases hnext
      exact absurd hnil hne
    · cases hnext
  | _ => exact absurd hnil hne

variable {writer : Writer.State BatchPayload WorkItem}
variable {a : Writer.Action BatchPayload WorkItem}

/-- A step of the queue by which no worker returns from `processItem`. -/
theorem aside_of_step {env : Env} {s : State} (hquiet : inProcess s a = false)
    (hs : Writer.step (setup env) s.writer a = some writer) :
    processed writer.history = processed s.writer.history ∧
      ∀ (v : Nat) (t : Ticket WorkItem), s.writer.workers[v]? = some (.processing t) →
        writer.workers[v]? = some (.processing t) := by
  by_cases ha : ∃ w, a = .worker w
  · obtain ⟨w, rfl⟩ := ha
    cases hw : s.writer.workers[w]? with
    | none =>
      have hf := step_of_noFault hs
      simp [Writer.step, hf, hw] at hs
    | some x =>
      have hx : ∀ t, x ≠ .processing t := by
        rintro t rfl
        simp [inProcess, hw] at hquiet
      obtain ⟨hothers, hproc, -⟩ := workerNext_others hx (worker_step hw hs)
      refine ⟨hproc, fun v t hv => ?_⟩
      rw [hothers v ?_]
      · exact hv
      · rintro rfl
        exact hx t (Option.some.inj (hw.symm.trans hv))
  · have haside := aside_step (fun w hw => ha ⟨w, hw⟩) hs
    exact ⟨haside.processed, fun v t hv => by rw [haside.workers]; exact hv⟩

/-! ## 3. The invariant

`fetched` carries the argument: what a worker has fetched is still stored when it saves, as it
holds the next update of the PV and nobody else does. -/

/-- The invariant of runs in turn. -/
structure Inv (env : Env) (store : List (String × Record)) (s : State) : Prop where
  flow : Flow s.writer
  exited : s.writer.channels = [] → ∀ x ∈ s.writer.workers, x = .exited
  whole : s.writer.channels = [] →
    ∀ c, onTag c (enqueued s.writer.history) = onTag c (processed s.writer.history)
  order : ∀ pv, saved s pv <+: accepted s pv
  stored : ∀ pv, s.store.lookup pv =
    applied env (store.lookup pv) ((saved s pv).map (·.item.2))
  fetched : ∀ (w : Nat) (existing : Option Record), s.fetched[w]? = some (some existing) →
    ∃ t, s.writer.workers[w]? = some (.processing t) ∧ existing = s.store.lookup t.item.1 ∧
      saved s t.item.1 ++ [t] <+: accepted s t.item.1

variable {env : Env} {store : List (String × Record)} {s s' : State}

theorem inv_started (env : Env) (store : List (String × Record)) :
    Inv env store (started env store) where
  flow := flow_started _
  exited := fun h => by
    have := congrArg List.length h
    simp only [started, Writer.started, length_replicate, length_nil] at this
    exact absurd this (Nat.ne_of_gt (QueueConfig.channelCount_pos _))
  whole := fun _ _ => rfl
  order := fun _ => prefix_refl _
  stored := fun _ => rfl
  fetched := fun w existing hw => by
    simp only [started, List.getElem?_replicate] at hw
    split at hw <;> cases hw

theorem Inv.accepted_nodup (h : Inv env store s) (pv : String) : (accepted s pv).Nodup := by
  have hnames : (((enqueued s.writer.history).map (·.2)).map Ticket.name).Nodup := by
    rw [map_map]
    exact h.flow.names
  exact (List.Nodup.of_map _ hnames).filter _

theorem updatesOf_append (pv : String) (l : List (Nat × Ticket WorkItem)) (w : Nat)
    (t : Ticket WorkItem) :
    updatesOf pv (l ++ [(w, t)]) =
      updatesOf pv l ++ if t.item.1 = pv then [t] else [] := by
  by_cases ht : t.item.1 = pv <;> simp [updatesOf, ht]

variable {t : Ticket WorkItem}

theorem mem_updatesOf {pv : String} {l : List (Nat × Ticket WorkItem)} :
    t ∈ updatesOf pv l ↔ (∃ c, (c, t) ∈ l) ∧ t.item.1 = pv := by
  simp [updatesOf]

theorem Inv.held (h : Inv env store s) {w : Nat} {t : Ticket WorkItem}
    (hw : s.writer.workers[w]? = some (.processing t)) : (w, t) ∈ enqueued s.writer.history := by
  refine (mem_filter.mp ((h.flow.begins w).subset (mem_append_right _ ?_))).1
  simp [hw, hand]

/-! ## 4. Steps -/

/-- **A step of the queue keeps the invariant.** -/
theorem Inv.queue (h : Inv env store s) (hturn : inTurn env s (.writer a) = true)
    (hquiet : inProcess s a = false) (hs : Writer.step (setup env) s.writer a = some writer) :
    Inv env store { s with writer := writer } := by
  obtain ⟨hproc, hkeep⟩ := aside_of_step hquiet hs
  have hgrow : enqueued s.writer.history <+: enqueued writer.history := by
    rcases enqueued_step hs with he | ⟨-, x, he⟩
    · exact he.symm ▸ prefix_refl _
    · exact ⟨[x], he.symm⟩
  have haccepted : ∀ pv, accepted s pv <+: accepted { s with writer := writer } pv := fun pv =>
    (hgrow.map _).filter _
  have hsaved : ∀ pv, saved { s with writer := writer } pv = saved s pv := fun pv =>
    congrArg (updatesOf pv) hproc
  have hdestroyed : s.writer.channels ≠ [] → writer.channels = [] →
      (∀ x ∈ writer.workers, x = .exited) ∧
        ∀ c, onTag c (enqueued writer.history) = onTag c (processed writer.history) := by
    intro hne hnil
    obtain ⟨rfl, hclearing, hhist, hworkers, hall⟩ := channels_step hs hne hnil
    refine ⟨hworkers ▸ hall, fun c => ?_⟩
    obtain ⟨lost, hflow, hlost⟩ := h.flow.flow c
    have hempty : ∀ ch ∈ s.writer.channels, ch.items = [] := by
      simpa [inTurn, hclearing] using hturn
    have hqueued : queued s.writer.channels c = [] := by
      unfold queued
      split
      · exact hempty _ (mem_of_getElem? ‹_›)
      · rfl
    have hhand : hand s.writer.workers[c]? = [] := by
      cases hc : s.writer.workers[c]? with
      | none => rfl
      | some x => rw [hall x (mem_of_getElem? hc)]; rfl
    rw [hhist, hflow, hlost hne, hqueued, hhand]
    simp
  have hgone : s.writer.channels = [] → (∀ x ∈ writer.workers, x = .exited) ∧
      ∀ c, onTag c (enqueued writer.history) = onTag c (processed writer.history) := by
    intro hnil
    have henq : enqueued writer.history = enqueued s.writer.history :=
      (enqueued_step hs).resolve_right fun ⟨hne, _⟩ => hne hnil
    refine ⟨?_, fun c => by rw [henq, hproc]; exact h.whole hnil c⟩
    have hne : ∀ w, a ≠ .worker w := by
      rintro w rfl
      cases hw : s.writer.workers[w]? with
      | none => simp [Writer.step, step_of_noFault hs, hw] at hs
      | some x =>
        rw [h.exited hnil x (mem_of_getElem? hw)] at hw
        simp [Writer.step, step_of_noFault hs, hw, Writer.workerNext] at hs
    rw [(aside_step hne hs).workers]
    exact h.exited hnil
  have hend : writer.channels = [] → _ := fun hnil =>
    (em (s.writer.channels = [])).elim hgone fun hne => hdestroyed hne hnil
  exact
    { flow := h.flow.step hs
      exited := fun hnil => (hend hnil).1
      whole := fun hnil => (hend hnil).2
      order := fun pv => hsaved pv ▸ (h.order pv).trans (haccepted pv)
      stored := fun pv => hsaved pv ▸ h.stored pv
      fetched := fun w existing hw => by
        obtain ⟨t, hat, hexisting, hnext⟩ := h.fetched w existing hw
        exact ⟨t, hkeep w t hat, hexisting, hsaved _ ▸ hnext.trans (haccepted _)⟩ }

/-- **A fetch in turn keeps the invariant.** -/
theorem Inv.fetch (h : Inv env store s) {w : Nat} {answered : Bool}
    (hat : s.writer.workers[w]? = some (.processing t)) (hpending : s.fetched[w]? = some none)
    (hturn : inTurn env s (.fetch w answered) = true) :
    Inv env store { s with
      fetched := s.fetched.set w (some (fetchExisting env s.store t.item.1 answered)) } := by
  simp only [inTurn, hat, Bool.and_eq_true, decide_eq_true_eq] at hturn
  refine { h with fetched := fun v existing hv => ?_ }
  rw [getElem?_replace hpending] at hv
  split at hv
  · rename_i hvw
    subst hvw
    obtain rfl := Option.some.inj (Option.some.inj hv)
    exact ⟨t, hat, hturn.1, snoc_prefix_of_find (h.order _) (h.accepted_nodup _) hturn.2⟩
  · exact h.fetched v existing hv

/-- **A save keeps the invariant.** -/
theorem Inv.save (h : Inv env store s) {w : Nat} {existing : Option Record}
    (hat : s.writer.workers[w]? = some (.processing t))
    (hgot : s.fetched[w]? = some (some existing))
    (hs : Writer.step (setup env) s.writer (.worker w) = some writer) :
    Inv env store
      { writer := writer
        fetched := s.fetched.set w none
        store := savePvMetadata s.store t.item.1 (merge env existing t.item.2) } := by
  obtain ⟨t', hat', rfl, hnext⟩ := h.fetched w existing hgot
  obtain rfl : t = t' := by simpa [hat] using hat'
  have hflow := h.flow.step hs
  cases workerMove_of_step hat hs
  have hopen : s.writer.channels ≠ [] := fun hnil => by
    cases h.exited hnil _ (mem_of_getElem? hat)
  have hsaved : ∀ pv, updatesOf pv (processed (s.writer.history ++ [.processed w t])) =
      saved s pv ++ if t.item.1 = pv then [t] else [] := fun pv => by
    rw [processed_append, processed_processed, updatesOf_append]
    rfl
  have haccepted : ∀ pv, updatesOf pv (enqueued (s.writer.history ++ [.processed w t])) =
      accepted s pv := fun pv => by
    rw [enqueued_append, enqueued_processed, append_nil]
    rfl
  exact
    { flow := hflow
      exited := fun hnil => absurd hnil hopen
      whole := fun hnil => absurd hnil hopen
      order := fun pv => by
        show updatesOf pv (processed _) <+: updatesOf pv (enqueued _)
        rw [hsaved, haccepted]
        split
        · rename_i hpv
          exact hpv ▸ hnext
        · exact (append_nil _).symm ▸ h.order pv
      stored := fun pv => by
        show (savePvMetadata _ _ _).lookup pv = applied env _ ((updatesOf pv (processed _)).map _)
        rw [hsaved, lookup_savePvMetadata]
        by_cases hpv : pv = t.item.1
        · subst hpv
          rw [if_pos rfl, if_pos rfl, h.stored]
          simp [applied]
        · rw [if_neg hpv, if_neg (Ne.symm hpv), append_nil]
          exact h.stored pv
      fetched := fun v existing hv => by
        rw [getElem?_replace hgot] at hv
        split at hv
        · cases hv
        rename_i hvw
        obtain ⟨u, hu, hexisting, hunext⟩ := h.fetched v existing hv
        -- one update is next, and one worker holds it
        have hother : u.item.1 ≠ t.item.1 := fun hpv => by
          rw [hpv] at hunext
          have heq : u = t := by
            obtain ⟨r, hr⟩ := hnext
            obtain ⟨r', hr'⟩ := hunext
            rw [← hr, append_assoc, append_assoc] at hr'
            exact (List.cons.inj (append_cancel_left hr')).1
          exact hvw (congrArg Prod.fst (h.flow.same (h.held hu) (h.held hat) (by rw [heq])))
        refine ⟨u, (List.getElem?_set_ne (Ne.symm hvw)).trans hu, ?_, ?_⟩
        · rw [lookup_savePvMetadata, if_neg hother]
          exact hexisting
        · show updatesOf _ (processed _) ++ _ <+: updatesOf _ (enqueued _)
          rw [hsaved, haccepted, if_neg (Ne.symm hother), append_nil]
          exact hunext }

/-- **A step in turn keeps the invariant.** -/
theorem Inv.step (h : Inv env store s) (a : Action) (hturn : inTurn env s a = true)
    (hs : PvMetadata.step env s a = some s') : Inv env store s' := by
  cases a with
  | writer a =>
    simp only [PvMetadata.step] at hs
    split at hs
    · cases hs
    · rename_i hquiet
      obtain ⟨writer, hw, rfl⟩ := Option.map_eq_some_iff.mp hs
      exact h.queue hturn (Bool.eq_false_iff.mpr hquiet) hw
  | fetch w answered =>
    simp only [PvMetadata.step] at hs
    split at hs
    · rename_i t hat hpending
      obtain rfl := Option.some.inj hs
      exact h.fetch hat hpending hturn
    · cases hs
  | save w stored =>
    simp only [PvMetadata.step] at hs
    split at hs
    · rename_i t existing hat hgot
      obtain ⟨writer, hw, rfl⟩ := Option.map_eq_some_iff.mp hs
      have hyes : stored = true := hturn
      simp only [hyes, if_true]
      exact h.save hat hgot hw
    · cases hs

/-! ## 5. Runs -/

theorem Inv.serial (h : Inv env store s) : Serial env store s := by
  intro pv hsettled
  have hall : saved s pv = accepted s pv := by
    refine eq_of_prefix (h.order pv) (h.accepted_nodup pv) fun t ht => ?_
    obtain ⟨⟨c, hc⟩, hpv⟩ := mem_updatesOf.mp ht
    refine mem_updatesOf.mpr ⟨⟨c, ?_⟩, hpv⟩
    have htag : (c, t) ∈ onTag c (enqueued s.writer.history) :=
      mem_filter.mpr ⟨hc, by simp⟩
    by_cases hnil : s.writer.channels = []
    · rw [h.whole hnil c] at htag
      exact (mem_filter.mp htag).1
    · obtain ⟨lost, hflow, hlost⟩ := h.flow.flow c
      rw [hflow, hlost hnil, append_nil] at htag
      refine (mem_append.mp htag).elim (fun hp => (mem_filter.mp hp).1) fun hq => ?_
      obtain ⟨u, hu, he⟩ := mem_map.mp hq
      obtain rfl : u = t := (Prod.mk.inj he).2
      exact absurd hpv (hsettled c u hu)
  rw [h.stored, hall]

/-- **On runs in turn, the service ends up with every update of each PV, merged in order.** A fetch
must bring what is stored, for the first update of its PV that is not saved yet, and a save must be
applied; the queues of a PV are not one queue, so nothing else keeps two workers apart. -/
theorem serial_of_inTurn (env : Env) (store : List (String × Record)) {s : State}
    (hrun : Runs (step env) (fun s a => inTurn env s a = true) (started env store) s) :
    Serial env store s :=
  (hrun.keeps (fun _ a _ h hok hs => h.step a hok hs) (inv_started env store)).serial

/-- Two workers, and a service that goes by the name. -/
def twoWorkers : Env where
  threadPool := 2
  hash := fun _ => 0
  iterate := id
  getPvMetadata := fun store pv => store.lookup pv

/-- An update with a tag and an attribute. -/
def firstUpdate : SourceMetadataEntry := { tags := some ["first"], attributes := [("a", "1")] }

def secondUpdate : SourceMetadataEntry := { tags := some ["second"], attributes := [("b", "2")] }

/-- A call of `push()` with one update, from entry to return. -/
def pushed (p : Nat) (entry : SourceMetadataEntry) : List Action :=
  [.writer (.enter (.sourceMetadata [("pv", entry)])), .writer (.prepare p [] toItems)] ++
    List.replicate 6 (.writer (.push p))

/-- Both updates are accepted, and each is with a worker. -/
def bothTaken : List Action :=
  pushed 0 firstUpdate ++ pushed 1 secondUpdate ++
    [.writer (.worker 0), .writer (.worker 0), .writer (.worker 1), .writer (.worker 1)]

/-- Both updates are saved, in the order of `events`. -/
def endState (record : Record) (events : List (Event WorkItem)) : State where
  writer :=
    { channels := [{}, {}]
      nextChannel := 2
      pushes :=
        [⟨.returned true, .sourceMetadata [("pv", firstUpdate)], [("pv", firstUpdate)], 1⟩,
          ⟨.returned true, .sourceMetadata [("pv", secondUpdate)], [("pv", secondUpdate)], 1⟩]
      workers := [.waiting, .waiting]
      history := [.enqueued 0 ⟨0, 0, ("pv", firstUpdate)⟩,
        .enqueued 1 ⟨1, 0, ("pv", secondUpdate)⟩] ++ events }
  fetched := [none, none]
  store := [("pv", record)]

def firstSaved : Event WorkItem := .processed 0 ⟨0, 0, ("pv", firstUpdate)⟩

def secondSaved : Event WorkItem := .processed 1 ⟨1, 0, ("pv", secondUpdate)⟩

/-- One after the other. -/
def inTurnActions : List Action :=
  bothTaken ++ [.fetch 0 true, .save 0 true, .fetch 1 true, .save 1 true]

/-- What both updates make of no record. -/
def bothMerged : Record where
  tags := ["second"]
  attributes := [("a", "1"), ("b", "2")]
  description := some ""
  modifiedBy := some ""

theorem serial_of_inTurn_two :
    exec (step twoWorkers) (inTurn twoWorkers · ·) (started twoWorkers []) inTurnActions =
        some (endState bothMerged [firstSaved, secondSaved]) ∧
      Serial twoWorkers [] (endState bothMerged [firstSaved, secondSaved]) := by
  have hrun : exec (step twoWorkers) (inTurn twoWorkers · ·) (started twoWorkers [])
      inTurnActions = some (endState bothMerged [firstSaved, secondSaved]) := by decide +kernel
  exact ⟨hrun, serial_of_inTurn twoWorkers [] (Runs.of_exec _ hrun)⟩

/-! ## 6. Three lost updates

Without the condition an update is lost (`serial_fails`): two workers fetch before either saves, the
later update is saved first, or a fetch fails and the record is taken for absent. -/

/-- Both fetch before either saves. -/
def overlapping : List Action :=
  bothTaken ++ [.fetch 0 true, .fetch 1 true, .save 0 true, .save 1 true]

/-- The second update goes first. -/
def overtaking : List Action :=
  bothTaken ++ [.fetch 1 true, .save 1 true, .fetch 0 true, .save 0 true]

/-- The fetch for the second update fails. -/
def unanswered : List Action :=
  bothTaken ++ [.fetch 0 true, .save 0 true, .fetch 1 false, .save 1 true]

/-- The second update alone. -/
def secondOnly : Record where
  tags := ["second"]
  attributes := [("b", "2")]

/-- Both, with the tag of the first. -/
def reversed : Record where
  tags := ["first"]
  attributes := [("b", "2"), ("a", "1")]
  description := some ""
  modifiedBy := some ""

theorem settled_endState (record : Record) (events : List (Event WorkItem)) (pv : String) :
    Settled (endState record events) pv := by
  intro c t ht
  match c, ht with
  | 0, ht => cases ht
  | 1, ht => cases ht
  | _ + 2, ht => cases ht

/-- **An update is lost without an error, when two fetches overlap or one fails, or the older one
wins.** -/
theorem serial_fails :
    (exec (step twoWorkers) anyStep (started twoWorkers []) overlapping =
        some (endState secondOnly [firstSaved, secondSaved]) ∧
      exec (step twoWorkers) anyStep (started twoWorkers []) unanswered =
        some (endState secondOnly [firstSaved, secondSaved]) ∧
      ¬ Serial twoWorkers [] (endState secondOnly [firstSaved, secondSaved])) ∧
    exec (step twoWorkers) anyStep (started twoWorkers []) overtaking =
        some (endState reversed [secondSaved, firstSaved]) ∧
      ¬ Serial twoWorkers [] (endState reversed [secondSaved, firstSaved]) := by
  refine ⟨⟨by decide +kernel, by decide +kernel, fun h => ?_⟩, by decide +kernel, fun h => ?_⟩
  · have hlost := h "pv" (settled_endState secondOnly [firstSaved, secondSaved] "pv")
    exact absurd hlost (by decide +kernel)
  · have holder := h "pv" (settled_endState reversed [secondSaved, firstSaved] "pv")
    exact absurd holder (by decide +kernel)

end MldpDriver.Writer.PvMetadata
