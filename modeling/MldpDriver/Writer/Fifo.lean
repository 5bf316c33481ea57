/-
# Every run of the queued writer is first in, first out

`Flow` is what holds of EVERY run of the queued writer, the ones that lose items included: a worker
processes the items of its channel in the order they were appended, and no item is appended twice.
What `stop()` destroys with the channel list is the `lost` part.
-/
import Mathlib.Data.List.Nodup
import MldpDriver.Lib.Tagged
import MldpDriver.Writer.Drain

namespace MldpDriver.Writer

open Lib.Run Lib.Tagged List

variable {Batch Item : Type} {setup : Setup Item} {s : State Batch Item}

/-! ## 1. The invariant

What was enqueued in a channel is, in this order, processed, in the hand of its worker, queued, or
lost with the channel list.  It holds in every run, timely or not. -/

/-- The invariant of all runs. -/
structure Flow (s : State Batch Item) : Prop where
  flow : ∀ c, ∃ lost, onTag c (enqueued s.history) = onTag c (processed s.history) ++
    (hand s.workers[c]? ++ queued s.channels c ++ lost).map (c, ·) ∧ (s.channels ≠ [] → lost = [])
  fresh : ∀ q ∈ s.pushes, q.pc = .entered → q.sent = 0
  tickets : ∀ x ∈ enqueued s.history, ∃ q, s.pushes[x.2.push]? = some q ∧
    x.2.index < q.sent ∧ q.items[x.2.index]? = some x.2.item
  names : ((enqueued s.history).map (·.2.name)).Nodup

theorem flow_started (cfg : QueueConfig) : Flow (started cfg : State Batch Item) where
  flow := by
    intro c
    refine ⟨[], ?_, fun _ => rfl⟩
    rw [queued_started, hand_started]
    rfl
  fresh := by simp [started]
  tickets := by simp [started, enqueued]
  names := by simp [started, enqueued]

/-! ## 2. Steps of push() -/

variable {s' : State Batch Item}

theorem Flow.setPush (h : Flow s) {p : Nat} {q q' : Push Batch Item} (hq : s.pushes[p]? = some q)
    (hpushes : s'.pushes = s.pushes.set p q') (hhist : s'.history = s.history)
    (hwork : s'.workers = s.workers) (hchan : s'.channels = s.channels) (hsent : q'.sent = q.sent)
    (hitems : q'.items = q.items ∨ q.sent = 0) (hfresh : q'.pc = .entered → q'.sent = 0) :
    Flow s' where
  flow := by
    rw [hhist, hwork, hchan]
    exact h.flow
  fresh := by
    intro x hx
    rw [hpushes] at hx
    rcases mem_set_pushes hx with rfl | hx'
    · exact hfresh
    · exact h.fresh x hx'
  tickets := by
    intro x hx
    obtain ⟨r, hr, hlt, hitem⟩ := h.tickets x (hhist ▸ hx)
    rw [hpushes, List.getElem?_set]
    by_cases hp : p = x.2.push
    · have hplt : p < s.pushes.length := (List.getElem?_eq_some_iff.mp hq).1
      rw [← hp, hq, Option.some.injEq] at hr
      subst hr
      rcases hitems with hi | hz
      · exact ⟨q', by rw [if_pos hp, if_pos hplt], hsent ▸ hlt, hi ▸ hitem⟩
      · rw [hz] at hlt
        exact absurd hlt (Nat.not_lt_zero _)
    · exact ⟨r, by rw [if_neg hp]; exact hr, hlt, hitem⟩
  names := by
    rw [hhist]
    exact h.names

variable {q : Push Batch Item}

theorem Flow.enter (h : Flow s) (hsent : q.sent = 0) :
    Flow { s with pushes := s.pushes ++ [q] } where
  flow := h.flow
  fresh := by
    intro x hx
    rcases mem_append.mp hx with hx | hx
    · exact h.fresh x hx
    · rw [mem_singleton.mp hx]
      exact fun _ => hsent
  tickets := by
    intro x hx
    obtain ⟨r, hr, hrest⟩ := h.tickets x hx
    have hlt := (List.getElem?_eq_some_iff.mp hr).1
    exact ⟨r, (List.getElem?_append_left hlt).trans hr, hrest⟩
  names := h.names

/-- **The append.** The new ticket has a name of its own. -/
theorem Flow.append (h : Flow s) {p idx : Nat} {ch : WorkerChannel Item} {item : Item}
    (hq : s.pushes[p]? = some q) (hch : s.channels[idx]? = some ch)
    (hitem : q.items[q.sent]? = some item) :
    Flow { s.setPush p { q with pc := .appended idx, sent := q.sent + 1 } with
      channels := s.channels.set idx { ch with items := ch.items ++ [⟨p, q.sent, item⟩] }
      history := s.history ++ [.enqueued idx ⟨p, q.sent, item⟩] } where
  flow := by
    intro c
    have hne : s.channels ≠ [] := fun he => by simp [he] at hch
    obtain ⟨lost, hflow, hlost⟩ := h.flow c
    rw [hlost hne, append_nil] at hflow
    refine ⟨[], ?_, fun _ => rfl⟩
    rw [append_nil]
    exact flow_append _ hch hflow
  fresh := by
    intro x hx
    rcases mem_set_pushes hx with rfl | hx'
    · exact fun he => by cases he
    · exact h.fresh x hx'
  tickets := by
    intro x hx
    have hp : p < s.pushes.length := (List.getElem?_eq_some_iff.mp hq).1
    simp only [State.setPush, List.getElem?_set]
    rw [enqueued_append, enqueued_enqueued, mem_append, mem_singleton] at hx
    rcases hx with hx | rfl
    · obtain ⟨r, hr, hlt, hit⟩ := h.tickets x hx
      by_cases hpx : p = x.2.push
      · rw [← hpx, hq, Option.some.injEq] at hr
        subst hr
        exact ⟨{ q with pc := .appended idx, sent := q.sent + 1 }, by rw [if_pos hpx, if_pos hp],
          Nat.lt_succ_of_lt hlt, hit⟩
      · exact ⟨r, by rw [if_neg hpx]; exact hr, hlt, hit⟩
    · exact ⟨{ q with pc := .appended idx, sent := q.sent + 1 }, by rw [if_pos rfl, if_pos hp],
        Nat.lt_succ_self _, hitem⟩
  names := by
    refine nodup_append h.names fun x hx hname => ?_
    obtain ⟨r, hr, hlt, -⟩ := h.tickets x hx
    simp only [Ticket.name, Prod.mk.injEq] at hname
    rw [hname.1, hq, Option.some.injEq] at hr
    subst hr
    exact absurd hname.2 (Nat.ne_of_lt hlt)

/-! ## 3. Steps of the workers and of stop() -/

variable {x : Worker Item}

/-- **A worker moves on.** `done` is what it hands to `processItem` in this step. -/
theorem Flow.worker (h : Flow s) (x' : Worker Item) (done : List (Ticket Item)) {w : Nat}
    (hx : s.workers[w]? = some x) (hpushes : s'.pushes = s.pushes)
    (hwork : s'.workers = s.workers.set w x')
    (hhist : s'.history = s.history ++ done.map (.processed w))
    (hnil : s'.channels = [] ↔ s.channels = []) (hflow : hand (some x) ++ queued s.channels w =
      done ++ (hand (some x') ++ queued s'.channels w))
    (hother : ∀ c, c ≠ w → queued s'.channels c = queued s.channels c) : Flow s' := by
  have henq : enqueued s'.history = enqueued s.history := hhist ▸ enqueued_done s.history w done
  refine ⟨fun c => ?_, ?_, ?_, ?_⟩
  · obtain ⟨lost, hold, hlost⟩ := h.flow c
    refine ⟨lost, ?_, fun hne => hlost (fun he => hne (hnil.mpr he))⟩
    rw [hhist, hwork]
    exact flow_worker hx hold hflow hother
  · rw [hpushes]; exact h.fresh
  · rw [hpushes, henq]; exact h.tickets
  · rw [henq]; exact h.names

theorem Flow.workerNext (h : Flow s) {w : Nat} (hx : s.workers[w]? = some x)
    (hs : workerNext setup.cfg s w x = some s') : Flow s' := by
  cases x with
  | exited => simp [Writer.workerNext] at hs
  | taken t =>
    simp only [Writer.workerNext, Option.some.injEq] at hs
    subst hs
    exact h.worker (.processing t) [] hx rfl rfl (append_nil _).symm Iff.rfl
      rfl (fun _ _ => rfl)
  | processing t =>
    simp only [Writer.workerNext, Option.some.injEq] at hs
    subst hs
    exact h.worker .waiting [t] hx rfl rfl rfl Iff.rfl rfl (fun _ _ => rfl)
  | waiting =>
    simp only [Writer.workerNext] at hs
    split at hs
    · cases hs
    · rename_i ch hch
      have hexit : Flow (s.setWorker w .exited) :=
        h.worker .exited [] hx rfl rfl (append_nil _).symm Iff.rfl rfl
          (fun _ _ => rfl)
      split at hs
      · cases hs; exact hexit
      · split at hs
        · split at hs
          · cases hs; exact hexit
          · split at hs
            · cases hs; exact h
            · cases hs
        · rename_i t rest hitems
          cases hs
          exact h.worker (.taken t) [] hx rfl rfl (append_nil _).symm
            (set_eq_nil_iff _ _) (taken_flow hch hitems) (fun c hc => by
              show queued (s.channels.set w _) c = _
              rw [queued_set hch, if_neg hc])

/-- A step of `stop()`: it appends nothing and may destroy the channels. -/
theorem Flow.stopNext (h : Flow s) (hs : stopNext s = some s') :
    Flow s' := by
  unfold Writer.stopNext at hs
  split at hs
  · split at hs
    · cases hs
      exact { h with }
    · cases hs
      exact ⟨by simpa using h.flow, h.fresh, by simpa using h.tickets, by simpa using h.names⟩
  · rename_i i hst
    split at hs
    · rename_i ch hch
      cases hs
      refine { h with flow := fun c => ?_ }
      obtain ⟨lost, hflow, hlost⟩ := h.flow c
      refine ⟨lost, ?_, fun hne => hlost (fun he => hne ((set_eq_nil_iff _ _).mpr he))⟩
      show _ = _ ++ (_ ++ queued (s.channels.set i _) c ++ _).map _
      rw [queued_shutdown hch]
      exact hflow
    · split at hs
      · cases hs
        refine { h with flow := fun c => ?_ }
        obtain ⟨lost, hflow, -⟩ := h.flow c
        exact ⟨queued s.channels c ++ lost, by simpa [queued] using hflow, fun hne => absurd rfl hne⟩
      · cases hs
  · cases hs
    exact ⟨by simpa using h.flow, h.fresh, by simpa using h.tickets, by simpa using h.names⟩
  · cases hs

/-! ## 4. All steps -/

theorem Flow.pushNext (h : Flow s) {p : Nat} (hq : s.pushes[p]? = some q)
    (hs : pushNext setup s p q = some s') : Flow s' := by
  unfold Writer.pushNext at hs
  split at hs
  · cases hs
  · split at hs
    · cases hs
      exact h.setPush hq rfl rfl rfl rfl rfl (Or.inl rfl) (by rintro ⟨⟩)
    · cases hs
  · split at hs
    all_goals
      cases hs
      exact h.setPush hq rfl rfl rfl rfl rfl (Or.inl rfl) (by rintro ⟨⟩)
  · split at hs
    · cases hs
    · split at hs
      · cases hs
        exact { h with }
      · cases hs
        exact h.setPush hq rfl rfl rfl rfl rfl (Or.inl rfl) (by rintro ⟨⟩)
  · split at hs
    · rename_i ch item hch hitem
      cases hs
      exact h.append hq hch hitem
    · cases hs
      exact { h with }
    · cases hs
  · split at hs
    · cases hs
      exact h.setPush hq rfl rfl rfl rfl rfl (Or.inl rfl) (by rintro ⟨⟩)
    · cases hs
      exact { h with }
  · cases hs
    refine h.setPush hq rfl rfl rfl rfl rfl (Or.inl rfl) ?_
    split
    · rintro ⟨⟩
    · rintro ⟨⟩
  · cases hs

variable {a : Action Batch Item}

/-- **The step lemma.** Every step keeps the flow. -/
theorem Flow.step (h : Flow s) (hs : step setup s a = some s') :
    Flow s' := by
  cases stepMove_of_step hs with
  | entered batch => exact h.enter rfl
  | refused hq hpc _ => exact h.setPush hq rfl rfl rfl rfl rfl (Or.inl rfl) (by rintro ⟨⟩)
  | ready hq hpc _ =>
    have hzero := h.fresh _ (mem_of_getElem? hq) hpc
    exact h.setPush hq rfl rfl rfl rfl rfl (Or.inr hzero) (by rintro ⟨⟩)
  | timedOut hq _ => exact h.setPush hq rfl rfl rfl rfl rfl (Or.inl rfl) (by rintro ⟨⟩)
  | pushed hq hnext => exact h.pushNext hq hnext
  | worked hx hnext => exact h.workerNext hx hnext
  | stopped hnext => exact h.stopNext hnext
  | forced => exact { h with }

/-! ## 5. What the flow says of the workers -/

/-- What a worker has processed and what it holds is the beginning of what its channel received. -/
theorem Flow.begins (h : Flow s) (w : Nat) :
    onTag w (processed s.history) ++ (hand s.workers[w]?).map (w, ·) <+:
      onTag w (enqueued s.history) := by
  obtain ⟨lost, hflow, -⟩ := h.flow w
  rw [hflow, map_append, map_append, append_assoc, ← append_assoc]
  exact prefix_append _ _

theorem Flow.same (h : Flow s) {x y : Nat × Ticket Item} (hx : x ∈ enqueued s.history)
    (hy : y ∈ enqueued s.history) (hname : x.2.name = y.2.name) : x = y :=
  inj_on_of_nodup_map h.names hx hy hname

/-! ## 6. What a step does to the workers -/

/-- A step of the queued writer that moves no worker. -/
structure Aside (s s' : State Batch Item) : Prop where
  workers : s'.workers = s.workers
  processed : processed s'.history = processed s.history
  stopper : s'.stopper = .cleared → s.stopper = .cleared ∨ ∀ x ∈ s.workers, x = .exited

theorem aside_pushNext {p : Nat} (hs : Writer.pushNext setup s p q = some s') : Aside s s' := by
  unfold Writer.pushNext at hs
  repeat' split at hs
  all_goals first | cases hs; exact ⟨rfl, by simp [State.setPush], Or.inl⟩ | cases hs

theorem aside_stopNext (hs : Writer.stopNext s = some s') : Aside s s' := by
  unfold Writer.stopNext at hs
  split at hs
  · split at hs
    all_goals
      cases hs
      exact ⟨rfl, by simp, by rintro ⟨⟩⟩
  · split at hs
    · cases hs
      exact ⟨rfl, rfl, by rintro ⟨⟩⟩
    · split at hs
      · rename_i hall
        cases hs
        refine ⟨rfl, rfl, fun _ => Or.inr fun x hx => ?_⟩
        have := all_eq_true.mp hall x hx
        cases x <;> simp_all
      · cases hs
  · cases hs
    exact ⟨rfl, by simp, by rintro ⟨⟩⟩
  · cases hs

theorem aside_step (ha : ∀ w, a ≠ .worker w) (hs : Writer.step setup s a = some s') :
    Aside s s' := by
  cases stepMove_of_step hs with
  | pushed _ hnext => exact aside_pushNext hnext
  | @worked w _ _ _ _ => exact absurd rfl (ha w)
  | stopped hnext => exact aside_stopNext hnext
  | _ => exact ⟨rfl, rfl, Or.inl⟩

theorem worker_step {w : Nat} (hx : s.workers[w]? = some x)
    (hs : Writer.step setup s (.worker w) = some s') :
    Writer.workerNext setup.cfg s w x = some s' := by
  cases stepMove_of_step hs with
  | worked hx' hnext =>
    obtain rfl := Option.some.inj (hx.symm.trans hx')
    exact hnext

theorem workerNext_others {cfg : QueueConfig} {w : Nat} (hx : ∀ t, x ≠ .processing t)
    (hs : Writer.workerNext cfg s w x = some s') :
    (∀ v, v ≠ w → s'.workers[v]? = s.workers[v]?) ∧
      processed s'.history = processed s.history ∧ s'.stopper = s.stopper := by
  cases x with
  | processing t => exact absurd rfl (hx t)
  | exited => cases hs
  | taken t =>
    cases hs
    exact ⟨fun v hv => List.getElem?_set_ne (Ne.symm hv), rfl, rfl⟩
  | waiting =>
    simp only [Writer.workerNext] at hs
    repeat' split at hs
    all_goals
      first
      | cases hs; exact ⟨fun v hv => List.getElem?_set_ne (Ne.symm hv), rfl, rfl⟩
      | cases hs; exact ⟨fun v hv => rfl, rfl, rfl⟩
      | cases hs

theorem step_workers_length (hs : step setup s a = some s') :
    s'.workers.length = s.workers.length := by
  cases a with
  | worker w =>
    cases stepMove_of_step hs with
    | @worked w x _ _ hnext =>
      cases x with
      | processing t => cases hnext; exact length_set ..
      | taken t => cases hnext; exact length_set ..
      | exited => cases hnext
      | waiting =>
        simp only [workerNext] at hnext
        repeat' split at hnext
        all_goals first | cases hnext; simp [State.setWorker] | cases hnext
  | _ => rw [(aside_step (by simp) hs).workers]

end MldpDriver.Writer
