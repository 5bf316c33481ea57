/-
# When the `AllUpdated` trigger fires

The trigger should fire when every source has delivered a frame since the last reset: every
configured one or, if none is, every one that has delivered at all.  The buffer compares NUMBERS:
those of the fresh sources and of the configured names, in which a name may be repeated, or of the
sources seen, of which some may only have sent payloads without frames.  -/
import Mathlib.Data.List.Induction
import Mathlib.Data.List.Nodup
import Mathlib.Data.List.Perm.Subperm
import MldpDriver.Processor.SlotSamples

namespace MldpDriver.Processor

open Bus Lib.Directory List

variable {V : Type}

/-! ## 1. What happened since -/

/-- Something happened since the last event that makes it undone. -/
def since {E : Type} (undone happens : E → Bool) (events : List E) : Bool :=
  events.foldl (fun x e => !undone e && (x || happens e)) false

def isReset : BufferEvent V → Bool
  | .resetFreshFlags | .clear => true
  | _ => false

def isClear : BufferEvent V → Bool
  | .clear => true
  | _ => false

/-- A source delivers a frame. -/
def delivers (b : InputBuffer V) (source : String) : BufferEvent V → Bool
  | .ingest s payload => decide (s = source) && b.accepts s && !payload.frames.isEmpty
  | _ => false

/-- A source is heard of. -/
def heard (source : String) : BufferEvent V → Bool
  | .ingest s _ => decide (s = source)
  | _ => false

/-- The sources that the trigger waits for. -/
def Waited (b : InputBuffer V) (events : List (BufferEvent V)) (source : String) : Prop :=
  if b.requiredSources.isEmpty then since isClear (delivers b source) events = true
  else source ∈ b.requiredSources

def Delivered (b : InputBuffer V) (events : List (BufferEvent V)) (source : String) : Prop :=
  since isReset (delivers b source) events

/-- There is a snapshot after the events. -/
def Fires (b : InputBuffer V) (events : List (BufferEvent V)) : Prop :=
  ((events.foldl .after b).trySnapshot .allUpdated).isSome

/-- **The trigger fires exactly when it should.** -/
def Right (b : InputBuffer V) (events : List (BufferEvent V)) : Prop :=
  Fires b events ↔ ∀ source, Waited b events source → Delivered b events source

/-- **It fires once every configured source delivers**, whatever was before.  `Right` is about one
state; this is about what can still happen after any. -/
def Live (b : InputBuffer V) : Prop :=
  ∀ events more, (∀ e ∈ more, isReset e = false) →
    (∀ source ∈ b.requiredSources, ∃ e ∈ more, delivers b source e) → Fires b (events ++ more)

/-! ## 2. The fresh sources and the seen ones -/

section Since

variable {E : Type} {undone happens : E → Bool}

theorem since_snoc (events : List E) (e : E) :
    since undone happens (events ++ [e]) =
      (!undone e && (since undone happens events || happens e)) := by
  rw [since, foldl_append]
  rfl

theorem exists_of_since {events : List E} (h : since undone happens events) :
    ∃ e ∈ events, happens e := by
  induction events using List.reverseRecOn with
  | nil => cases h
  | append_singleton events e ih =>
    rw [since_snoc, Bool.and_eq_true, Bool.or_eq_true] at h
    rcases h.2 with h | h
    · obtain ⟨e', hmem, he'⟩ := ih h
      exact ⟨e', mem_append_left _ hmem, he'⟩
    · exact ⟨e, by simp, h⟩

theorem since_mono {undone' happens' : E → Bool} (hundone : ∀ e, undone' e → undone e)
    (hhappens : ∀ e, happens e → happens' e) {events : List E} (h : since undone happens events) :
    since undone' happens' events := by
  induction events using List.reverseRecOn with
  | nil => cases h
  | append_singleton events e ih =>
    rw [since_snoc, Bool.and_eq_true, Bool.or_eq_true, Bool.not_eq_true'] at h ⊢
    refine ⟨?_, h.2.imp ih (hhappens e)⟩
    by_contra hne
    rw [hundone e (by simpa using hne)] at h
    cases h.1

theorem since_append {events more : List E} (hquiet : ∀ e ∈ more, undone e = false)
    (h : ∃ e ∈ more, happens e) : since undone happens (events ++ more) := by
  induction more using List.reverseRecOn with
  | nil => simp at h
  | append_singleton more e ih =>
    rw [← append_assoc, since_snoc, hquiet e (by simp), Bool.not_false, Bool.true_and,
      Bool.or_eq_true]
    obtain ⟨e', hmem, he'⟩ := h
    rcases mem_append.mp hmem with hmem | hmem
    · exact .inl (ih (fun e he => hquiet e (by simp [he])) ⟨e', hmem, he'⟩)
    · obtain rfl := mem_singleton.mp hmem
      exact .inr he'

end Since

/-- **What the buffer keeps of the events.** -/
structure Tracks (b₀ b : InputBuffer V) (events : List (BufferEvent V)) : Prop where
  requiredSources : b.requiredSources = b₀.requiredSources
  freshOnce : b.fresh.Nodup
  fresh : ∀ source, source ∈ b.fresh ↔ since isReset (delivers b₀ source) events
  seenOnce : b.seenSources.Nodup
  seen : b₀.requiredSources.isEmpty →
    ∀ source, source ∈ b.seenSources ↔ since isClear (heard source) events

theorem store_tracked (b : InputBuffer V) (source : String) (frames : List (DataBatch V))
    (last : DataBatch V) : (b.store source frames last).requiredSources = b.requiredSources ∧
      (b.store source frames last).fresh = b.fresh ∧
      (b.store source frames last).seenSources = b.seenSources := by
  rw [InputBuffer.store]
  split
  · exact ⟨rfl, rfl, rfl⟩
  · induction frames generalizing b with
    | nil => exact ⟨rfl, rfl, rfl⟩
    | cons frame frames ih => exact ih (b.addFrame source frame) (by assumption)

theorem Tracks.ingest {b₀ b : InputBuffer V} {events : List (BufferEvent V)} (source : String)
    (payload : TimeSeriesPayload V) (h : Tracks b₀ b events) :
    Tracks b₀ (b.ingest source payload) (events ++ [.ingest source payload]) := by
  have haccepts : b.accepts source = b₀.accepts source := by
    rw [InputBuffer.accepts, InputBuffer.accepts, h.requiredSources]
  have hsee : (b.see source).requiredSources = b₀.requiredSources ∧
      (b.see source).fresh = b.fresh ∧ (b.see source).seenSources.Nodup ∧
      (b₀.requiredSources.isEmpty → ∀ s, s ∈ (b.see source).seenSources ↔
        since isClear (heard s) (events ++ [.ingest source payload])) := by
    rw [InputBuffer.see, h.requiredSources]
    split
    · next hopen =>
      refine ⟨rfl, rfl, h.seenOnce.insert, fun _ s => ?_⟩
      rw [mem_insert_iff, h.seen hopen, since_snoc]
      simp only [isClear, heard, Bool.not_false, Bool.true_and, Bool.or_eq_true, decide_eq_true_eq]
      exact or_comm.trans (or_congr Iff.rfl eq_comm)
    · next hclosed => exact ⟨h.requiredSources, rfl, h.seenOnce, fun hopen => absurd hopen hclosed⟩
  obtain ⟨hrequired, hfresh, honce, hseen⟩ := hsee
  rw [ingest_eq]
  split
  · next hacc =>
    cases hlast : payload.frames.getLast? with
    | none =>
      refine ⟨hrequired, hfresh ▸ h.freshOnce, fun s => ?_, honce, hseen⟩
      rw [hfresh, h.fresh, since_snoc]
      simp [isReset, delivers, List.getLast?_eq_none_iff.mp hlast]
    | some last =>
      obtain ⟨hr, hf, hs⟩ := store_tracked (b.see source) source payload.frames last
      refine ⟨hr.trans hrequired, ?_, fun s => ?_, hs ▸ honce, hs ▸ hseen⟩
      · dsimp only
        rw [hf, hfresh]
        exact h.freshOnce.insert
      · have hne : payload.frames.isEmpty = false := by
          cases hframes : payload.frames with
          | nil => simp [hframes] at hlast
          | cons => rfl
        dsimp only
        rw [hf, hfresh, mem_insert_iff, h.fresh, since_snoc]
        simp only [isReset, delivers, hne, ← haccepts, hacc, Bool.not_false, Bool.true_and,
          Bool.and_true, Bool.or_eq_true, decide_eq_true_eq]
        exact or_comm.trans (or_congr Iff.rfl eq_comm)
  · next hacc =>
    refine ⟨h.requiredSources, h.freshOnce, fun s => ?_, h.seenOnce, fun hopen => ?_⟩
    · rw [h.fresh, since_snoc]
      simp [isReset, delivers, ← haccepts, hacc]
    · rw [haccepts, InputBuffer.accepts, hopen] at hacc
      exact absurd rfl hacc

theorem tracks (b : InputBuffer V) (hnew : b.Empty) (events : List (BufferEvent V)) :
    Tracks b (events.foldl .after b) events := by
  induction events using List.reverseRecOn with
  | nil =>
    refine ⟨rfl, ?_, fun s => ?_, ?_, fun _ s => ?_⟩
    all_goals simp [hnew.fresh, hnew.seenSources, since]
  | append_singleton events e ih =>
    rw [foldl_append]
    cases e with
    | ingest source payload => exact ih.ingest source payload
    | snapshot trigger =>
      refine ⟨ih.requiredSources, ih.freshOnce, fun s => ?_, ih.seenOnce, fun hopen s => ?_⟩
      · refine (ih.fresh s).trans ?_
        rw [since_snoc]
        simp [isReset, delivers]
      · refine (ih.seen hopen s).trans ?_
        rw [since_snoc]
        simp [isClear, heard]
    | resetFreshFlags =>
      refine ⟨ih.requiredSources, nodup_nil, fun s => ?_, ih.seenOnce, fun hopen s => ?_⟩
      · rw [since_snoc]
        simp [isReset, InputBuffer.after, InputBuffer.resetFreshFlags]
      · refine (ih.seen hopen s).trans ?_
        rw [since_snoc]
        simp [isClear, heard]
    | clear =>
      refine ⟨ih.requiredSources, nodup_nil, fun s => ?_, nodup_nil, fun hopen s => ?_⟩
      · rw [since_snoc]
        simp [isReset, InputBuffer.after, InputBuffer.clear]
      · rw [since_snoc]
        simp [isClear, InputBuffer.after, InputBuffer.clear]

/-! ## 3. The trigger -/

/-- Names of which each is there once are as many as others among which they are exactly if these
are the same, each once. -/
theorem length_eq_iff {α : Type} {a b : List α} (ha : a.Nodup) (hsub : a ⊆ b) :
    a.length = b.length ↔ b.Nodup ∧ b ⊆ a := by
  constructor
  · intro hlength
    have hperm := (subperm_of_subset ha hsub).perm_of_length_le (Nat.le_of_eq hlength.symm)
    exact ⟨hperm.nodup_iff.mp ha, hperm.symm.subset⟩
  · rintro ⟨hb, hback⟩
    exact (((perm_ext_iff_of_nodup ha hb).mpr fun x => ⟨@hsub x, @hback x⟩)).length_eq

variable {b : InputBuffer V} {events : List (BufferEvent V)}

/-- **What the numbers say.** -/
theorem fires_iff (hnew : b.Empty) : Fires b events ↔
    if b.requiredSources.isEmpty then
      ∀ source, since isClear (heard source) events → Delivered b events source
    else b.requiredSources.Nodup ∧ ∀ source ∈ b.requiredSources, Delivered b events source := by
  have h := tracks b hnew events
  rw [Fires, InputBuffer.trySnapshot, h.requiredSources]
  simp only [true_and]
  by_cases hopen : b.requiredSources.isEmpty
  · have hsub : (events.foldl .after b).fresh ⊆ (events.foldl .after b).seenSources := by
      intro s hs
      refine (h.seen hopen s).mpr (since_mono (fun e he => ?_) (fun e he => ?_) ((h.fresh s).mp hs))
      · cases e <;> simp_all [isClear, isReset]
      · cases e <;> simp_all [delivers, heard]
    have hcount := length_eq_iff h.freshOnce hsub
    rw [if_pos hopen, if_pos hopen]
    split
    · next hne =>
      exact iff_of_false (by simp) fun hall => hne (hcount.mpr ⟨h.seenOnce, fun s hs =>
        (h.fresh s).mpr (hall s ((h.seen hopen s).mp hs))⟩)
    · next heq =>
      refine iff_of_true rfl fun s hs => (h.fresh s).mp ?_
      exact (hcount.mp (not_not.mp heq)).2 ((h.seen hopen s).mpr hs)
  · have hsub : (events.foldl .after b).fresh ⊆ b.requiredSources := by
      intro s hs
      obtain ⟨e, -, he⟩ := exists_of_since ((h.fresh s).mp hs)
      cases e with
      | ingest source payload =>
        rw [delivers, Bool.and_eq_true, Bool.and_eq_true, decide_eq_true_eq, InputBuffer.accepts,
          Bool.or_eq_true] at he
        exact he.1.1 ▸ contains_iff_mem.mp (he.1.2.resolve_left hopen)
      | snapshot => cases he
      | resetFreshFlags => cases he
      | clear => cases he
    have hcount := length_eq_iff h.freshOnce hsub
    rw [if_neg hopen, if_neg hopen]
    split
    · next hne =>
      exact iff_of_false (by simp) fun hall =>
        hne (hcount.mpr ⟨hall.1, fun s hs => (h.fresh s).mpr (hall.2 s hs)⟩)
    · next heq =>
      obtain ⟨hnodup, hall⟩ := hcount.mp (not_not.mp heq)
      exact iff_of_true rfl ⟨hnodup, fun s hs => (h.fresh s).mp (hall hs)⟩

theorem ever_of_delivered {source : String} (h : Delivered b events source) :
    since isClear (delivers b source) events := by
  refine since_mono (fun e he => ?_) (fun _ he => he) h
  cases e <;> simp_all [isClear, isReset]

/-- **Where the numbers tell the truth**: no name is configured twice or some source is still
missing; without configured sources, every source heard of has delivered or one that has is
missing. -/
def Matched (b : InputBuffer V) (events : List (BufferEvent V)) : Prop :=
  if b.requiredSources.isEmpty then
    (∀ source, since isClear (heard source) events → since isClear (delivers b source) events) ∨
      ∃ source, since isClear (delivers b source) events ∧ ¬ Delivered b events source
  else b.requiredSources.Nodup ∨ ∃ source ∈ b.requiredSources, ¬ Delivered b events source

theorem right_iff (hnew : b.Empty) (events : List (BufferEvent V)) :
    Right b events ↔ Matched b events := by
  rw [Right, fires_iff hnew, Matched]
  simp only [Waited]
  split
  · constructor
    · intro hright
      by_cases hall : ∀ source, since isClear (delivers b source) events → Delivered b events source
      · exact .inl fun source hheard => ever_of_delivered (hright.mpr hall source hheard)
      · push Not at hall
        exact .inr hall
    · rintro (hheard | ⟨source, hever, hmissing⟩)
      · refine ⟨fun hall source hever => hall source ?_, fun hall source h =>
          hall source (hheard source h)⟩
        refine since_mono (fun _ he => he) (fun e he => ?_) hever
        cases e <;> simp_all [delivers, heard]
      · refine iff_of_false (fun hall => hmissing (hall source ?_)) fun hall =>
          hmissing (hall source hever)
        refine since_mono (fun _ he => he) (fun e he => ?_) hever
        cases e <;> simp_all [delivers, heard]
  · constructor
    · intro hright
      by_cases hall : ∀ source ∈ b.requiredSources, Delivered b events source
      · exact .inl (hright.mpr hall).1
      · push Not at hall
        exact .inr hall
    · rintro (hnodup | ⟨source, hmem, hmissing⟩)
      · exact and_iff_right hnodup
      · exact iff_of_false (fun hall => hmissing (hall.2 source hmem)) fun hall =>
          hmissing (hall source hmem)

theorem live_iff (hnew : b.Empty) (hclosed : b.requiredSources.isEmpty = false) :
    Live b ↔ b.requiredSources.Nodup := by
  constructor
  · intro hlive
    have hfires := hlive [] (b.requiredSources.map fun s =>
        .ingest s { rootSourceName := s, frames := [{ timestamps := [] }] })
      (fun e he => by
        obtain ⟨s, -, rfl⟩ := mem_map.mp he
        rfl)
      fun s hs => ⟨_, mem_map_of_mem hs, by
        simp [delivers, InputBuffer.accepts, hs]⟩
    rw [fires_iff hnew, hclosed] at hfires
    exact hfires.1
  · intro hnodup events more hquiet hall
    rw [fires_iff hnew, hclosed]
    exact ⟨hnodup, fun source hs => since_append hquiet (hall source hs)⟩

/-- **The trigger fires when it should exactly in the states in which the numbers tell the truth**,
and with configured sources it always fires again exactly if none is there twice.  A name that is
configured twice counts twice, but only one source of it can be fresh, so it never fires. -/
theorem trigger_right_iff (hnew : b.Empty) :
    (∀ events, Right b events ↔ Matched b events) ∧
      (b.requiredSources.isEmpty = false → (Live b ↔ b.requiredSources.Nodup)) :=
  ⟨right_iff hnew, live_iff hnew⟩

/-- A buffer for the sources. -/
def waitingFor (sources : List String) : InputBuffer Nat where
  requiredSources := sources
  alignment := .allUpdated

theorem twoSources_live : (∀ events, Right (waitingFor ["a", "b"]) events) ∧
    Live (waitingFor ["a", "b"]) := by
  have h := trigger_right_iff (b := waitingFor ["a", "b"]) ⟨rfl, rfl, rfl⟩
  have hnodup : (waitingFor ["a", "b"]).requiredSources.Nodup := by decide
  refine ⟨fun events => (h.1 events).mpr ?_, (h.2 rfl).mpr hnodup⟩
  rw [Matched, if_neg (by decide)]
  exact .inl hnodup

def oneFrame : BufferEvent Nat :=
  .ingest "a" { rootSourceName := "a", frames := [{ timestamps := [⟨1, 0⟩] }] }

/-- **A name twice**: its source delivers, and the trigger does not fire. -/
theorem nameTwice_not_right : ¬ Right (waitingFor ["a", "a"]) [oneFrame] := by
  intro h
  have hall : ∀ source, Waited (waitingFor ["a", "a"]) [oneFrame] source →
      Delivered (waitingFor ["a", "a"]) [oneFrame] source := by
    intro source hsource
    obtain rfl : source = "a" := by simpa [Waited, waitingFor] using hsource
    rfl
  have hfires := h.mpr hall
  rw [Fires] at hfires
  exact absurd hfires (by decide)

end MldpDriver.Processor
