/-
# The activations of the SLAC calendar

The range of a fetch is walked in windows.  After each window the activations that are pending are
grouped by category and name, and those of a group that touch are merged; the last run of each group
is carried over to the next window, the others are pushed, and after the last window all are.

The times are seconds: the parser leaves the nanoseconds zero.
-/
import Mathlib.Algebra.Order.Field.Rat
import Mathlib.Data.List.Sort
import Mathlib.Tactic.Linarith
import MldpDriver.Lib.KeySplit

namespace MldpDriver.Reader.SlacCalendar

open Lib.KeySplit List

variable {E : Type}

/-! ## 1. Activations -/

/-- `ConfigurationActivationPayload`; the reader always sets the end, and only passes the rest
on. -/
structure Activation (E : Type) where
  configurationName : String
  startTime : Nat
  endTime : Nat
  rest : E
  deriving DecidableEq

structure PendingActivation (E : Type) where
  category : String
  payload : Activation E
  deriving DecidableEq

/-- An event of the calendar: the category is the configured one, or else the name. -/
def pushEvent (category : Option String) (ev : Activation E) : PendingActivation E :=
  { category := category.getD ev.configurationName, payload := ev }

/-- `category + "|" + configuration_name`. -/
def groupKey (a : PendingActivation E) : String :=
  a.category ++ "|" ++ a.payload.configurationName

/-- A pass of the inner loop: the end is moved if the next one ends later. -/
def extend (merged next : PendingActivation E) : PendingActivation E :=
  if merged.payload.endTime < next.payload.endTime then
    { merged with payload := { merged.payload with endTime := next.payload.endTime } }
  else merged

/-- The runs of a group, with the one that is still open. -/
def mergeFrom (merged : PendingActivation E) : List (PendingActivation E) → List (PendingActivation E)
  | [] => [merged]
  | next :: rest =>
    if merged.payload.endTime < next.payload.startTime then merged :: mergeFrom next rest
    else mergeFrom (extend merged next) rest

def startsFirst (a b : PendingActivation E) : Bool :=
  decide (a.payload.startTime ≤ b.payload.startTime)

def mergeRuns (group : List (PendingActivation E)) : List (PendingActivation E) :=
  match group.mergeSort startsFirst with
  | [] => []
  | first :: rest => mergeFrom first rest

/-- The rows of each group.  The groups are in the order of their first rows where the map has an
order of its own; nothing depends on it, as each group is merged and carried over by itself. -/
def groups (pending : List (PendingActivation E)) : List (List (PendingActivation E)) :=
  ((firstRows groupKey pending).map groupKey).map (rowsOf groupKey pending)

/-- `mergeAndPushActivations`: what is pushed, and what is carried over. -/
def mergeAndPushActivations (pending : List (PendingActivation E)) (flushAll : Bool) :
    List (PendingActivation E) × List (PendingActivation E) :=
  ((groups pending).flatMap fun g => if flushAll then mergeRuns g else (mergeRuns g).dropLast,
    (groups pending).flatMap fun g => if flushAll then [] else (mergeRuns g).getLast?.toList)

/-! ## 2. The windows -/

/-- What becomes of a window: its events, an error of the request or of the parser, or a stop. -/
inductive Fetch (E : Type)
  | events (l : List (Activation E))
  | failed
  | stopped

structure Progress (E : Type) where
  pending : List (PendingActivation E) := []
  pushed : List (PendingActivation E) := []

/-- A window, the last one or not. -/
def fetchWindow (category : Option String) (w : Progress E) (isLastWindow : Bool)
    (events : List (Activation E)) : Progress E :=
  let merged := mergeAndPushActivations (w.pending ++ events.map (pushEvent category)) isLastWindow
  { pending := merged.2, pushed := w.pushed ++ merged.1 }

/-- The loop of `fetchAndPublish`; a failure and a stop leave it, and what is pending is gone. -/
def fetchAndPublish (category : Option String) (w : Progress E) : List (Fetch E) → Progress E
  | [] => w
  | .events l :: windows =>
    fetchAndPublish category (fetchWindow category w windows.isEmpty l) windows
  | _ :: _ => { w with pending := [] }

/-- The activations that were fetched. -/
def fetched (category : Option String) : List (Fetch E) → List (PendingActivation E)
  | .events l :: windows => l.map (pushEvent category) ++ fetched category windows
  | [] | .failed :: _ | .stopped :: _ => []

/-! ## 3. What the reader is for -/

/-- A moment of an activation, both ends included. -/
def Has (a : PendingActivation E) (t : ℚ) : Prop :=
  (a.payload.startTime : ℚ) ≤ t ∧ t ≤ (a.payload.endTime : ℚ)

def Covered (l : List (PendingActivation E)) (t : ℚ) : Prop := ∃ a ∈ l, Has a t

/-- They overlap or touch. -/
def Meets (a b : PendingActivation E) : Prop := ∃ t, Has a t ∧ Has b t

def pairOf (a : PendingActivation E) : String × String := (a.category, a.payload.configurationName)

/-- **Of each category and name separate spans are pushed, which cover what was fetched.** -/
def Published (fetched pushed : List (PendingActivation E)) : Prop :=
  ∀ pair, (rowsOf pairOf pushed pair).Pairwise (fun a b => ¬ Meets a b) ∧
    ∀ t, Covered (rowsOf pairOf pushed pair) t ↔ Covered (rowsOf pairOf fetched pair) t

/-- **What a window must be like**: it does not fail while something is pending, and no activation
of it meets what is already pushed for its category and name. -/
def Admits (category : Option String) (w : Progress E) : Fetch E → Prop
  | .events l => ∀ ev ∈ l, ∀ p ∈ w.pushed,
      pairOf p = pairOf (pushEvent category ev) → ¬ Meets (pushEvent category ev) p
  | _ => w.pending = []

def AdmitsAll (category : Option String) (w : Progress E) : List (Fetch E) → Prop
  | [] => True
  | .events l :: windows => Admits category w (.events l) ∧
      AdmitsAll category (fetchWindow category w windows.isEmpty l) windows
  | fetch :: _ => Admits category w fetch

/-! ## 4. Merging -/

theorem has_extend {merged next : PendingActivation E} {t : ℚ}
    (hstart : merged.payload.startTime ≤ next.payload.startTime)
    (htouch : ¬ merged.payload.endTime < next.payload.startTime) :
    Has (extend merged next) t ↔ Has merged t ∨ Has next t := by
  have hs : (merged.payload.startTime : ℚ) ≤ next.payload.startTime := Nat.cast_le.mpr hstart
  have ht : (next.payload.startTime : ℚ) ≤ merged.payload.endTime :=
    Nat.cast_le.mpr (Nat.not_lt.mp htouch)
  rw [extend]
  split
  · next hlt =>
    have he : (merged.payload.endTime : ℚ) ≤ next.payload.endTime := Nat.cast_le.mpr hlt.le
    simp only [Has]
    constructor
    · rintro ⟨hlo, hhi⟩
      rcases le_total t (merged.payload.endTime : ℚ) with h | h
      · exact .inl ⟨hlo, h⟩
      · exact .inr ⟨ht.trans h, hhi⟩
    · rintro (⟨hlo, hhi⟩ | ⟨hlo, hhi⟩)
      · exact ⟨hlo, hhi.trans he⟩
      · exact ⟨hs.trans hlo, hhi⟩
  · next hle =>
    have he : (next.payload.endTime : ℚ) ≤ merged.payload.endTime :=
      Nat.cast_le.mpr (Nat.not_lt.mp hle)
    refine ⟨.inl, fun h => h.elim id fun h => ⟨hs.trans h.1, h.2.trans he⟩⟩

/-- A list in the order of the starts. -/
abbrev ByStart (l : List (PendingActivation E)) : Prop :=
  l.Pairwise fun a b => a.payload.startTime ≤ b.payload.startTime

@[simp] theorem extend_start (merged next : PendingActivation E) :
    (extend merged next).payload.startTime = merged.payload.startTime := by
  rw [extend]
  split <;> rfl

@[simp] theorem extend_pair (merged next : PendingActivation E) :
    pairOf (extend merged next) = pairOf merged := by
  rw [extend]
  split <;> rfl

theorem ByStart.extend {merged next : PendingActivation E} {rest : List (PendingActivation E)}
    (h : ByStart (merged :: next :: rest)) : ByStart (extend merged next :: rest) := by
  obtain ⟨hmerged, hrest⟩ := pairwise_cons.mp h
  refine pairwise_cons.mpr ⟨fun a ha => ?_, hrest.tail⟩
  rw [extend_start]
  exact hmerged a (mem_cons_of_mem _ ha)

theorem covered_cons {a : PendingActivation E} {l : List (PendingActivation E)} {t : ℚ} :
    Covered (a :: l) t ↔ Has a t ∨ Covered l t := by
  simp [Covered]

theorem covered_append {l m : List (PendingActivation E)} {t : ℚ} :
    Covered (l ++ m) t ↔ Covered l t ∨ Covered m t := by
  simp [Covered, or_and_right, exists_or]

/-- **The runs of a group**: they cover the group, one after another, with its category and name. -/
theorem mergeFrom_spec (merged : PendingActivation E) {rest : List (PendingActivation E)}
    (h : ByStart (merged :: rest)) :
    (∀ t, Covered (mergeFrom merged rest) t ↔ Covered (merged :: rest) t) ∧
      (∀ a ∈ mergeFrom merged rest, merged.payload.startTime ≤ a.payload.startTime) ∧
      (mergeFrom merged rest).Pairwise (fun a b => a.payload.endTime < b.payload.startTime) ∧
      ∀ pair, (∀ a ∈ merged :: rest, pairOf a = pair) →
        ∀ a ∈ mergeFrom merged rest, pairOf a = pair := by
  induction rest generalizing merged with
  | nil => exact ⟨fun _ => Iff.rfl, by simp [mergeFrom], pairwise_singleton _ _, fun _ h => h⟩
  | cons next rest ih =>
    have hle := (pairwise_cons.mp h).1 next mem_cons_self
    rw [mergeFrom]
    split
    · next hlt =>
      obtain ⟨hcovered, hstart, hapart, hpair⟩ := ih next h.tail
      refine ⟨fun t => ?_, fun a ha => ?_, pairwise_cons.mpr ⟨fun a ha => ?_, hapart⟩, ?_⟩
      · rw [covered_cons, hcovered, ← covered_cons]
      · rcases mem_cons.mp ha with rfl | ha
        · exact le_refl _
        · exact hle.trans (hstart a ha)
      · exact lt_of_lt_of_le hlt (hstart a ha)
      · intro pair hall a ha
        rcases mem_cons.mp ha with rfl | ha
        · exact hall _ mem_cons_self
        · exact hpair pair (fun b hb => hall b (mem_cons_of_mem _ hb)) a ha
    · next htouch =>
      obtain ⟨hcovered, hstart, hapart, hpair⟩ := ih (extend merged next) h.extend
      refine ⟨fun t => ?_, fun a ha => ?_, hapart, fun pair hall => hpair pair fun a ha => ?_⟩
      · rw [hcovered, covered_cons, covered_cons, covered_cons, has_extend hle htouch, or_assoc]
      · rw [← extend_start merged next]
        exact hstart a ha
      · rcases mem_cons.mp ha with rfl | ha
        · rw [extend_pair]
          exact hall _ mem_cons_self
        · exact hall a (by simp [ha])

@[simp] theorem mergeRuns_nil : mergeRuns ([] : List (PendingActivation E)) = [] := by
  rw [mergeRuns, mergeSort_nil]

theorem mergeRuns_spec (group : List (PendingActivation E)) :
    (∀ t, Covered (mergeRuns group) t ↔ Covered group t) ∧
      (mergeRuns group).Pairwise (fun a b => ¬ Meets a b) ∧
      ∀ pair, (∀ a ∈ group, pairOf a = pair) → ∀ a ∈ mergeRuns group, pairOf a = pair := by
  have hperm := mergeSort_perm group startsFirst
  have hsorted : ByStart (group.mergeSort startsFirst) := by
    refine (@pairwise_mergeSort _ startsFirst ?_ ?_ group).imp fun h => of_decide_eq_true h
    · intro a b c hab hbc
      exact decide_eq_true ((of_decide_eq_true hab).trans (of_decide_eq_true hbc))
    · intro a b
      simpa [startsFirst] using Nat.le_total _ _
  have hsame : ∀ t, Covered (group.mergeSort startsFirst) t ↔ Covered group t := fun t => by
    simp only [Covered, hperm.mem_iff]
  rw [mergeRuns]
  split
  · next hnil =>
    rw [hnil] at hsame
    exact ⟨hsame, List.Pairwise.nil, by simp⟩
  · next first rest heq =>
    rw [heq] at hsorted hsame hperm
    obtain ⟨hcovered, -, hapart, hpair⟩ := mergeFrom_spec first hsorted
    refine ⟨fun t => (hcovered t).trans (hsame t), hapart.imp fun hlt => ?_, fun pair hall =>
      hpair pair fun a ha => hall a (hperm.mem_iff.mp ha)⟩
    rintro ⟨t, ha, hb⟩
    have := Nat.cast_le.mp (ha.2.ge.trans' hb.1 : (_ : ℚ) ≤ _)
    omega

/-! ## 5. A window -/

/-- The category is the one that `pushEvent` gives. -/
def Filed (category : Option String) (a : PendingActivation E) : Prop :=
  a.category = category.getD a.payload.configurationName

theorem groupKey_iff {category : Option String} {a b : PendingActivation E} (ha : Filed category a)
    (hb : Filed category b) : groupKey a = groupKey b ↔ pairOf a = pairOf b := by
  refine ⟨fun h => ?_, fun h => ?_⟩
  · rw [groupKey, groupKey, ha, hb] at h
    have hname : a.payload.configurationName = b.payload.configurationName := by
      cases category with
      | some c => simpa using h
      | none =>
        have hlist := congrArg String.toList h
        simp only [Option.getD_none, String.toList_append] at hlist
        have hlength := congrArg List.length hlist
        simp only [length_append] at hlength
        exact String.toList_inj.mp (append_inj_right' hlist (by omega))
    rw [pairOf, pairOf, ha, hb, hname]
  · obtain ⟨hcategory, hname⟩ := Prod.mk.inj h
    rw [groupKey, groupKey, hcategory, hname]

theorem groups_eq {category : Option String} {pending : List (PendingActivation E)}
    (h : ∀ a ∈ pending, Filed category a) :
    groups pending = ((firstRows pairOf pending).map pairOf).map (rowsOf pairOf pending) := by
  have hiff : ∀ a ∈ pending, ∀ b ∈ pending, (groupKey a = groupKey b ↔ pairOf a = pairOf b) :=
    fun a ha b hb => groupKey_iff (h a ha) (h b hb)
  rw [groups, firstRows_congr hiff, map_map, map_map]
  refine map_congr_left fun a ha => filter_congr fun b hb => ?_
  simp only [hiff b hb a ((firstRows_sublist pending).subset ha)]

variable {category : Option String} {w : Progress E} {pending got : List (PendingActivation E)}

/-- **What is pushed and carried over of a category and name are the runs of its group.** -/
theorem mergeAndPush_rows (h : ∀ a ∈ pending, Filed category a) (flushAll : Bool)
    (pair : String × String) :
    rowsOf pairOf (mergeAndPushActivations pending flushAll).1 pair ++
        rowsOf pairOf (mergeAndPushActivations pending flushAll).2 pair =
      mergeRuns (rowsOf pairOf pending pair) := by
  have hruns : ∀ (g : List (PendingActivation E)) k, (∀ a ∈ g, pairOf a = k) →
      ∀ a ∈ mergeRuns g, pairOf a = k := fun g => (mergeRuns_spec g).2.2
  rw [mergeAndPushActivations, groups_eq h, rowsOf_flatMap, rowsOf_flatMap]
  · cases flushAll with
    | true => exact append_nil _
    | false =>
      simp only [Bool.false_eq_true, if_false]
      cases hlast : (mergeRuns (rowsOf pairOf pending pair)).getLast? with
      | none => simp [List.getLast?_eq_none_iff.mp hlast]
      | some a => exact dropLast_append_getLast? a hlast
  · cases flushAll <;> simp
  · intro g k hg a ha
    cases flushAll with
    | true => exact absurd ha not_mem_nil
    | false => exact hruns g k hg a (mem_of_getLast? (Option.mem_toList.mp ha))
  · cases flushAll <;> simp
  · intro g k hg a ha
    cases flushAll with
    | true => exact hruns g k hg a ha
    | false => exact hruns g k hg a (dropLast_subset _ ha)

theorem carried_nil : (mergeAndPushActivations pending true).2 = [] := by
  simp [mergeAndPushActivations]

/-- **What holds between two windows.** -/
structure Sound (category : Option String) (w : Progress E) (got : List (PendingActivation E)) :
    Prop where
  filed : ∀ a ∈ w.pending, Filed category a
  apart : ∀ pair, (rowsOf pairOf w.pushed pair).Pairwise fun a b => ¬ Meets a b
  free : ∀ a ∈ w.pending, ∀ p ∈ w.pushed, pairOf p = pairOf a → ¬ Meets a p
  covered : ∀ pair t, Covered (rowsOf pairOf w.pushed pair ++ rowsOf pairOf w.pending pair) t ↔
    Covered (rowsOf pairOf got pair) t

theorem mem_rowsOf {l : List (PendingActivation E)} {a : PendingActivation E}
    {pair : String × String} : a ∈ rowsOf pairOf l pair ↔ a ∈ l ∧ pairOf a = pair := by
  rw [rowsOf, mem_filter, decide_eq_true_eq]

theorem Sound.window (h : Sound category w got) {l : List (Activation E)}
    (hadmits : Admits category w (.events l)) (isLastWindow : Bool) :
    Sound category (fetchWindow category w isLastWindow l) (got ++ l.map (pushEvent category)) := by
  obtain ⟨P, hP⟩ : ∃ P, P = w.pending ++ l.map (pushEvent category) := ⟨_, rfl⟩
  have hfiled : ∀ a ∈ P, Filed category a := by
    intro a ha
    rw [hP] at ha
    rcases mem_append.mp ha with ha | ha
    · exact h.filed a ha
    · obtain ⟨ev, -, rfl⟩ := mem_map.mp ha
      rfl
  have hfree : ∀ a ∈ P, ∀ p ∈ w.pushed, pairOf p = pairOf a → ¬ Meets a p := by
    intro a ha
    rw [hP] at ha
    rcases mem_append.mp ha with ha | ha
    · exact h.free a ha
    · obtain ⟨ev, hev, rfl⟩ := mem_map.mp ha
      exact hadmits ev hev
  have hrows := mergeAndPush_rows hfiled isLastWindow
  have hspec := fun pair => mergeRuns_spec (rowsOf pairOf P pair)
  -- a run lies within the activations of its group
  have hwithin : ∀ pair, ∀ a ∈ mergeRuns (rowsOf pairOf P pair), ∀ t, Has a t →
      ∃ b ∈ P, pairOf b = pair ∧ Has b t := by
    intro pair a ha t ht
    obtain ⟨b, hb, hbt⟩ := ((hspec pair).1 t).mp ⟨a, ha, ht⟩
    exact ⟨b, (mem_rowsOf.mp hb).1, (mem_rowsOf.mp hb).2, hbt⟩
  have hapart : ∀ pair, ∀ a ∈ mergeRuns (rowsOf pairOf P pair), ∀ p ∈ rowsOf pairOf w.pushed pair,
      ¬ Meets a p := by
    rintro pair a ha p hp ⟨t, hat, hpt⟩
    obtain ⟨hp, hpair⟩ := mem_rowsOf.mp hp
    obtain ⟨b, hb, hbpair, hbt⟩ := hwithin pair a ha t hat
    exact hfree b hb p hp (hpair.trans hbpair.symm) ⟨t, hbt, hpt⟩
  rw [fetchWindow, ← hP]
  obtain ⟨⟨pushed, carried⟩, hmerged⟩ : ∃ m, m = mergeAndPushActivations P isLastWindow := ⟨_, rfl⟩
  rw [← hmerged] at hrows ⊢
  have hmem : ∀ a ∈ pushed ++ carried, a ∈ mergeRuns (rowsOf pairOf P (pairOf a)) := by
    intro a ha
    rw [← hrows, ← rowsOf_append]
    exact mem_rowsOf.mpr ⟨ha, rfl⟩
  have hpairwise := fun pair => (hrows pair).symm ▸ (hspec pair).2.1
  refine ⟨fun a ha => ?_, fun pair => ?_, fun a ha p hp hpair => ?_, fun pair t => ?_⟩
  · have hrun := hmem a (mem_append_right _ ha)
    obtain ⟨b, hb⟩ : ∃ b, b ∈ rowsOf pairOf P (pairOf a) := by
      refine exists_mem_of_ne_nil _ fun hnil => ?_
      rw [hnil, mergeRuns_nil] at hrun
      exact absurd hrun not_mem_nil
    obtain ⟨hb, hbpair⟩ := mem_rowsOf.mp hb
    obtain ⟨hcategory, hname⟩ := Prod.mk.inj hbpair
    rw [Filed, ← hcategory, ← hname]
    exact hfiled b hb
  · rw [rowsOf_append]
    refine pairwise_append.mpr ⟨h.apart pair, (pairwise_append.mp (hpairwise pair)).1,
      fun p hp a ha hmeets => ?_⟩
    obtain ⟨t, hpt, hat⟩ := hmeets
    refine hapart pair a ?_ p hp ⟨t, hat, hpt⟩
    rw [← hrows]
    exact mem_append_left _ ha
  · rcases mem_append.mp hp with hp | hp
    · exact hapart _ a (hmem a (mem_append_right _ ha)) p (mem_rowsOf.mpr ⟨hp, hpair⟩)
    · rintro ⟨t, hat, hpt⟩
      exact (pairwise_append.mp (hpairwise (pairOf a))).2.2 p (mem_rowsOf.mpr ⟨hp, hpair⟩) a
        (mem_rowsOf.mpr ⟨ha, rfl⟩) ⟨t, hpt, hat⟩
  · rw [rowsOf_append, append_assoc, hrows, covered_append, (hspec pair).1, hP, rowsOf_append,
      rowsOf_append, covered_append, covered_append, ← or_assoc, ← covered_append, h.covered]

/-- **Separate spans that cover what was fetched**, in every run whose windows are as they must be:
no fetch fails once something is pending, which is lost then, and no activation meets what an
earlier window has pushed for its category and name, which cannot be merged with it any more. -/
theorem published {windows : List (Fetch E)} (h : AdmitsAll category {} windows) :
    Published (fetched category windows) (fetchAndPublish category {} windows).pushed := by
  suffices hrun : ∀ w got, Sound category w got → (windows = [] → w.pending = []) →
      AdmitsAll category w windows →
      Published (got ++ fetched category windows) (fetchAndPublish category w windows).pushed from
    hrun {} [] ⟨by simp, fun _ => List.Pairwise.nil, by simp, fun _ _ => Iff.rfl⟩ (fun _ => rfl) h
  clear h
  have hdone : ∀ (w : Progress E) got, Sound category w got → w.pending = [] →
      Published got w.pushed := by
    intro w got hw hpending pair
    refine ⟨hw.apart pair, fun t => ?_⟩
    rw [← hw.covered, hpending]
    exact iff_of_eq (congrArg (Covered · t) (append_nil _).symm)
  induction windows with
  | nil =>
    intro w got hw hpending _
    rw [fetched, append_nil]
    exact hdone w got hw (hpending rfl)
  | cons fetch windows ih =>
    intro w got hw _ hadmits
    cases fetch with
    | events l =>
      rw [fetched, ← append_assoc]
      refine ih _ _ (hw.window hadmits.1 windows.isEmpty) (fun hlast => ?_) hadmits.2
      rw [hlast]
      exact carried_nil
    | failed =>
      rw [fetched, append_nil]
      exact hdone w got hw hadmits
    | stopped =>
      rw [fetched, append_nil]
      exact hdone w got hw hadmits

/-! ## 6. A window that fails -/

/-- The shift of a day. -/
def shift (first last : Nat) : Activation Unit where
  configurationName := "NC Linac"
  startTime := first
  endTime := last
  rest := ()

theorem oneShift_carried (a : PendingActivation Unit) :
    mergeAndPushActivations [a] false = ([], [a]) := by
  simp [mergeAndPushActivations, groups, firstRows, rowsOf, mergeRuns, mergeFrom]

/-- Two touching shifts in two windows become one activation. -/
theorem shifts_published :
    Published (fetched none [.events [shift 0 8], .events [shift 8 16]])
      (fetchAndPublish none {} [.events [shift 0 8], .events [shift 8 16]]).pushed := by
  refine published ⟨by simp [Admits], fun ev _ p hp => ?_, trivial⟩
  rw [fetchWindow, isEmpty_cons, nil_append, map_cons, map_nil,
    oneShift_carried] at hp
  exact absurd hp not_mem_nil

/-- **The fetch of the second window fails, and the shift of the first one is never pushed.** -/
theorem failedFetch_not_published :
    ¬ Published (fetched none [.events [shift 0 8], .failed])
      (fetchAndPublish none {} [.events [shift 0 8], .failed]).pushed := by
  intro h
  have hcovered := ((h ("NC Linac", "NC Linac")).2 0).mpr
    ⟨pushEvent none (shift 0 8), by decide, by simp [pushEvent, shift], by simp [pushEvent, shift]⟩
  obtain ⟨a, ha, -⟩ := hcovered
  rw [fetchAndPublish, fetchWindow, isEmpty_cons, nil_append, map_cons, map_nil,
    oneShift_carried] at ha
  exact absurd ha not_mem_nil

end MldpDriver.Reader.SlacCalendar
