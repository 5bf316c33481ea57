/-
# Handles of pooled connections

`acquire` takes an idle connection or makes a new one, with the mutex of the pool, and gives it out
in a handle.  A handle can be moved, and `reset` gives its connection back: it releases it first,
with the mutex, and clears the pointer after that.  A destructor is a reset, and a moving
assignment a reset before a move.  -/
import MldpDriver.Lib.Replace
import MldpDriver.Lib.Run
import MldpDriver.Pool.MLDPGrpcIngestionPool

namespace MldpDriver.Pool

open Lib.Replace Lib.Run List Option

/-! ## 1. The pool and its handles -/

/-- `PooledHandle`; `released` while its reset is between the release and the end. -/
structure PooledHandle where
  obj : Option Nat := none
  released : Bool := false

structure PoolState where
  items : List Bool
  currentSize : Nat
  /-- The ids that channels have been given. -/
  channelIdCounter : Nat := 0
  handles : List PooledHandle := []

/-- The pool when its constructor has returned. -/
def PoolState.new (limits : PoolLimits) : PoolState where
  items := limits.items
  currentSize := limits.minConnections
  channelIdCounter := limits.minConnections

inductive PoolAction
  /-- A pass of `acquire`; if it makes a channel, that may throw. -/
  | acquire (throws : Bool)
  | moveConstruct (i : Nat)
  /-- The rest of a moving assignment when the target is reset; nothing if it is the source. -/
  | moveAssign (i j : Nat)
  | release (i : Nat)
  | clear (i : Nat)

def stepPool (limits : PoolLimits) (s : PoolState) : PoolAction → Option PoolState
  | .acquire throws =>
    if creates limits.maxConnections s.items && throws then
      some { s with channelIdCounter := s.channelIdCounter + 1 }
    else (acquire limits.maxConnections s.items).map fun got =>
      let created := (creates limits.maxConnections s.items).toNat
      { items := got.2
        currentSize := s.currentSize + created
        channelIdCounter := s.channelIdCounter + created
        handles := s.handles ++ [{ obj := some got.1 }] }
  | .moveConstruct i =>
    match s.handles[i]? with
    | some { obj := obj, released := false } =>
      some { s with handles := s.handles.set i {} ++ [{ obj := obj }] }
    | _ => none
  | .moveAssign i j =>
    if i = j then some s
    else match s.handles[i]?, s.handles[j]? with
      | some { obj := none, released := false }, some { obj := obj, released := false } =>
        some { s with handles := (s.handles.set i { obj := obj }).set j {} }
      | _, _ => none
  | .release i =>
    match s.handles[i]? with
    | some { obj := some c, released := false } =>
      some { s with
        items := release s.items c, handles := s.handles.set i { obj := some c, released := true } }
    | _ => none
  | .clear i =>
    match s.handles[i]? with
    | some { obj := some _, released := true } => some { s with handles := s.handles.set i {} }
    | _ => none

/-! ## 2. Ownership -/

/-- The connection that a handle owns: it ends with the release. -/
def PooledHandle.owned (h : PooledHandle) : Option Nat := if h.released then none else h.obj

/-- **What a pool keeps**: no two handles own a connection, as many are in use as handles own one,
and there are never too many. -/
structure Owned (limits : PoolLimits) (s : PoolState) : Prop where
  once : ∀ (i j : Nat) (h h' : PooledHandle), s.handles[i]? = some h → s.handles[j]? = some h' →
    h.owned ≠ none →
    h.owned = h'.owned → i = j
  count : s.items.countP id = s.handles.countP fun h => h.owned.isSome
  size : s.items.length ≤ limits.maxConnections ∧ s.currentSize = s.items.length

/-- Each connection is in use exactly if one handle owns it. -/
structure Matched (limits : PoolLimits) (s : PoolState) : Prop where
  each : ∀ c, (s.handles.countP fun h => h.owned = some c) = (decide (s.items[c]? = some true)).toNat
  count : (s.handles.countP fun h => h.owned.isSome) = s.items.countP id
  size : s.items.length ≤ limits.maxConnections ∧ s.currentSize = s.items.length

theorem Matched.owned {limits : PoolLimits} {s : PoolState} (h : Matched limits s) :
    Owned limits s where
  once i j a a' ha ha' hsome hsame := by
    obtain ⟨c, hc⟩ := ne_none_iff_exists'.mp hsome
    by_contra hij
    -- without the one handle there is still the other
    have hset := countP_replace ha {} fun h => decide (h.owned = some c)
    have hmem : a' ∈ s.handles.set i {} :=
      mem_of_getElem? (by rw [List.getElem?_set_ne hij]; exact ha')
    have hpos : 0 < (s.handles.set i {}).countP fun h => h.owned = some c :=
      countP_pos_iff.mpr ⟨a', hmem, decide_eq_true (hsame.symm.trans hc)⟩
    have hone := h.each c
    have hle := Bool.toNat_le (decide (s.items[c]? = some true))
    simp only [hc, decide_true, Bool.toNat_true] at hset
    have hempty : ((decide (({} : PooledHandle).owned = some c)).toNat) = 0 := rfl
    omega
  count := h.count.symm
  size := h.size

/-- A pass of `acquire` that gives a connection. -/
theorem acquire_spec {maxConnections : Nat} {items items' : List Bool} {c : Nat}
    (h : acquire maxConnections items = some (c, items')) :
    (∀ d, decide (items'[d]? = some true) = (decide (items[d]? = some true) || decide (d = c))) ∧
      items[c]? ≠ some true ∧ items'.countP id = items.countP id + 1 ∧
      items'.length = items.length + (creates maxConnections items).toNat ∧
      (items.length ≤ maxConnections → items'.length ≤ maxConnections) := by
  rw [acquire] at h
  rw [creates]
  cases hidle : items.idxOf? false with
  | some k =>
    rw [hidle] at h
    obtain ⟨rfl, rfl⟩ := Prod.mk.inj (some.inj h)
    have hget : items[k]? = some false := by
      obtain ⟨hk, heq, -⟩ := List.idxOf?_eq_some_iff.mp hidle
      rw [List.getElem?_eq_getElem hk, heq]
    have hlt := (List.getElem?_eq_some_iff.mp hget).1
    refine ⟨fun d => ?_, by rw [hget]; decide, ?_, by simp, by simp⟩
    · rw [getElem?_replace hget]
      by_cases hd : d = k
      · simp [hd]
      · simp [hd]
    · have := countP_replace hget true id
      simpa using this
  | none =>
    simp only [hidle] at h
    split at h
    · next hlt =>
      obtain ⟨rfl, rfl⟩ := Prod.mk.inj (some.inj h)
      refine ⟨fun d => ?_, by simp, by simp [countP_append], by simp [hlt], fun _ => ?_⟩
      · rcases Nat.lt_trichotomy d items.length with hd | rfl | hd
        · simp [List.getElem?_append_left hd, Nat.ne_of_lt hd]
        · simp
        · have hlength : (items ++ [true]).length ≤ d := by
            rw [length_append]
            exact hd
          simp [List.getElem?_eq_none hlength, List.getElem?_eq_none (Nat.le_of_lt hd),
            Nat.ne_of_gt hd]
      · rw [length_append]
        exact hlt
    · cases h

variable {limits : PoolLimits} {s s' : PoolState}

theorem matched_new (limits : PoolLimits) : Matched limits (PoolState.new limits) where
  each c := by
    have hget : (List.replicate limits.minConnections false)[c]? ≠ some true := by
      intro h
      cases eq_of_mem_replicate (mem_of_getElem? h)
    simp [PoolState.new, PoolLimits.items, hget]
  count := by simp [PoolState.new, PoolLimits.items, countP_replicate]
  size := by simp [PoolState.new, PoolLimits.items, limits.minConnections_le]

theorem Matched.of_counts (h : Matched limits s) (hitems : s'.items = s.items)
    (hsize : s'.currentSize = s.currentSize)
    (hcounts : ∀ f : Option Nat → Bool, f none = false →
      (s'.handles.countP fun h => f h.owned) = s.handles.countP fun h => f h.owned) :
    Matched limits s' where
  each c := by
    rw [hcounts (fun o => decide (o = some c)) rfl, hitems]
    exact h.each c
  count := by
    rw [hcounts Option.isSome rfl, hitems]
    exact h.count
  size := by
    rw [hitems, hsize]
    exact h.size

theorem Matched.acquire {throws : Bool} (h : Matched limits s)
    (hstep : stepPool limits s (.acquire throws) = some s') : Matched limits s' := by
  rw [stepPool] at hstep
  split at hstep
  · obtain rfl := some.inj hstep
    exact h.of_counts rfl rfl fun _ _ => rfl
  · obtain ⟨⟨c, items⟩, hget, rfl⟩ := map_eq_some_iff.mp hstep
    obtain ⟨heach, hidle, hcount, hlength, hmax⟩ := acquire_spec hget
    refine ⟨fun d => ?_, ?_, hmax h.size.1, ?_⟩
    · have hd := h.each d
      simp only [countP_append, countP_singleton, PooledHandle.owned, Bool.false_eq_true,
        if_false, Option.some.injEq, heach d] at hd ⊢
      rw [hd]
      by_cases hdc : d = c
      · simp [hdc, hidle]
      · simp [hdc, Ne.symm hdc]
    · simp only [countP_append, h.count, hcount]
      rfl
    · simp only [hlength, h.size.2]

theorem countP_owned_set {handles : List PooledHandle} {i : Nat} {a b : PooledHandle}
    (ha : handles[i]? = some a) (f : Option Nat → Bool) :
    ((handles.set i b).countP fun h => f h.owned) + (f a.owned).toNat =
      (handles.countP fun h => f h.owned) + (f b.owned).toNat :=
  countP_replace ha b fun h => f h.owned

theorem Matched.step {a : PoolAction} (h : Matched limits s)
    (hstep : stepPool limits s a = some s') : Matched limits s' := by
  cases a with
  | acquire throws => exact h.acquire hstep
  | moveConstruct i =>
    rw [stepPool] at hstep
    split at hstep
    · next obj hi =>
      obtain rfl := some.inj hstep
      refine h.of_counts rfl rfl fun f hf => ?_
      have hset := countP_owned_set (b := {}) hi f
      have hnone : f ({} : PooledHandle).owned = false := hf
      have howned : (⟨obj, false⟩ : PooledHandle).owned = obj := rfl
      rw [hnone, howned] at hset
      simp only [countP_append, countP_singleton, howned]
      cases hobj : f obj <;> simp_all
    · cases hstep
  | moveAssign i j =>
    rw [stepPool] at hstep
    split at hstep
    · obtain rfl := some.inj hstep
      exact h
    · next hij =>
      split at hstep
      · next obj hi hj =>
        obtain rfl := some.inj hstep
        refine h.of_counts rfl rfl fun f hf => ?_
        have hi := countP_owned_set (b := ⟨obj, false⟩) hi f
        have hj : (s.handles.set i ⟨obj, false⟩)[j]? = some ⟨obj, false⟩ :=
          (List.getElem?_set_ne hij).trans hj
        have hj := countP_owned_set (b := {}) hj f
        have hnone : f ({} : PooledHandle).owned = false := hf
        have hnone' : f (⟨none, false⟩ : PooledHandle).owned = false := hf
        rw [hnone] at hj
        rw [hnone'] at hi
        exact Nat.add_right_cancel (hj.trans (by omega))
      · cases hstep
  | release i =>
    rw [stepPool] at hstep
    split at hstep
    · next c hi =>
      obtain rfl := some.inj hstep
      have howned : (⟨some c, false⟩ : PooledHandle).owned = some c := rfl
      have hreleased : (⟨some c, true⟩ : PooledHandle).owned = none := rfl
      have hused : s.items[c]? = some true := by
        by_contra hidle
        have hc := h.each c
        rw [decide_eq_false hidle] at hc
        have hpos : 0 < s.handles.countP fun h => h.owned = some c :=
          countP_pos_iff.mpr ⟨_, mem_of_getElem? hi, decide_eq_true howned⟩
        exact absurd hpos (by rw [hc]; decide)
      refine ⟨fun d => ?_, ?_, by simpa [Pool.release] using h.size⟩
      · have hset := countP_owned_set (b := ⟨some c, true⟩) hi fun o => decide (o = some d)
        rw [howned, hreleased, h.each d] at hset
        dsimp only
        rw [Pool.release, getElem?_replace hused]
        by_cases hd : d = c
        · subst hd
          simpa [hused] using hset
        · simpa [hd, Ne.symm hd] using hset
      · have hset := countP_owned_set (b := ⟨some c, true⟩) hi Option.isSome
        have hitems := countP_replace hused false id
        rw [howned, hreleased, h.count] at hset
        simp only [isSome_some, isSome_none, id, Bool.toNat_true, Bool.toNat_false]
          at hset hitems
        exact Nat.add_right_cancel (hset.trans hitems.symm)
    · cases hstep
  | clear i =>
    rw [stepPool] at hstep
    split at hstep
    · next c hi =>
      obtain rfl := some.inj hstep
      refine h.of_counts rfl rfl fun f hf => ?_
      have hset := countP_owned_set (b := {}) hi f
      have hnone : f ({} : PooledHandle).owned = false := hf
      have hreleased : f (⟨some c, true⟩ : PooledHandle).owned = false := hf
      rw [hnone, hreleased] at hset
      exact Nat.add_right_cancel hset
    · cases hstep

/-- **In every run each connection has one owner or is idle**: it is in use exactly if one handle
that has not released it has its pointer; and a creation that throws leaves the connections and the
handles as they were.  A handle that has released its connection and not yet cleared the pointer
shares it with the next owner (`pointers_shared`). -/
theorem owned_once (hrun : Runs (stepPool limits) anyStep (PoolState.new limits) s) :
    Owned limits s ∧ (creates limits.maxConnections s.items = true →
      ∃ n, stepPool limits s (.acquire true) = some { s with channelIdCounter := n }) := by
  refine ⟨(hrun.keeps (fun s a s' h _ hstep => h.step hstep) (matched_new limits)).owned, ?_⟩
  intro hcreates
  refine ⟨s.channelIdCounter + 1, ?_⟩
  rw [stepPool, hcreates]
  rfl

/-- One connection, or two. -/
def oneOrTwo (max : Nat) (h : 1 ≤ max) : PoolLimits where
  minConnections := 1
  maxConnections := max
  minConnections_pos := Nat.one_pos
  minConnections_le := h

/-- The only connection is given back and taken again, before the pointer is cleared. -/
def retaken : PoolState where
  items := [true]
  currentSize := 1
  channelIdCounter := 1
  handles := [⟨some 0, true⟩, ⟨some 0, false⟩]

theorem runs_retaken :
    Runs (stepPool (oneOrTwo 1 (Nat.le_refl 1))) anyStep
      (PoolState.new (oneOrTwo 1 (Nat.le_refl 1))) retaken :=
  Runs.of_exec [.acquire false, .release 0, .acquire false] rfl

theorem retaken_owned : Owned (oneOrTwo 1 (Nat.le_refl 1)) retaken :=
  (owned_once runs_retaken).1

/-- **Two handles have the pointer for a moment**, and a creation that throws has counted its id. -/
theorem pointers_shared :
    (¬ ∀ s, Runs (stepPool (oneOrTwo 1 (Nat.le_refl 1))) anyStep
        (PoolState.new (oneOrTwo 1 (Nat.le_refl 1))) s →
      ∀ (i j : Nat) (h h' : PooledHandle), s.handles[i]? = some h → s.handles[j]? = some h' →
        h.obj ≠ none → h.obj = h'.obj → i = j) ∧
    ¬ ∀ s, Runs (stepPool (oneOrTwo 2 (Nat.le_succ 1))) anyStep
        (PoolState.new (oneOrTwo 2 (Nat.le_succ 1))) s →
      creates 2 s.items = true → stepPool (oneOrTwo 2 (Nat.le_succ 1)) s (.acquire true) = some s := by
  constructor
  · intro hall
    exact absurd (hall _ runs_retaken 0 1 _ _ rfl rfl (some_ne_none 0) rfl) Nat.zero_ne_one
  · intro hall
    have hrun : Runs (stepPool (oneOrTwo 2 (Nat.le_succ 1))) anyStep
        (PoolState.new (oneOrTwo 2 (Nat.le_succ 1))) _ := Runs.of_exec [.acquire false] rfl
    exact absurd (congrArg (Option.map PoolState.channelIdCounter) (hall _ hrun rfl)) (by decide)

end MldpDriver.Pool
