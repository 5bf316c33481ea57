/-
# Stretches of positions

Positions `start .. stop` are cut into STRETCHES of positions related to the first of the stretch,
as a loop does that goes on to the next stretch where one ends.  If the relation is an equivalence
whose classes have no gaps, the stretches are its classes (`mem_stretch_iff`).  `getElem?_spread`
finds the stretch of a position in a list that is made stretch by stretch.
-/
import Mathlib.Data.List.Basic

namespace Lib.Stretches

open List

/-! ## 1. Stretches -/

/-- The first position, of the next `fuel` ones, that fails `p`. -/
def runEnd (p : Nat → Bool) : Nat → Nat → Nat
  | 0, i => i
  | fuel + 1, i => if p i then runEnd p fuel (i + 1) else i

theorem le_runEnd (p : Nat → Bool) (fuel i : Nat) : i ≤ runEnd p fuel i := by
  induction fuel generalizing i with
  | zero => exact Nat.le_refl i
  | succ fuel ih =>
    rw [runEnd]
    split
    · exact Nat.le_trans (Nat.le_succ i) (ih (i + 1))
    · exact Nat.le_refl i

theorem runEnd_le (p : Nat → Bool) (fuel i : Nat) : runEnd p fuel i ≤ i + fuel := by
  induction fuel generalizing i with
  | zero => exact Nat.le_refl i
  | succ fuel ih =>
    rw [runEnd]
    split
    · exact Nat.le_trans (ih (i + 1)) (by omega)
    · exact Nat.le_add_right i _

theorem runEnd_passes {p : Nat → Bool} {fuel i j : Nat} (hi : i ≤ j) (hj : j < runEnd p fuel i) :
    p j = true := by
  induction fuel generalizing i with
  | zero => exact absurd hj (Nat.not_lt_of_le hi)
  | succ fuel ih =>
    rw [runEnd] at hj
    split at hj
    · rename_i hp
      rcases Nat.eq_or_lt_of_le hi with rfl | hlt
      · exact hp
      · exact ih hlt hj
    · exact absurd hj (Nat.not_lt_of_le hi)

theorem runEnd_fails {p : Nat → Bool} {fuel i : Nat} (h : runEnd p fuel i < i + fuel) :
    p (runEnd p fuel i) = false := by
  induction fuel generalizing i with
  | zero => exact absurd h (Nat.lt_irrefl i)
  | succ fuel ih =>
    rw [runEnd] at h ⊢
    split
    · rename_i hp
      rw [if_pos hp] at h
      exact ih (by omega)
    · rename_i hp
      exact Bool.eq_false_iff.mpr hp

/-- The stretches of `start .. stop`, each with its first position and the one after its last. -/
def stretches (same : Nat → Nat → Bool) (stop : Nat) : Nat → Nat → List (Nat × Nat)
  | 0, _ => []
  | fuel + 1, start =>
    if start < stop then
      let next := runEnd (same start) (stop - (start + 1)) (start + 1)
      (start, next) :: stretches same stop fuel next
    else []

/-- An equivalence on `start .. stop` whose classes have no gaps. -/
structure Convex (same : Nat → Nat → Bool) (start stop : Nat) : Prop where
  refl : ∀ i, start ≤ i → i < stop → same i i = true
  symm : ∀ i j, same i j = true → same j i = true
  trans : ∀ i j k, same i j = true → same j k = true → same i k = true
  between : ∀ i j k, start ≤ i → i ≤ j → j ≤ k → k < stop → same i k = true → same i j = true

theorem Convex.mono {same : Nat → Nat → Bool} {start stop from_ : Nat}
    (h : Convex same start stop) (hle : start ≤ from_) : Convex same from_ stop :=
  ⟨fun i hi => h.refl i (Nat.le_trans hle hi), h.symm, h.trans,
    fun i j k hi => h.between i j k (Nat.le_trans hle hi)⟩

variable {same : Nat → Nat → Bool} {start stop : Nat}

theorem runEnd_stop (hlt : start < stop) :
    start < runEnd (same start) (stop - (start + 1)) (start + 1) ∧
      runEnd (same start) (stop - (start + 1)) (start + 1) ≤ stop := by
  have hle := le_runEnd (same start) (stop - (start + 1)) (start + 1)
  have hge := runEnd_le (same start) (stop - (start + 1)) (start + 1)
  omega

theorem stretch_bounds {fuel : Nat} {s : Nat × Nat} (hs : s ∈ stretches same stop fuel start) :
    start ≤ s.1 ∧ s.1 < s.2 ∧ s.2 ≤ stop := by
  induction fuel generalizing start with
  | zero => exact absurd hs not_mem_nil
  | succ fuel ih =>
    rw [stretches] at hs
    split at hs
    · rename_i hlt
      have hnext := @runEnd_stop same start stop hlt
      rcases mem_cons.mp hs with rfl | hs
      · exact ⟨Nat.le_refl _, hnext⟩
      · have hrest := ih hs
        exact ⟨Nat.le_trans (Nat.le_of_lt hnext.1) hrest.1, hrest.2⟩
    · exact absurd hs not_mem_nil

theorem first_stretch (h : Convex same start stop) (hlt : start < stop) {j : Nat}
    (hj : start ≤ j) (hstop : j < stop) :
    j < runEnd (same start) (stop - (start + 1)) (start + 1) ↔ same start j = true := by
  constructor
  · intro hend
    rcases Nat.eq_or_lt_of_le hj with rfl | hgt
    · exact h.refl _ hj hstop
    · exact runEnd_passes hgt hend
  · intro hsame
    by_contra hend
    have hle := (@runEnd_stop same start stop hlt).1
    have hfails : same start (runEnd (same start) (stop - (start + 1)) (start + 1)) = false :=
      runEnd_fails (by omega)
    have hpasses := h.between start _ j (Nat.le_refl _) (Nat.le_of_lt hle) (Nat.le_of_not_lt hend)
      hstop hsame
    exact Bool.false_ne_true (hfails.symm.trans hpasses)

/-- **A stretch is the class of each of its positions.** -/
theorem mem_stretch_iff (h : Convex same start stop) {fuel : Nat} {s : Nat × Nat}
    (hs : s ∈ stretches same stop fuel start) {i : Nat} (hi : s.1 ≤ i) (hend : i < s.2)
    {j : Nat} (hj : start ≤ j) (hstop : j < stop) :
    (s.1 ≤ j ∧ j < s.2) ↔ same i j = true := by
  induction fuel generalizing start with
  | zero => exact absurd hs not_mem_nil
  | succ fuel ih =>
    rw [stretches] at hs
    split at hs
    · rename_i hlt
      have hnext := @runEnd_stop same start stop hlt
      have hfirst := @first_stretch same start stop h hlt
      generalize hn : runEnd (same start) (stop - (start + 1)) (start + 1) = next at hs hnext hfirst
      rcases mem_cons.mp hs with rfl | hs
      · have hsame : same start i = true := (hfirst hi (by omega)).mp hend
        constructor
        · intro hmem
          exact h.trans i start j (h.symm _ _ hsame) ((hfirst hj hstop).mp hmem.2)
        · intro hij
          exact ⟨hj, (hfirst hj hstop).mpr (h.trans start i j hsame hij)⟩
      · have hmono := h.mono (Nat.le_of_lt hnext.1)
        have hbounds := stretch_bounds hs
        by_cases hjn : next ≤ j
        · exact ih hmono hs hjn
        · constructor
          · intro hmem
            omega
          · intro hij
            have hsj : same start j = true := (hfirst hj hstop).mp (by omega)
            have hsi : same start i = true := h.trans start j i hsj (h.symm _ _ hij)
            have hin := (hfirst (by omega) (by omega)).mpr hsi
            omega
    · exact absurd hs not_mem_nil

/-! ## 2. Lists made stretch by stretch -/

variable {α : Type} {f : Nat × Nat → List α}

theorem length_spread (hf : ∀ s : Nat × Nat, (f s).length = s.2 - s.1) {fuel : Nat}
    (hfuel : stop - start ≤ fuel) :
    ((stretches same stop fuel start).flatMap f).length = stop - start := by
  induction fuel generalizing start with
  | zero =>
    rw [stretches, flatMap_nil, length_nil]
    omega
  | succ fuel ih =>
    rw [stretches]
    split
    · rename_i hlt
      have hnext := @runEnd_stop same start stop hlt
      generalize runEnd (same start) (stop - (start + 1)) (start + 1) = next at hnext
      rw [flatMap_cons, length_append, hf, ih (by omega)]
      omega
    · rw [flatMap_nil, length_nil]
      omega

/-- **What stands at a position was made for its stretch.** -/
theorem getElem?_spread (hf : ∀ s : Nat × Nat, (f s).length = s.2 - s.1) {fuel i : Nat}
    (hfuel : stop - start ≤ fuel) (hi : start ≤ i) (hstop : i < stop) :
    ∃ s ∈ stretches same stop fuel start, s.1 ≤ i ∧ i < s.2 ∧
      ((stretches same stop fuel start).flatMap f)[i - start]? = (f s)[i - s.1]? := by
  induction fuel generalizing start with
  | zero => omega
  | succ fuel ih =>
    rw [stretches, if_pos (Nat.lt_of_le_of_lt hi hstop)]
    have hnext := @runEnd_stop same start stop (Nat.lt_of_le_of_lt hi hstop)
    generalize runEnd (same start) (stop - (start + 1)) (start + 1) = next at hnext
    have hlength : (f (start, next)).length = next - start := hf (start, next)
    by_cases hin : i < next
    · refine ⟨(start, next), mem_cons_self, hi, hin, ?_⟩
      rw [flatMap_cons, List.getElem?_append_left (by omega)]
    · obtain ⟨s, hs, hlow, hhigh, hget⟩ := @ih next (by omega) (by omega)
      refine ⟨s, mem_cons_of_mem _ hs, hlow, hhigh, ?_⟩
      rw [flatMap_cons, List.getElem?_append_right (by omega), hlength, ← hget]
      congr 1
      omega

/-! ## 3. Bisection

`bisect` is the search for the first position where a test fails, when no position passes after
one that fails. -/

/-- The search in `low .. high` for the first position that fails `before`. -/
def bisect (before : Nat → Bool) : Nat → Nat → Nat → Nat
  | 0, low, _ => low
  | fuel + 1, low, high =>
    if low < high then
      let middle := low + (high - low) / 2
      if before middle then bisect before fuel (middle + 1) high
      else bisect before fuel low middle
    else low

/-- **The positions before the one found are those that pass.** -/
theorem bisect_spec {before : Nat → Bool} {fuel low high : Nat} (hfuel : high - low ≤ fuel)
    (hle : low ≤ high)
    (hbefore : ∀ i j, low ≤ i → i ≤ j → j < high → before j = true → before i = true) :
    (low ≤ bisect before fuel low high ∧ bisect before fuel low high ≤ high) ∧
      ∀ j, low ≤ j → j < high → (j < bisect before fuel low high ↔ before j = true) := by
  induction fuel generalizing low high with
  | zero =>
    have heq : high = low := by omega
    subst heq
    exact ⟨⟨Nat.le_refl _, Nat.le_refl _⟩, fun j h₁ h₂ => absurd h₂ (Nat.not_lt_of_le h₁)⟩
  | succ fuel ih =>
    rw [bisect]
    split
    · rename_i hlt
      have hmiddle : low ≤ low + (high - low) / 2 ∧ low + (high - low) / 2 < high := by omega
      have hhalf : high - (low + (high - low) / 2 + 1) ≤ fuel ∧ (high - low) / 2 ≤ fuel := by omega
      generalize low + (high - low) / 2 = middle at hmiddle hhalf ⊢
      by_cases hpass : before middle = true
      · simp only [hpass, if_true]
        obtain ⟨hbounds, hrest⟩ := @ih (middle + 1) high (by omega) (by omega)
          (fun i j hi => hbefore i j (by omega))
        refine ⟨⟨by omega, hbounds.2⟩, fun j hj hhigh => ?_⟩
        by_cases hjm : j ≤ middle
        · exact ⟨fun _ => hbefore j middle hj hjm hmiddle.2 hpass, fun _ => by omega⟩
        · exact hrest j (by omega) hhigh
      · simp only [hpass, Bool.false_eq_true, if_false]
        obtain ⟨hbounds, hrest⟩ := @ih low middle (by omega) hmiddle.1
          (fun i j hi hij hj => hbefore i j hi hij (by omega))
        refine ⟨⟨hbounds.1, by omega⟩, fun j hj hhigh => ?_⟩
        by_cases hjm : j < middle
        · exact hrest j hj hjm
        · constructor
          · intro hlt
            omega
          · intro hpassj
            exact absurd (hbefore middle j hmiddle.1 (by omega) hhigh hpassj) hpass
    · exact ⟨⟨Nat.le_refl _, hle⟩, fun j h₁ h₂ => by omega⟩

end Lib.Stretches
