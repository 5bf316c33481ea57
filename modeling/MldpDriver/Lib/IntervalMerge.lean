/-
# Merging closed intervals of integers

Intervals in the order of their starts are merged in one pass: an interval that begins no later than
one past the end of the last one is joined to it, any other one is put after it.

  * `covered_merge`: the pass keeps the set of covered integers.
  * `separated_merge`: between two neighbours of the result there is an integer of neither.
-/
import Mathlib.Algebra.Order.Group.Int
import Mathlib.Data.List.Basic
import Mathlib.Order.Lattice

namespace Lib.IntervalMerge

open List

/-- A closed interval, by its ends. -/
abbrev Interval := Int × Int

def Interval.Has (v : Interval) (t : Int) : Prop := v.1 ≤ t ∧ t ≤ v.2

/-- Some interval has the integer. -/
def Covered (vs : List Interval) (t : Int) : Prop := ∃ v ∈ vs, v.Has t

/-- An integer lies after the one and before the other. -/
def Apart (v w : Interval) : Prop := v.2 + 1 < w.1

instance (v w : Interval) : Decidable (Apart v w) := inferInstanceAs (Decidable (v.2 + 1 < w.1))

/-- From the start of the one to the later end. -/
def joined (v w : Interval) : Interval := (v.1, max v.2 w.2)

/-- The pass, with the interval that is still open. -/
def mergeFrom (back : Interval) : List Interval → List Interval
  | [] => [back]
  | w :: rest => if Apart back w then back :: mergeFrom w rest else mergeFrom (joined back w) rest

def merge : List Interval → List Interval
  | [] => []
  | w :: rest => mergeFrom w rest

/-- In the order of their starts, and none of them empty. -/
structure Ordered (vs : List Interval) : Prop where
  starts : vs.Pairwise fun v w => v.1 ≤ w.1
  ends : ∀ v ∈ vs, v.1 ≤ v.2

variable {v w : Interval} {vs : List Interval} {t : Int}

theorem covered_cons : Covered (v :: vs) t ↔ v.Has t ∨ Covered vs t := by
  simp [Covered]

theorem covered_congr {ws : List Interval} (h : ∀ v, v ∈ vs ↔ v ∈ ws) :
    Covered vs t ↔ Covered ws t := by
  simp [Covered, h]

theorem Ordered.tail (h : Ordered (v :: vs)) : Ordered vs :=
  ⟨h.starts.tail, fun w hw => h.ends w (mem_cons_of_mem _ hw)⟩

theorem joined_has (hstart : v.1 ≤ w.1) (h : ¬ Apart v w) :
    (joined v w).Has t ↔ v.Has t ∨ w.Has t := by
  simp only [Apart, Int.not_lt] at h
  simp only [Interval.Has, joined, le_max_iff]
  omega

theorem Ordered.join (h : Ordered (v :: w :: vs)) : Ordered (joined v w :: vs) where
  starts := by
    refine pairwise_cons.mpr ⟨fun u hu => ?_, h.tail.tail.starts⟩
    exact (pairwise_cons.mp h.starts).1 u (mem_cons_of_mem _ hu)
  ends := by
    intro u hu
    rcases mem_cons.mp hu with rfl | hu
    · exact (h.ends v mem_cons_self).trans (le_max_left _ _)
    · exact h.tail.tail.ends u hu

theorem Ordered.head_le (h : Ordered (v :: w :: vs)) : v.1 ≤ w.1 :=
  (pairwise_cons.mp h.starts).1 w mem_cons_self

/-- **The pass keeps what is covered.** -/
theorem covered_mergeFrom (back : Interval) (h : Ordered (back :: vs)) :
    Covered (mergeFrom back vs) t ↔ Covered (back :: vs) t := by
  induction vs generalizing back with
  | nil => rfl
  | cons w rest ih =>
    rw [mergeFrom]
    split
    · rw [covered_cons, ih w h.tail, covered_cons, covered_cons, covered_cons]
    · next hjoin =>
      rw [ih _ h.join, covered_cons, covered_cons, covered_cons, joined_has h.head_le hjoin,
        or_assoc]

theorem covered_merge (h : Ordered vs) : Covered (merge vs) t ↔ Covered vs t := by
  cases vs with
  | nil => rfl
  | cons w rest => exact covered_mergeFrom w h

theorem start_mergeFrom (back : Interval) (h : Ordered (back :: vs)) :
    ∀ u ∈ mergeFrom back vs, back.1 ≤ u.1 := by
  induction vs generalizing back with
  | nil =>
    intro u hu
    rw [mem_singleton.mp hu]
  | cons w rest ih =>
    intro u hu
    rw [mergeFrom] at hu
    split at hu
    · rcases mem_cons.mp hu with rfl | hu
      · exact le_refl _
      · exact h.head_le.trans (ih w h.tail u hu)
    · exact ih _ h.join u hu

/-- **Between two neighbours there is an integer of neither.** -/
theorem separated_mergeFrom (back : Interval) (h : Ordered (back :: vs)) :
    (mergeFrom back vs).Pairwise Apart := by
  induction vs generalizing back with
  | nil => exact pairwise_singleton _ _
  | cons w rest ih =>
    rw [mergeFrom]
    split
    · next hapart =>
      refine pairwise_cons.mpr ⟨fun u hu => ?_, ih w h.tail⟩
      exact lt_of_lt_of_le hapart (start_mergeFrom w h.tail u hu)
    · exact ih _ h.join

theorem separated_merge (h : Ordered vs) : (merge vs).Pairwise Apart := by
  cases vs with
  | nil => exact List.Pairwise.nil
  | cons w rest => exact separated_mergeFrom w h

theorem bounds_mergeFrom {p : Int → Prop} (back : Interval)
    (h : ∀ v ∈ back :: vs, p v.1 ∧ p v.2 ∧ v.1 ≤ v.2) :
    ∀ u ∈ mergeFrom back vs, p u.1 ∧ p u.2 ∧ u.1 ≤ u.2 := by
  induction vs generalizing back with
  | nil => exact h
  | cons w rest ih =>
    have hback := h back mem_cons_self
    have hw := h w (by simp)
    have hrest : ∀ v ∈ rest, p v.1 ∧ p v.2 ∧ v.1 ≤ v.2 := fun v hv => h v (by simp [hv])
    intro u hu
    rw [mergeFrom] at hu
    split at hu
    · rcases mem_cons.mp hu with rfl | hu
      · exact hback
      · exact ih w (forall_mem_cons.mpr ⟨hw, hrest⟩) u hu
    · have hjoined : p (joined back w).2 := by
        rcases max_choice back.2 w.2 with hmax | hmax
        · rw [joined, hmax]
          exact hback.2.1
        · rw [joined, hmax]
          exact hw.2.1
      refine ih (joined back w) (forall_mem_cons.mpr ⟨⟨hback.1, hjoined, ?_⟩, hrest⟩) u hu
      exact hback.2.2.trans (le_max_left _ _)

theorem bounds_merge {p : Int → Prop} (h : ∀ v ∈ vs, p v.1 ∧ p v.2 ∧ v.1 ≤ v.2) :
    ∀ u ∈ merge vs, p u.1 ∧ p u.2 ∧ u.1 ≤ u.2 := by
  cases vs with
  | nil => exact h
  | cons w rest => exact bounds_mergeFrom w h

end Lib.IntervalMerge
