/-
# Items taken together

A loop takes items one at a time and closes the group it is filling as soon as it has `size` items;
a size of 0 closes nothing.  What is open at the end is a last group, if it has items.  `groups` is
the groups that such a loop closes.
-/
import Mathlib.Data.List.Basic

namespace Lib.Groups

open List

variable {α β : Type}

/-- The groups of a list, the first of which has items already. -/
def groups (size : Nat) : List α → List α → List (List α)
  | [], [] => []
  | x :: opened, [] => [x :: opened]
  | opened, x :: xs =>
    if 0 < size ∧ size ≤ opened.length + 1 then (opened ++ [x]) :: groups size [] xs
    else groups size (opened ++ [x]) xs

theorem groups_nil (size : Nat) (opened : List α) :
    groups size opened [] = if opened = [] then [] else [opened] := by
  cases opened with
  | nil => rfl
  | cons x opened => rfl

theorem groups_cons (size : Nat) (opened : List α) (x : α) (xs : List α) :
    groups size opened (x :: xs) =
      if 0 < size ∧ size ≤ opened.length + 1 then (opened ++ [x]) :: groups size [] xs
      else groups size (opened ++ [x]) xs := by
  cases opened <;> rfl

/-- **Every item is in one group, in order.** -/
theorem flatten_groups (size : Nat) (opened xs : List α) :
    (groups size opened xs).flatten = opened ++ xs := by
  induction xs generalizing opened with
  | nil => cases opened <;> simp [groups]
  | cons x xs ih =>
    rw [groups_cons]
    split
    · rw [flatten_cons, ih, nil_append, append_assoc, singleton_append]
    · rw [ih, append_assoc, singleton_append]

theorem ne_nil_of_mem_groups {size : Nat} {opened xs g : List α}
    (h : g ∈ groups size opened xs) : g ≠ [] := by
  induction xs generalizing opened with
  | nil =>
    cases opened with
    | nil => cases h
    | cons x opened =>
      rw [mem_singleton.mp h]
      exact cons_ne_nil x opened
  | cons x xs ih =>
    rw [groups_cons] at h
    split at h
    · rcases mem_cons.mp h with rfl | h
      · simp
      · exact ih h
    · exact ih h

theorem mem_of_mem_groups {size : Nat} {xs g : List α} {x : α} (h : g ∈ groups size [] xs)
    (hx : x ∈ g) : x ∈ xs := by
  have hflatten := flatten_groups size [] xs
  rw [nil_append] at hflatten
  exact hflatten ▸ mem_flatten.mpr ⟨g, h, hx⟩

theorem groups_map (f : α → β) (size : Nat) (opened xs : List α) :
    groups size (opened.map f) (xs.map f) = (groups size opened xs).map (·.map f) := by
  induction xs generalizing opened with
  | nil => cases opened <;> rfl
  | cons x xs ih =>
    have hnil := ih []
    have hopen := ih (opened ++ [x])
    rw [map_nil] at hnil
    rw [map_append, map_singleton] at hopen
    rw [map_cons, groups_cons, groups_cons, length_map, hnil, hopen]
    split
    · rw [map_cons, map_append, map_singleton]
    · rfl

/-- **Lists put together from pieces of the same lengths are equal piece by piece.** -/
theorem flatMap_eq_iff {l : List α} {f g : α → List β}
    (hlength : ∀ x ∈ l, (f x).length = (g x).length) :
    l.flatMap f = l.flatMap g ↔ ∀ x ∈ l, f x = g x := by
  induction l with
  | nil => simp
  | cons x l ih =>
    have hl := ih fun y hy => hlength y (mem_cons_of_mem x hy)
    rw [flatMap_cons, flatMap_cons, forall_mem_cons, ← hl]
    constructor
    · intro h
      exact append_inj h (hlength x mem_cons_self)
    · rintro ⟨hx, hrest⟩
      rw [hx, hrest]

end Lib.Groups
