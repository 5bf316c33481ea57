/-
# A loop that remembers keys

`unseen` runs over a list with the keys it has met and keeps the elements whose key is new.  What it
keeps are the first rows of their keys (`unseen_fst`), and what it remembers are all keys met
(`mem_unseen_snd`), so a run can go on from one list to the next.
-/
import MldpDriver.Lib.KeySplit

namespace Lib.SeenKeys

open Lib.KeySplit List

variable {R K : Type} [DecidableEq K] (key : R → K)

/-- The elements with a new key, and all keys met. -/
def unseen : List K → List R → List R × List K
  | seen, [] => ([], seen)
  | seen, r :: rows =>
    if key r ∈ seen then unseen seen rows
    else
      let later := unseen (key r :: seen) rows
      (r :: later.1, later.2)

/-- **What is kept.** -/
theorem unseen_fst (seen : List K) (rows : List R) :
    (unseen key seen rows).1 = (firstRows key rows).filter fun r => key r ∉ seen := by
  induction rows generalizing seen with
  | nil => rfl
  | cons r rows ih =>
    rw [unseen, firstRows]
    split
    · rename_i hseen
      rw [ih, filter_cons_of_neg (by simpa using hseen), filter_filter]
      refine filter_congr fun r' _ => ?_
      by_cases hkey : key r' = key r
      · simp [hkey, hseen]
      · simp [hkey]
    · rename_i hseen
      show r :: (unseen key (key r :: seen) rows).1 = _
      rw [filter_cons_of_pos (by simpa using hseen), ih, filter_filter]
      congr 1
      refine filter_congr fun r' _ => ?_
      simp only [mem_cons, not_or, Bool.decide_and, ne_eq, Bool.and_comm]

/-- **What is remembered.** -/
theorem mem_unseen_snd (seen : List K) (rows : List R) (k : K) :
    k ∈ (unseen key seen rows).2 ↔ k ∈ seen ∨ k ∈ rows.map key := by
  induction rows generalizing seen with
  | nil => simp [unseen]
  | cons r rows ih =>
    rw [unseen, map_cons, mem_cons]
    split
    · rename_i hseen
      rw [ih]
      constructor
      · rintro (h | h)
        · exact .inl h
        · exact .inr (.inr h)
      · rintro (h | rfl | h)
        · exact .inl h
        · exact .inl hseen
        · exact .inr h
    · rw [ih, mem_cons]
      tauto

theorem unseen_sublist (seen : List K) (rows : List R) :
    (unseen key seen rows).1.Sublist rows := by
  rw [unseen_fst]
  exact filter_sublist.trans (firstRows_sublist rows)

theorem unseen_nil (rows : List R) : (unseen key [] rows).1 = firstRows key rows := by
  rw [unseen_fst]
  simp

end Lib.SeenKeys
