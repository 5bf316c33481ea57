/-
# The best element, with ties

Two scans look for the best element of a list: `firstBest` keeps what it has unless a new element is
better, `lastBest` takes a new element unless what it has is better.  They differ where neither of
two elements is better than the other.

`before a b` says that `a` is better than `b`.
-/
import Mathlib.Data.List.Basic

namespace Lib.BestOf

open List

variable {α : Type} (before : α → α → Bool)

def firstBest (best : α) (xs : List α) : α :=
  xs.foldl (fun best x => if before x best then x else best) best

def lastBest (best : α) (xs : List α) : α :=
  xs.foldl (fun best x => if before best x then best else x) best

variable {before}

theorem firstBest_cons (best x : α) (xs : List α) :
    firstBest before best (x :: xs) = firstBest before (if before x best then x else best) xs := rfl

theorem lastBest_cons (best x : α) (xs : List α) :
    lastBest before best (x :: xs) = lastBest before (if before best x then best else x) xs := rfl

theorem lastBest_mem (best : α) (xs : List α) : lastBest before best xs ∈ best :: xs := by
  induction xs generalizing best with
  | nil => exact mem_cons_self
  | cons x xs ih =>
    rw [lastBest_cons]
    split
    · rcases mem_cons.mp (ih best) with heq | hmem
      · rw [heq]
        exact mem_cons_self
      · exact mem_cons_of_mem _ (mem_cons_of_mem _ hmem)
    · exact mem_cons_of_mem _ (ih x)

variable {xs : List α}

theorem firstBest_first {best : α} (h : ∀ y ∈ xs, before y best = false) :
    firstBest before best xs = best := by
  induction xs with
  | nil => rfl
  | cons x xs ih =>
    have hx : before x best = false := h x mem_cons_self
    rw [firstBest_cons, hx, if_neg Bool.false_ne_true]
    exact ih fun y hy => h y (mem_cons_of_mem x hy)

theorem lastBest_last {best last : α} (h : ∀ y ∈ best :: xs, before y last = false) :
    lastBest before best (xs ++ [last]) = last := by
  rw [lastBest, foldl_append]
  change (if before (lastBest before best xs) last then lastBest before best xs else last) = last
  rw [h _ (lastBest_mem best xs), if_neg Bool.false_ne_true]

theorem lastBest_first {best : α} (h : ∀ y ∈ xs, before best y = true) :
    lastBest before best xs = best := by
  induction xs with
  | nil => rfl
  | cons x xs ih =>
    rw [lastBest_cons, if_pos (h x mem_cons_self)]
    exact ih fun y hy => h y (mem_cons_of_mem x hy)

theorem lastBest_split (best : α) (xs : List α) :
    ∃ front back, best :: xs = front ++ lastBest before best xs :: back ∧
      ∀ y ∈ back, before (lastBest before best xs) y = true := by
  induction xs generalizing best with
  | nil => exact ⟨[], [], rfl, forall_mem_nil _⟩
  | cons x xs ih =>
    rw [lastBest_cons]
    split
    · rename_i hbefore
      obtain ⟨front, back, heq, hback⟩ := ih best
      cases front with
      | nil =>
        obtain ⟨hbest, rfl⟩ := List.cons.inj heq
        refine ⟨[], x :: xs, by rw [← hbest]; rfl, forall_mem_cons.mpr ⟨?_, hback⟩⟩
        rwa [← hbest]
      | cons b front =>
        obtain ⟨rfl, hxs⟩ := List.cons.inj heq
        exact ⟨best :: x :: front, back, congrArg (fun l => best :: x :: l) hxs, hback⟩
    · obtain ⟨front, back, heq, hback⟩ := ih x
      exact ⟨best :: front, back, by rw [heq]; rfl, hback⟩

/-- An element that nothing is better than comes out if it is better than all behind it. -/
theorem lastBest_eq {best m : α} {xs front back : List α} (h : best :: xs = front ++ m :: back)
    (hbest : ∀ y ∈ best :: xs, before y m = false) (hback : ∀ y ∈ back, before m y = true) :
    lastBest before best xs = m := by
  cases front with
  | nil =>
    obtain ⟨rfl, rfl⟩ := List.cons.inj h
    exact lastBest_first hback
  | cons b front =>
    obtain ⟨rfl, rfl⟩ := List.cons.inj h
    have hm : lastBest before best (front ++ [m]) = m :=
      lastBest_last fun y hy => hbest y (mem_append_left (m :: back) hy)
    rw [lastBest] at hm
    change (front ++ m :: back).foldl _ best = m
    rw [append_cons, foldl_append, hm]
    exact lastBest_first hback

section Winners

variable {wins : α → Prop}

/-- Winners are better than all others, and no other is better than a winner. -/
def Separated (before : α → α → Bool) (wins : α → Prop) (xs : List α) : Prop :=
  ∀ x ∈ xs, ∀ y ∈ xs, wins x → ¬ wins y → before x y = true ∧ before y x = false

theorem Separated.of_subset {xs ys : List α} (h : Separated before wins ys)
    (hsubset : xs ⊆ ys) : Separated before wins xs := fun x hx y hy =>
  h x (hsubset hx) y (hsubset hy)

/-- Of two elements one is dropped; if it was a winner, so is the one that is kept. -/
theorem exists_wins_of_kept {kept dropped : α} (h : wins dropped → wins kept)
    (hwins : ∃ y, (y = dropped ∨ y = kept ∨ y ∈ xs) ∧ wins y) : ∃ y ∈ kept :: xs, wins y := by
  obtain ⟨y, rfl | rfl | hy, hwin⟩ := hwins
  · exact ⟨kept, mem_cons_self, h hwin⟩
  · exact ⟨y, mem_cons_self, hwin⟩
  · exact ⟨y, mem_cons_of_mem _ hy, hwin⟩

theorem firstBest_wins {best : α} (hsep : Separated before wins (best :: xs))
    (hwins : ∃ x ∈ best :: xs, wins x) : wins (firstBest before best xs) := by
  induction xs generalizing best with
  | nil =>
    obtain ⟨x, hx, h⟩ := hwins
    rwa [mem_singleton.mp hx] at h
  | cons x xs ih =>
    rw [firstBest_cons]
    have hbest : best ∈ best :: x :: xs := mem_cons_self
    have hx : x ∈ best :: x :: xs := mem_cons_of_mem _ mem_cons_self
    simp only [mem_cons] at hwins
    split
    · rename_i hbefore
      refine ih (hsep.of_subset (subset_cons_self best _))
        (exists_wins_of_kept (fun hwin => ?_) hwins)
      by_contra hlose
      rw [(hsep best hbest x hx hwin hlose).2] at hbefore
      cases hbefore
    · rename_i hbefore
      refine ih (hsep.of_subset (cons_subset_cons best (subset_cons_self x xs)))
        (exists_wins_of_kept (fun hwin => ?_) (hwins.imp fun _ h => ⟨or_left_comm.mp h.1, h.2⟩))
      by_contra hlose
      exact hbefore (hsep x hx best hbest hwin hlose).1

theorem lastBest_wins {best : α} (hsep : Separated before wins (best :: xs))
    (hwins : ∃ x ∈ best :: xs, wins x) : wins (lastBest before best xs) := by
  induction xs generalizing best with
  | nil =>
    obtain ⟨x, hx, h⟩ := hwins
    rwa [mem_singleton.mp hx] at h
  | cons x xs ih =>
    rw [lastBest_cons]
    have hbest : best ∈ best :: x :: xs := mem_cons_self
    have hx : x ∈ best :: x :: xs := mem_cons_of_mem _ mem_cons_self
    simp only [mem_cons] at hwins
    split
    · rename_i hbefore
      refine ih (hsep.of_subset (cons_subset_cons best (subset_cons_self x xs)))
        (exists_wins_of_kept (fun hwin => ?_) (hwins.imp fun _ h => ⟨or_left_comm.mp h.1, h.2⟩))
      by_contra hlose
      rw [(hsep x hx best hbest hwin hlose).2] at hbefore
      cases hbefore
    · rename_i hbefore
      refine ih (hsep.of_subset (subset_cons_self best _))
        (exists_wins_of_kept (fun hwin => ?_) hwins)
      by_contra hlose
      exact hbefore (hsep best hbest x hx hwin hlose).1

end Winners

/-- Every element has one that nothing is better than, and that is better or the element itself. -/
theorem exists_unbeaten
    (htrans : ∀ a b c, before a b = true → before b c = true → before a c = true)
    (hirrefl : ∀ a, before a a = false) (xs : List α) (z : α) :
    ∃ y, (y = z ∨ y ∈ xs ∧ before y z = true) ∧ ∀ x ∈ xs, before x y = false := by
  induction xs with
  | nil => exact ⟨z, .inl rfl, fun x hx => by cases hx⟩
  | cons x xs ih =>
    obtain ⟨y, hy, hleast⟩ := ih
    cases hbefore : before x y with
    | false =>
      refine ⟨y, hy.imp_right fun h => ⟨mem_cons_of_mem x h.1, h.2⟩, fun a ha => ?_⟩
      rcases mem_cons.mp ha with rfl | ha
      · exact hbefore
      · exact hleast a ha
    | true =>
      refine ⟨x, .inr ⟨mem_cons_self, ?_⟩, fun a ha => ?_⟩
      · rcases hy with rfl | ⟨-, hyz⟩
        · exact hbefore
        · exact htrans x y z hbefore hyz
      · rcases mem_cons.mp ha with rfl | ha
        · exact hirrefl a
        · by_contra hax
          have hay := htrans a x y (by simpa using hax) hbefore
          rw [hleast a ha] at hay
          cases hay

end Lib.BestOf
