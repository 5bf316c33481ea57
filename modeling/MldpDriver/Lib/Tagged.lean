/-
# Lists of tagged values

A system with several queues is observed as ONE list of values, each tagged with the queue it went
through.  `onTag c` is what went through queue `c`, in order.  Two observations that agree on every
queue are permutations of each other (`perm_of_onTag`), and where a property pins values to one
queue, order on that queue is order in the observation (`filter_prefix`).
-/
import Mathlib.Data.List.Basic

namespace Lib.Tagged

open List

variable {κ α : Type} [DecidableEq κ]

/-- The values with tag `c`, in order. -/
def onTag (c : κ) (l : List (κ × α)) : List (κ × α) := l.filter (fun x => decide (x.1 = c))

@[simp] theorem onTag_append (c : κ) (l l' : List (κ × α)) :
    onTag c (l ++ l') = onTag c l ++ onTag c l' := filter_append ..

theorem onTag_self (c : κ) (x : α) : onTag c [(c, x)] = [(c, x)] := by simp [onTag]

theorem onTag_other {c d : κ} (h : d ≠ c) (x : α) : onTag c [(d, x)] = [] := by simp [onTag, h]

/-- **Observations that agree on every queue are permutations of each other.** -/
theorem perm_of_onTag {l l' : List (κ × α)} (h : ∀ c, onTag c l = onTag c l') : l.Perm l' := by
  classical
  rw [perm_iff_count]
  rintro ⟨c, x⟩
  have hcount : ∀ m : List (κ × α), m.count (c, x) = (onTag c m).count (c, x) := by
    intro m
    rw [onTag, List.count_filter (by simp)]
  rw [hcount l, hcount l', h c]

/-- A property that pins its values to tag `c` is decided on the queue of `c`. -/
theorem filter_eq_onTag {P : κ × α → Bool} {c : κ} {l : List (κ × α)}
    (h : ∀ x ∈ l, P x = true → x.1 = c) : l.filter P = (onTag c l).filter P := by
  rw [onTag, filter_filter]
  refine filter_congr fun x hx => ?_
  cases hP : P x with
  | false => simp
  | true => simp [h x hx hP]

/-- **Order on the queue is order in the observation.** -/
theorem filter_prefix {P : κ × α → Bool} {c : κ} {l l' rest : List (κ × α)}
    (h : ∀ x ∈ l, P x = true → x.1 = c) (h' : ∀ x ∈ l', P x = true → x.1 = c)
    (hsplit : onTag c l = onTag c l' ++ rest) : l'.filter P <+: l.filter P := by
  rw [filter_eq_onTag h, filter_eq_onTag h', hsplit, filter_append]
  exact prefix_append ..

theorem filter_name_eq {β ν : Type} [DecidableEq ν] (name : β → ν) :
    ∀ {l : List β} {x : β}, (l.map name).Nodup → x ∈ l →
      l.filter (fun y => decide (name y = name x)) = [x]
  | [], _, _, hx => by cases hx
  | y :: l, x, hnd, hx => by
    rw [map_cons, nodup_cons] at hnd
    rcases mem_cons.mp hx with rfl | hx'
    · have hrest : l.filter (fun y => decide (name y = name x)) = [] := by
        refine filter_eq_nil_iff.mpr fun z hz hzx => hnd.1 ?_
        rw [decide_eq_true_eq] at hzx
        exact hzx ▸ mem_map_of_mem hz
      simp [hrest]
    · have hne : name y ≠ name x := fun he => hnd.1 (he ▸ mem_map_of_mem hx')
      rw [filter_cons_of_neg (by simpa using hne)]
      exact filter_name_eq name hnd.2 hx'

end Lib.Tagged
