/-
# Lists with one entry replaced

A system of many parties keeps them in a list and moves one party at a time: `l.set i b`.  What is
counted or collected over all parties then changes by that party alone.  `countP_replace` says so
of a count and `flatMap_replace` of what the parties hold together, up to the order.
-/
import Mathlib.Data.List.Nodup
import Mathlib.Data.List.Perm.Basic

namespace Lib.Replace

open List

variable {α β : Type}
variable {l : List α}
variable {i : Nat}

/-- **A count changes by the entry replaced.** -/
theorem countP_replace {a : α} (h : l[i]? = some a) (b : α) (f : α → Bool) :
    (l.set i b).countP f + (f a).toNat = l.countP f + (f b).toNat := by
  induction l generalizing i with
  | nil => cases h
  | cons x l ih =>
    cases i with
    | zero =>
      obtain rfl := Option.some.inj h
      cases hx : f x <;> cases hb : f b <;> simp [hx, hb]
    | succ i =>
      have := ih (i := i) h
      rw [set_cons_succ, countP_cons, countP_cons]
      omega

theorem countP_replace_same {l : List α} {a b : α} {f : α → Bool} (h : l[i]? = some a)
    (hf : f b = f a) : (l.set i b).countP f = l.countP f := by
  have := countP_replace h b f
  rw [hf] at this
  omega

/-- **What the entries hold together changes by the entry replaced.** -/
theorem flatMap_replace {a : α} (h : l[i]? = some a) (b : α) (f : α → List β) :
    ((l.set i b).flatMap f ++ f a).Perm (l.flatMap f ++ f b) := by
  induction l generalizing i with
  | nil => cases h
  | cons x l ih =>
    cases i with
    | zero =>
      obtain rfl := Option.some.inj h
      simp only [set_cons_zero, flatMap_cons, append_assoc]
      exact (perm_append_comm_assoc ..).trans
        ((perm_append_comm.append_left _).trans (perm_append_comm_assoc ..))
    | succ i =>
      simp only [set_cons_succ, flatMap_cons, append_assoc]
      exact (ih (i := i) h).append_left _

theorem countP_flip {x : α} {f f' : α → Bool} (hnd : l.Nodup) (hx : x ∈ l) (hf : f x = false)
    (hf' : f' x = true) (h : ∀ y ∈ l, y ≠ x → f' y = f y) :
    l.countP f' = l.countP f + 1 := by
  obtain ⟨before, after, rfl⟩ := append_of_mem hx
  have hout : ∀ y ∈ before ++ after, y ≠ x := by
    rintro y hy rfl
    exact (nodup_middle.mp hnd).notMem hy
  have hb : before.countP f' = before.countP f := countP_congr fun y hy => by
    rw [h y (mem_append_left _ hy) (hout y (mem_append_left _ hy))]
  have ha : after.countP f' = after.countP f := countP_congr fun y hy => by
    rw [h y (mem_append_right _ (mem_cons_of_mem _ hy))
      (hout y (mem_append_right _ hy))]
  simp only [countP_append, countP_cons, hb, ha, hf, hf', if_true, Bool.false_eq_true,
    if_false]
  omega

theorem mem_replace {b x : α} (h : x ∈ l.set i b) : x = b ∨ x ∈ l :=
  (mem_or_eq_of_mem_set h).symm

theorem getElem?_replace {a : α} (h : l[i]? = some a) (b : α) (j : Nat) :
    (l.set i b)[j]? = if j = i then some b else l[j]? := by
  have hlt : i < l.length := (List.getElem?_eq_some_iff.mp h).1
  by_cases hj : j = i
  · subst hj
    simp [hlt]
  · simp [hj, Ne.symm hj]

theorem stays_replace {a x : α} (h : l[i]? = some a) (b : α) (hx : x ∈ l) :
    x = a ∨ x ∈ l.set i b := by
  obtain ⟨j, hj⟩ := List.getElem?_of_mem hx
  by_cases hij : j = i
  · subst hij
    exact .inl (Option.some.inj (hj.symm.trans h))
  · exact .inr (mem_of_getElem? ((getElem?_replace h b j).trans ((if_neg hij).trans hj)))

theorem new_replace {a : α} (h : l[i]? = some a) (b : α) :
    b ∈ l.set i b :=
  mem_of_getElem? ((getElem?_replace h b i).trans (if_pos rfl))

end Lib.Replace
