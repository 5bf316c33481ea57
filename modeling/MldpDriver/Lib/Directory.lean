/-
# Directories

A directory is a list of files, each a path and its content; what is at a path is `lookup`.  A file
is created or truncated by `put`, removed by `remove` and moved by `move`, which replaces what is at
the target.  Each touches its own paths only.
-/
import Mathlib.Data.List.Basic

namespace Lib.Directory

open List

variable {P C : Type} [DecidableEq P]

abbrev Files (P C : Type) := List (P × C)

def remove (d : Files P C) (path : P) : Files P C :=
  d.filter fun x => decide (x.1 ≠ path)

/-- Create the file, or truncate the one that is there. -/
def put (d : Files P C) (path : P) (content : C) : Files P C :=
  (path, content) :: remove d path

/-- Move the file, if there is one. -/
def move (d : Files P C) (source target : P) : Files P C :=
  match d.lookup source with
  | none => d
  | some content => put (remove d source) target content

variable {d : Files P C} {path target p : P} {content : C}

theorem lookup_cons_of_ne {x : P × C} (h : p ≠ x.1) : List.lookup p (x :: d) = d.lookup p := by
  have hbeq : (p == x.1) = false := by simpa using h
  rw [lookup_cons, hbeq]

theorem lookup_cons_same (x : P × C) : List.lookup x.1 (x :: d) = some x.2 := lookup_cons_self

theorem lookup_remove (d : Files P C) (path p : P) :
    (remove d path).lookup p = if p = path then none else d.lookup p := by
  induction d with
  | nil => simp [remove]
  | cons x d ih =>
    rw [remove] at ih ⊢
    by_cases hx : x.1 = path
    · rw [filter_cons_of_neg (by simpa using hx), ih]
      by_cases hp : p = path
      · rw [if_pos hp, if_pos hp]
      · rw [if_neg hp, if_neg hp, lookup_cons_of_ne fun he => hp (he.trans hx)]
    · rw [filter_cons_of_pos (by simpa using hx)]
      by_cases hp : p = x.1
      · subst hp
        rw [lookup_cons_same, lookup_cons_same, if_neg hx]
      · rw [lookup_cons_of_ne hp, lookup_cons_of_ne hp, ih]

theorem lookup_put (d : Files P C) (path : P) (content : C) (p : P) :
    (put d path content).lookup p = if p = path then some content else d.lookup p := by
  rw [put]
  by_cases hp : p = path
  · subst hp
    simp
  · rw [if_neg hp, lookup_cons_of_ne hp, lookup_remove, if_neg hp]

@[simp] theorem lookup_remove_self : (remove d path).lookup path = none := by
  simp [lookup_remove]

theorem lookup_remove_of_ne (h : p ≠ path) : (remove d path).lookup p = d.lookup p := by
  simp [lookup_remove, h]

@[simp] theorem lookup_put_self : (put d path content).lookup path = some content := by
  simp [lookup_put]

theorem lookup_put_of_ne (h : p ≠ path) : (put d path content).lookup p = d.lookup p := by
  simp [lookup_put, h]

theorem lookup_move_target (h : d.lookup path = some content) :
    (move d path target).lookup target = some content := by
  rw [move, h]
  exact lookup_put_self

theorem lookup_move_of_ne (hsource : p ≠ path) (htarget : p ≠ target) :
    (move d path target).lookup p = d.lookup p := by
  rw [move]
  cases d.lookup path with
  | none => rfl
  | some content => exact (lookup_put_of_ne htarget).trans (lookup_remove_of_ne hsource)

theorem mem_of_lookup (h : d.lookup path = some content) : (path, content) ∈ d := by
  obtain ⟨before, after, rfl, -⟩ := List.lookup_eq_some_iff.mp h
  exact mem_append_right _ mem_cons_self

theorem lookup_eq_some_iff (h : (d.map Prod.fst).Nodup) :
    d.lookup path = some content ↔ (path, content) ∈ d := by
  refine ⟨mem_of_lookup, fun hmem => ?_⟩
  induction d with
  | nil => cases hmem
  | cons x d ih =>
    obtain ⟨hx, hd⟩ := nodup_cons.mp h
    rcases mem_cons.mp hmem with rfl | hmem
    · exact lookup_cons_self
    · have hne : path ≠ x.1 := by
        rintro rfl
        exact hx (mem_map.mpr ⟨_, hmem, rfl⟩)
      rw [lookup_cons_of_ne hne, ih hd hmem]

/-! ## Names with a separator

Names of files are often put together with a separator; `split_unique` and `splitLast_unique` take
them apart again. -/

theorem split_unique {c : Char} {a b x y : List Char} (ha : c ∉ a) (hb : c ∉ b)
    (h : a ++ c :: x = b ++ c :: y) : a = b ∧ x = y := by
  induction a generalizing b with
  | nil =>
    cases b with
    | nil => exact ⟨rfl, (List.cons.inj h).2⟩
    | cons d b => exact absurd (List.cons.inj h).1 fun hcd => hb (hcd ▸ mem_cons_self)
  | cons d a ih =>
    cases b with
    | nil => exact absurd (List.cons.inj h).1.symm fun hcd => ha (hcd ▸ mem_cons_self)
    | cons e b =>
      obtain ⟨rfl, htail⟩ := List.cons.inj h
      obtain ⟨rfl, hxy⟩ := ih (fun h => ha (mem_cons_of_mem _ h))
        (fun h => hb (mem_cons_of_mem _ h)) htail
      exact ⟨rfl, hxy⟩

theorem splitLast_unique {c : Char} {a b x y : List Char} (hx : c ∉ x) (hy : c ∉ y)
    (h : a ++ c :: x = b ++ c :: y) : a = b ∧ x = y := by
  have hreverse := congrArg List.reverse h
  simp only [reverse_append, reverse_cons, append_assoc, singleton_append]
    at hreverse
  obtain ⟨hxy, hab⟩ := split_unique (by simpa using hx) (by simpa using hy) hreverse
  exact ⟨reverse_inj.mp hab, reverse_inj.mp hxy⟩

end Lib.Directory
