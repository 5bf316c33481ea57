/-
# Grouping rows by a key, in parts

Rows with a key are grouped: one group a key, in the order of the keys' first rows (`firstRows`),
and a group is the rows of its key in their order.  -/
import Mathlib.Data.List.Basic

namespace Lib.KeySplit

open scoped List

variable {R K : Type} [DecidableEq K]

/-! ## 1. Groups -/

/-- The rows of a key. -/
def rowsOf (key : R → K) (rows : List R) (k : K) : List R := rows.filter fun r => key r = k

/-- The first row of each key. -/
def firstRows (key : R → K) : List R → List R
  | [] => []
  | r :: rows => r :: (firstRows key rows).filter fun r' => key r' ≠ key r

variable {key : R → K}

@[simp] theorem rowsOf_nil (k : K) : rowsOf key [] k = [] := rfl

theorem rowsOf_append (rows more : List R) (k : K) :
    rowsOf key (rows ++ more) k = rowsOf key rows k ++ rowsOf key more k :=
  List.filter_append ..

variable {rows : List R}

theorem mem_firstRows_keys {k : K} :
    k ∈ (firstRows key rows).map key ↔ k ∈ rows.map key := by
  induction rows with
  | nil => rfl
  | cons r rows ih =>
    rw [firstRows, List.map_cons, List.map_cons, List.mem_cons, List.mem_cons, ← ih]
    by_cases hk : k = key r
    · simp [hk]
    · simp only [hk, false_or, List.mem_map, List.mem_filter, decide_eq_true_eq]
      exact ⟨fun ⟨r', hr', he⟩ => ⟨r', hr'.1, he⟩, fun ⟨r', hr', he⟩ =>
        ⟨r', ⟨hr', fun h => hk (he.symm.trans h)⟩, he⟩⟩

theorem firstRows_sublist (rows : List R) : (firstRows key rows).Sublist rows := by
  induction rows with
  | nil => exact List.Sublist.slnil
  | cons r rows ih => exact (List.filter_sublist.trans ih).cons_cons r

theorem firstRows_keys_nodup (rows : List R) : ((firstRows key rows).map key).Nodup := by
  induction rows with
  | nil => exact List.nodup_nil
  | cons r rows ih =>
    rw [firstRows, List.map_cons, List.nodup_cons]
    refine ⟨fun hmem => ?_, ih.sublist (List.filter_sublist.map _)⟩
    obtain ⟨r', hr', he⟩ := List.mem_map.mp hmem
    simpa [he] using (List.mem_filter.mp hr').2

theorem firstRows_head {r : R} (hr : r ∈ firstRows key rows) :
    (rowsOf key rows (key r)).head? = some r := by
  induction rows with
  | nil => cases hr
  | cons first rows ih =>
    rw [firstRows, List.mem_cons] at hr
    rcases hr with rfl | hr
    · simp [rowsOf]
    · obtain ⟨hr, hkey⟩ := List.mem_filter.mp hr
      have hne : ¬ key first = key r := fun he => by simp [he] at hkey
      rw [rowsOf, List.filter_cons_of_neg (by simpa using hne)]
      exact ih hr

theorem firstRows_append (rows more : List R) :
    firstRows key (rows ++ more) =
      firstRows key rows ++ (firstRows key more).filter fun r => key r ∉ rows.map key := by
  induction rows with
  | nil => simp [firstRows]
  | cons r rows ih =>
    rw [List.cons_append, firstRows, firstRows, ih, List.filter_append, List.filter_filter,
      List.cons_append]
    congr 2
    refine List.filter_congr fun r' _ => ?_
    by_cases hk : key r' = key r <;> simp [hk]

theorem firstRows_filter (p : K → Bool) (rows : List R) :
    firstRows key (rows.filter fun r => p (key r)) =
      (firstRows key rows).filter fun r => p (key r) := by
  induction rows with
  | nil => rfl
  | cons r rows ih =>
    rw [List.filter_cons, firstRows, List.filter_cons]
    by_cases hp : p (key r) = true
    · rw [if_pos hp, if_pos hp, firstRows, ih, List.filter_filter, List.filter_filter]
      congr 1
      exact List.filter_congr fun r' _ => Bool.and_comm _ _
    · rw [if_neg hp, if_neg hp, ih, List.filter_filter]
      refine List.filter_congr fun r' _ => ?_
      by_cases hk : key r' = key r
      · simp [hk, hp]
      · simp [hk]

theorem firstRows_map {R' : Type} (key : R' → K) (f : R → R') (rows : List R) :
    firstRows key (rows.map f) = (firstRows (fun r => key (f r)) rows).map f := by
  induction rows with
  | nil => rfl
  | cons r rows ih =>
    rw [List.map_cons, firstRows, firstRows, List.map_cons, ih, List.filter_map]
    rfl

theorem rowsOf_flatMap {F : List R → List R} (hnil : F [] = [])
    (hF : ∀ g k, (∀ r ∈ g, key r = k) → ∀ r ∈ F g, key r = k) (rows : List R) (k : K) :
    rowsOf key ((((firstRows key rows).map key).map (rowsOf key rows)).flatMap F) k =
      F (rowsOf key rows k) := by
  have hgroup : ∀ k', ∀ r ∈ F (rowsOf key rows k'), key r = k' := fun k' =>
    hF _ k' fun r hr => of_decide_eq_true (List.mem_filter.mp hr).2
  have hkeys : ∀ keys : List K, keys.Nodup →
      rowsOf key ((keys.map (rowsOf key rows)).flatMap F) k =
        if k ∈ keys then F (rowsOf key rows k) else [] := by
    intro keys hnodup
    induction keys with
    | nil => rfl
    | cons k' keys ih =>
      obtain ⟨hk', hnodup⟩ := List.nodup_cons.mp hnodup
      rw [List.map_cons, List.flatMap_cons, rowsOf_append, ih hnodup]
      by_cases hk : k = k'
      · subst hk
        rw [if_neg hk', if_pos List.mem_cons_self, List.append_nil, rowsOf]
        exact List.filter_eq_self.mpr fun r hr => decide_eq_true (hgroup k r hr)
      · have hempty : rowsOf key (F (rowsOf key rows k')) k = [] :=
          List.filter_eq_nil_iff.mpr fun r hr h =>
            hk ((of_decide_eq_true h).symm.trans (hgroup k' r hr))
        rw [hempty, List.nil_append]
        simp only [List.mem_cons, hk, false_or]
  rw [hkeys _ (firstRows_keys_nodup rows)]
  split
  · rfl
  · next hmem =>
    have hempty : rowsOf key rows k = [] := by
      refine List.filter_eq_nil_iff.mpr fun r hr h => hmem (mem_firstRows_keys.mpr ?_)
      exact List.mem_map.mpr ⟨r, hr, of_decide_eq_true h⟩
    rw [hempty, hnil]

theorem firstRows_congr {K' : Type} [DecidableEq K'] {key' : R → K'}
    (h : ∀ r ∈ rows, ∀ r' ∈ rows, (key r = key r' ↔ key' r = key' r')) :
    firstRows key rows = firstRows key' rows := by
  induction rows with
  | nil => rfl
  | cons r rows ih =>
    rw [firstRows, firstRows, ih fun r hr r' hr' =>
      h r (List.mem_cons_of_mem _ hr) r' (List.mem_cons_of_mem _ hr')]
    congr 1
    refine List.filter_congr fun r' hr' => ?_
    have hiff := h r' (List.mem_cons_of_mem _ ((firstRows_sublist rows).subset hr')) r
      List.mem_cons_self
    simp only [ne_eq, hiff]

/-! ## 2. Parts

`Splits key rows parts` says that the rows are dealt out to parts by their keys alone, so that a
part that has one row of a key has all of them, in their order.  Grouping the parts one by one is
then grouping the whole: the groups are the same up to their order (`Splits.firstRows_perm`) and
each has the same rows (`Splits.rowsOf_eq`). -/

/-- **Rows dealt out by their keys.** -/
inductive Splits (key : R → K) : List R → List (List R) → Prop
  | none : Splits key [] []
  | one (rows : List R) : Splits key rows [rows]
  | split (p : K → Bool) {rows : List R} {parts parts' : List (List R)}
      (h : Splits key (rows.filter fun r => p (key r)) parts)
      (h' : Splits key (rows.filter fun r => !p (key r)) parts') : Splits key rows (parts ++ parts')

variable {parts : List (List R)}

omit [DecidableEq K] in
theorem Splits.subset (h : Splits key rows parts) :
    ∀ part ∈ parts, ∀ r ∈ part, r ∈ rows := by
  induction h with
  | none => simp
  | one rows =>
    intro part hpart r hr
    rwa [List.mem_singleton.mp hpart] at hr
  | split p h h' ih ih' =>
    intro part hpart r hr
    rcases List.mem_append.mp hpart with hpart | hpart
    · exact (List.mem_filter.mp (ih part hpart r hr)).1
    · exact (List.mem_filter.mp (ih' part hpart r hr)).1

/-- **A part has all rows of its keys.** -/
theorem Splits.rowsOf_eq (h : Splits key rows parts) :
    ∀ part ∈ parts, ∀ r ∈ part, rowsOf key part (key r) = rowsOf key rows (key r) := by
  induction h with
  | none => simp
  | one rows =>
    intro part hpart r _
    rw [List.mem_singleton.mp hpart]
  | split p h h' ih ih' =>
    intro part hpart r hr
    rcases List.mem_append.mp hpart with hpart | hpart
    · have hp := (List.mem_filter.mp (h.subset part hpart r hr)).2
      rw [ih part hpart r hr, rowsOf, rowsOf, List.filter_filter]
      refine List.filter_congr fun r' _ => ?_
      by_cases hk : key r' = key r
      · simp [hk, hp]
      · simp [hk]
    · have hp := (List.mem_filter.mp (h'.subset part hpart r hr)).2
      rw [ih' part hpart r hr, rowsOf, rowsOf, List.filter_filter]
      refine List.filter_congr fun r' _ => ?_
      by_cases hk : key r' = key r
      · simp only [hk, decide_true, Bool.true_and]
        exact hp
      · simp [hk]

/-- **The groups of the parts are the groups of the whole**, in another order. -/
theorem Splits.firstRows_perm (h : Splits key rows parts) :
    parts.flatMap (firstRows key) ~ firstRows key rows := by
  induction h with
  | none => exact List.Perm.nil
  | one rows => simp
  | split p h h' ih ih' =>
    rw [firstRows_filter] at ih
    have hneg := @firstRows_filter _ _ _ key (fun k => !p k)
    rw [hneg] at ih'
    rw [List.flatMap_append]
    exact (ih.append ih').trans (List.filter_append_perm _ _)

omit [DecidableEq K] in
theorem Splits.buckets {bucket : K → Nat} {parts : Nat → List (List R)} {n : Nat} :
    ∀ {rows : List R}, (∀ r ∈ rows, bucket (key r) < n) →
      (∀ i < n, Splits key (rows.filter fun r => bucket (key r) == i) (parts i)) →
      Splits key rows ((List.range n).flatMap parts) := by
  induction n with
  | zero =>
    intro rows hlt _
    have hnil : rows = [] := List.eq_nil_iff_forall_not_mem.mpr fun r hr =>
      absurd (hlt r hr) (Nat.not_lt_zero _)
    rw [hnil]
    exact .none
  | succ n ih =>
    intro rows hlt hparts
    rw [List.range_succ, List.flatMap_append, List.flatMap_singleton]
    refine .split (fun k => decide (bucket k < n)) (ih (fun r hr => ?_) fun i hi => ?_) ?_
    · simpa using (List.mem_filter.mp hr).2
    · have hsame : (rows.filter fun r => decide (bucket (key r) < n)).filter
          (fun r => bucket (key r) == i) = rows.filter fun r => bucket (key r) == i := by
        rw [List.filter_filter]
        refine List.filter_congr fun r _ => ?_
        by_cases hb : bucket (key r) = i
        · simp [hb, hi]
        · simp [hb]
      rw [hsame]
      exact hparts i (Nat.lt_succ_of_lt hi)
    · have hsame : (rows.filter fun r => !decide (bucket (key r) < n)) =
          rows.filter fun r => bucket (key r) == n := by
        refine List.filter_congr fun r hr => ?_
        have hr' := hlt r hr
        by_cases hb : bucket (key r) = n
        · simp [hb]
        · have : bucket (key r) < n := by omega
          simp [hb, this]
      rw [hsame]
      exact hparts n (Nat.lt_succ_self n)

end Lib.KeySplit
