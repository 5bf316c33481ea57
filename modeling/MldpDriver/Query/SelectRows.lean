/-
# Taking selected rows out of a batch

A filter or a deduplication ends with the numbers of the rows it keeps.  Where a column is a union,
runs of neighbouring numbers are copied slice by slice (`selectUnionSafeRows`); elsewhere a mask is
built and Arrow filters by it.  Both give the rows of the numbers, in order.
-/

namespace MldpDriver.Query

open List

variable {ρ : Type}

/-- `arrow::compute::Filter`. -/
def filterByMask (rows : List ρ) (mask : List Bool) : List ρ :=
  (rows.zip mask).filterMap fun entry => if entry.2 then some entry.1 else none

/-- The `while` that extends a slice: how many numbers follow `previous` without a gap. -/
def runLength : Nat → List Nat → Nat
  | _, [] => 0
  | previous, next :: rest => if next = previous + 1 then runLength next rest + 1 else 0

/-- `AppendArraySlice` for every run of neighbouring rows. -/
def selectUnionSafeRows (rows : List ρ) : List Nat → List ρ
  | [] => []
  | first :: rest =>
    (rows.drop first).take (runLength first rest + 1) ++
      selectUnionSafeRows rows (rest.drop (runLength first rest))
termination_by selected => selected.length
decreasing_by
  rw [length_drop, length_cons]
  omega

/-- The rows of the numbers. -/
def pick (rows : List ρ) (selected : List Nat) : List ρ := selected.filterMap (rows[·]?)

theorem take_one (rows : List ρ) {first : Nat} (h : first < rows.length) :
    (rows.drop first).take 1 = pick rows [first] := by
  rw [drop_eq_getElem_cons h, take_succ_cons, take_zero, pick,
    filterMap_cons, List.getElem?_eq_getElem h]
  rfl

theorem take_run (rows : List ρ) : ∀ (first : Nat) (rest : List Nat),
    (∀ row ∈ first :: rest, row < rows.length) →
      (rows.drop first).take (runLength first rest + 1) =
        pick rows (first :: rest.take (runLength first rest))
  | first, [], h => by
    have hfirst := h first (mem_singleton_self _)
    exact take_one rows hfirst
  | first, next :: rest, h => by
    have hfirst := h first mem_cons_self
    rw [runLength]
    split
    · rename_i hnext
      have ih := take_run rows next rest fun row hrow => h row (mem_cons_of_mem _ hrow)
      rw [hnext] at ih ⊢
      rw [drop_eq_getElem_cons hfirst, take_succ_cons, ih, take_succ_cons]
      simp [pick, hfirst]
    · rw [take_one rows hfirst]
      rfl

theorem selectUnionSafeRows_eq (rows : List ρ) (selected : List Nat)
    (h : ∀ row ∈ selected, row < rows.length) :
    selectUnionSafeRows rows selected = pick rows selected := by
  fun_induction selectUnionSafeRows rows selected with
  | case1 => rfl
  | case2 first rest ih =>
    have hrest : ∀ row ∈ rest.drop (runLength first rest), row < rows.length := by
      intro row hrow
      exact h row (mem_cons_of_mem _ (mem_of_mem_drop hrow))
    rw [take_run rows first rest h, ih hrest, pick, pick, ← filterMap_append,
      cons_append, take_append_drop]
    rfl

/-! ## 1. Selecting by a test -/

/-- The numbers of the rows that pass, counted from `start`. -/
def numbersFrom (test : ρ → Bool) : Nat → List ρ → List Nat
  | _, [] => []
  | start, row :: rows =>
    if test row then start :: numbersFrom test (start + 1) rows
    else numbersFrom test (start + 1) rows

theorem mem_numbersFrom {test : ρ → Bool} {start : Nat} {rows : List ρ} {number : Nat}
    (h : number ∈ numbersFrom test start rows) : start ≤ number ∧ number < start + rows.length := by
  induction rows generalizing start with
  | nil => cases h
  | cons row rows ih =>
    rw [numbersFrom] at h
    rw [length_cons]
    split at h
    · rcases mem_cons.mp h with rfl | h
      · omega
      · have := ih h
        omega
    · have := ih h
      omega

theorem pick_numbersFrom (test : ρ → Bool) (front rows : List ρ) :
    pick (front ++ rows) (numbersFrom test front.length rows) = rows.filter test := by
  induction rows generalizing front with
  | nil => rfl
  | cons row rows ih =>
    have hfront := ih (front ++ [row])
    rw [length_append, length_singleton, append_assoc, singleton_append]
      at hfront
    rw [numbersFrom, filter_cons]
    split
    · rw [← hfront, pick, filterMap_cons,
        List.getElem?_append_right (Nat.le_refl _), Nat.sub_self]
      rfl
    · exact hfront

theorem filterByMask_map (test : ρ → Bool) (rows : List ρ) :
    filterByMask rows (rows.map test) = rows.filter test := by
  induction rows with
  | nil => rfl
  | cons row rows ih =>
    have hcons : filterByMask (row :: rows) ((row :: rows).map test) =
        if test row then row :: filterByMask rows (rows.map test)
        else filterByMask rows (rows.map test) := by
      rw [filterByMask, map_cons, zip_cons_cons, filterMap_cons]
      cases test row <;> rfl
    rw [hcons, ih, filter_cons]

/-- **Both ways of selecting keep the rows that pass, in order.** -/
theorem select_eq_filter (union : Bool) (test : ρ → Bool) (rows : List ρ) :
    (if union then selectUnionSafeRows rows (numbersFrom test 0 rows)
      else filterByMask rows (rows.map test)) = rows.filter test := by
  cases union with
  | false => exact filterByMask_map test rows
  | true =>
    rw [if_pos rfl, selectUnionSafeRows_eq rows _ fun row hrow => by
      have := mem_numbersFrom hrow
      omega]
    exact pick_numbersFrom test [] rows

theorem filter_eq_filter_iff {α : Type} {p q : α → Bool} {l : List α} :
    l.filter p = l.filter q ↔ ∀ a ∈ l, p a = q a := by
  constructor
  · intro h a ha
    have hmem : a ∈ l.filter p ↔ a ∈ l.filter q := by rw [h]
    rw [mem_filter, mem_filter] at hmem
    rw [Bool.eq_iff_iff]
    exact ⟨fun hp => (hmem.mp ⟨ha, hp⟩).2, fun hq => (hmem.mpr ⟨ha, hq⟩).2⟩
  · exact filter_congr

end MldpDriver.Query
