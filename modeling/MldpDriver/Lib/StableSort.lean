/-
# Stable sorting by a strict comparison

`std::stable_sort` takes a strict comparison `less`.  `WeakOrder less` is its precondition: two
elements neither of which is less than the other are TIED, and being tied is transitive.

The result is characterised by `Before less arrived`: an element stands before another when it is
less, or when they are tied and it arrived first.  Section 1 builds weak orders from parts, section
2 is the sort.
-/
import Mathlib.Data.List.Basic

namespace Lib.StableSort

open List Option

variable {α β : Type}

/-! ## 1. Comparisons -/

/-- No two elements are less than each other. -/
def Asymmetric (less : α → α → Bool) : Prop := ∀ a b, less a b = true → less b a = false

/-- The precondition of `std::stable_sort`. -/
structure WeakOrder (less : α → α → Bool) : Prop where
  asymm : Asymmetric less
  trans : ∀ a b c, less a b = false → less b c = false → less a c = false

variable {less f g : α → α → Bool}

/-- What is not greater than `a` is less than whatever `a` is less than. -/
theorem WeakOrder.less_of_le_less (h : WeakOrder less) {a b c : α} (hab : less b a = false)
    (hbc : less b c = true) : less a c = true := by
  cases hac : less a c with
  | true => rfl
  | false => exact absurd (h.trans b a c hab hac) (by simp [hbc])

/-- Comparing by a key. -/
def onKey (key : α → β) (less : β → β → Bool) (a b : α) : Bool := less (key a) (key b)

/-- The reversed comparison. -/
def reversed (less : α → α → Bool) (a b : α) : Bool := less b a

/-- Compare by `f`, and ties by `g`. -/
def thenBy (f g : α → α → Bool) (a b : α) : Bool := f a b || (!f b a && g a b)

/-- Missing values after all others, tied with each other. -/
def nullsLast (less : α → α → Bool) : Option α → Option α → Bool
  | some a, some b => less a b
  | some _, none => true
  | none, _ => false

/-- Everything is tied. -/
def tied (_ _ : α) : Bool := false

theorem Asymmetric.onKey {less : β → β → Bool} (h : Asymmetric less) (key : α → β) :
    Asymmetric (onKey key less) :=
  fun a b => h (key a) (key b)

theorem Asymmetric.reversed (h : Asymmetric less) : Asymmetric (reversed less) :=
  fun a b => h b a

theorem Asymmetric.tied : Asymmetric (tied : α → α → Bool) := fun _ _ h => by cases h

theorem Asymmetric.thenBy (hf : Asymmetric f) (hg : Asymmetric g) : Asymmetric (thenBy f g) := by
  intro a b h
  simp only [StableSort.thenBy, Bool.or_eq_true, Bool.and_eq_true, Bool.not_eq_true'] at h
  rcases h with h | ⟨h1, h2⟩
  · simp [StableSort.thenBy, hf a b h, h]
  · simp [StableSort.thenBy, h1, hg a b h2]

theorem Asymmetric.nullsLast (h : Asymmetric less) : Asymmetric (nullsLast less) := by
  intro a b
  cases a <;> cases b <;> simp [StableSort.nullsLast]
  exact h _ _

theorem WeakOrder.onKey {less : β → β → Bool} (h : WeakOrder less) (key : α → β) :
    WeakOrder (onKey key less) where
  asymm := h.asymm.onKey key
  trans a b c := h.trans (key a) (key b) (key c)

theorem WeakOrder.reversed (h : WeakOrder less) : WeakOrder (reversed less) where
  asymm := h.asymm.reversed
  trans a b c hab hbc := h.trans c b a hbc hab

theorem WeakOrder.tied : WeakOrder (tied : α → α → Bool) where
  asymm := Asymmetric.tied
  trans _ _ _ _ _ := rfl

theorem thenBy_eq_false : thenBy f g a b = false ↔
    f a b = false ∧ (f b a = true ∨ g a b = false) := by
  unfold thenBy
  cases f a b <;> cases f b a <;> simp

theorem WeakOrder.thenBy (hf : WeakOrder f) (hg : WeakOrder g) : WeakOrder (thenBy f g) where
  asymm := hf.asymm.thenBy hg.asymm
  trans a b c hab hbc := by
    rw [thenBy_eq_false] at hab hbc ⊢
    refine ⟨hf.trans a b c hab.1 hbc.1, ?_⟩
    rcases hab.2 with hba | hgab
    · -- `b` is less than `a`, and `c` is not greater than `b`
      exact Or.inl (hf.less_of_le_less hbc.1 hba)
    · rcases hbc.2 with hcb | hgbc
      · cases hca : f c a with
        | true => exact Or.inl rfl
        | false => exact absurd (hf.trans c a b hca hab.1) (by simp [hcb])
      · exact Or.inr (hg.trans a b c hgab hgbc)

theorem WeakOrder.nullsLast (h : WeakOrder less) : WeakOrder (nullsLast less) where
  asymm := h.asymm.nullsLast
  trans a b c := by
    cases a <;> cases b <;> cases c <;> simp [StableSort.nullsLast]
    exact h.trans _ _ _

/-! ## 2. The sort -/

/-- `std::stable_sort`. -/
def stableSort (less : α → α → Bool) (xs : List α) : List α :=
  xs.mergeSort fun a b => !less b a

theorem stableSort_perm (less : α → α → Bool) (xs : List α) : (stableSort less xs).Perm xs :=
  mergeSort_perm xs _

theorem stableSort_congr {xs : List α} (h : ∀ a ∈ xs, ∀ b ∈ xs, f a b = g a b) :
    stableSort f xs = stableSort g xs := by
  have := map_mergeSort (r := fun a b => !f b a) (s := fun a b => !g b a) (f := id) (l := xs)
    fun a ha b hb => by simp [h b hb a ha]
  simpa [stableSort] using this

/-- `a` stands before `b`: it is less, or they are tied and it arrived first. -/
def Before (less : α → α → Bool) (arrived : α → α → Prop) (a b : α) : Prop :=
  less b a = false ∧ (less a b = false → arrived a b)

variable {arrived : α → α → Prop}

/-- **The result is sorted, ties in order of arrival.** -/
theorem stableSort_before (h : WeakOrder less) {xs : List α} (hxs : xs.Pairwise arrived) :
    (stableSort less xs).Pairwise (Before less arrived) := by
  have htrans : ∀ a b c : α, (!less b a) = true → (!less c b) = true → (!less c a) = true := by
    simp only [Bool.not_eq_true']
    exact fun a b c hab hbc => h.trans c b a hbc hab
  have htotal : ∀ a b : α, ((!less b a) || (!less a b)) = true := by
    intro a b
    cases hl : less b a with
    | false => rfl
    | true => simp [h.asymm b a hl]
  induction xs with
  | nil => simp [stableSort]
  | cons x xs ih =>
    obtain ⟨hx, hrest⟩ := pairwise_cons.mp hxs
    -- `x` is inserted behind the elements that are less than it
    obtain ⟨front, back, hsort, hsplit, hfront⟩ := mergeSort_cons htrans htotal x xs
    have hih : (front ++ back).Pairwise (Before less arrived) := by
      rw [← hsplit]
      exact ih hrest
    have hsorted := pairwise_mergeSort htrans htotal (x :: xs)
    unfold stableSort
    rw [hsort] at hsorted ⊢
    rw [pairwise_append, pairwise_cons] at hsorted ⊢
    rw [pairwise_append] at hih
    obtain ⟨-, ⟨hback, -⟩, -⟩ := hsorted
    have hmem : ∀ b ∈ back, b ∈ xs := fun b hb => by
      have : b ∈ xs.mergeSort fun a b => !less b a := by simp [hsplit, hb]
      simpa using this
    refine ⟨hih.1, ⟨fun b hb => ⟨by simpa using hback b hb, fun _ => hx b (hmem b hb)⟩, hih.2.1⟩, ?_⟩
    intro a ha b hb
    rcases mem_cons.mp hb with rfl | hb
    · have hlt : less a b = true := by simpa using hfront a ha
      exact ⟨h.asymm a b hlt, fun hf => by simp [hlt] at hf⟩
    · exact hih.2.2 a ha b hb

/-! ## 3. Two comparisons of the same rows -/

section Agree

/-- Row numbers arrive in their numeric order. -/
abbrev Earlier (a b : Nat) : Prop := a < b

variable {row : Nat → α} {n : Nat} {order order' : List Nat}

/-- Two numbers that a stable arrangement has no reason to swap stand in their order. -/
theorem stands_before (hp : order.Perm (List.range n))
    (hsorted : order.Pairwise (Before (onKey row f) Earlier)) {i j : Nat} (hij : i < j) (hj : j < n)
    (hf : f (row j) (row i) = false) :
    ∃ p q : Nat, p < q ∧ order[p]? = some i ∧ order[q]? = some j := by
  have hmem : ∀ k < n, k ∈ order := fun k hk => hp.mem_iff.mpr (mem_range.mpr hk)
  obtain ⟨p, hpl, hpi⟩ := mem_iff_getElem.mp (hmem i (Nat.lt_trans hij hj))
  obtain ⟨q, hql, hqj⟩ := mem_iff_getElem.mp (hmem j hj)
  refine ⟨p, q, ?_, by simp [hpl, hpi], by simp [hql, hqj]⟩
  rcases Nat.lt_trichotomy p q with h | h | h
  · exact h
  · subst h
    omega
  · have hbefore := pairwise_iff_getElem.mp hsorted q p hql hpl h
    rw [hpi, hqj] at hbefore
    exact absurd (hbefore.2 hf) (by omega)

/-- Arrangements that show the same rows leave the same pairs in their order. -/
theorem not_less_of_same (hp : order.Perm (List.range n))
    (hsorted : order.Pairwise (Before (onKey row f) Earlier))
    (hsorted' : order'.Pairwise (Before (onKey row g) Earlier))
    (hsame : order.map row = order'.map row) {i j : Nat} (hij : i < j) (hj : j < n)
    (hf : f (row j) (row i) = false) : g (row j) (row i) = false := by
  obtain ⟨p, q, hpq, hpi, hqj⟩ := stands_before hp hsorted hij hj hf
  have hrow : ∀ k, (order[k]?).map row = (order'[k]?).map row := fun k => by
    rw [← List.getElem?_map, hsame, List.getElem?_map]
  have hpi' := hrow p
  have hqj' := hrow q
  rw [hpi, map_some] at hpi'
  rw [hqj, map_some] at hqj'
  obtain ⟨i', hi', hri⟩ := map_eq_some_iff.mp hpi'.symm
  obtain ⟨j', hj', hrj⟩ := map_eq_some_iff.mp hqj'.symm
  obtain ⟨hpl, rfl⟩ := List.getElem?_eq_some_iff.mp hi'
  obtain ⟨hql, rfl⟩ := List.getElem?_eq_some_iff.mp hj'
  have hbefore := pairwise_iff_getElem.mp hsorted' p q hpl hql hpq
  simpa only [onKey, hri, hrj] using hbefore.1

/-- **Sorting by `f` shows what sorting by `g` shows exactly when `f` and `g` agree on which rows
to swap**: for every two rows in their order of arrival, either both comparisons put the later
row first or neither does. -/
theorem stableSort_shows_iff (hf : WeakOrder f) (hg : Asymmetric g) :
    (∃ order : List Nat, order.Perm (List.range n) ∧ order.Pairwise (Before (onKey row g) Earlier) ∧
        (stableSort (onKey row f) (List.range n)).map row = order.map row) ↔
      ∀ i j, i < j → j < n → f (row j) (row i) = g (row j) (row i) := by
  have hp := stableSort_perm (onKey row f) (List.range n)
  have hsorted : (stableSort (onKey row f) (List.range n)).Pairwise
      (Before (onKey row f) Earlier) :=
    stableSort_before (hf.onKey row) pairwise_lt_range
  constructor
  · rintro ⟨order, hp', hsorted', hsame⟩ i j hij hj
    cases hfv : f (row j) (row i) with
    | false => exact (not_less_of_same hp hsorted hsorted' hsame hij hj hfv).symm
    | true =>
      cases hgv : g (row j) (row i) with
      | true => rfl
      | false =>
        have := not_less_of_same hp' hsorted' hsorted hsame.symm hij hj hgv
        simp [hfv] at this
  · intro hagree
    refine ⟨_, hp, ?_, rfl⟩
    have hnodup : (stableSort (onKey row f) (List.range n)).Nodup :=
      hp.nodup_iff.mpr nodup_range
    have hlt : ∀ k ∈ stableSort (onKey row f) (List.range n), k < n := fun k hk =>
      mem_range.mp (hp.mem_iff.mp hk)
    refine (List.Pairwise.and hsorted hnodup).imp_of_mem ?_
    rintro a b ha hb ⟨⟨hba, harr⟩, hne⟩
    rcases Nat.lt_or_gt_of_ne hne with hab | hab
    · exact ⟨(hagree a b hab (hlt b hb)).symm.trans hba, fun _ => hab⟩
    · -- `b` arrived first, so `a` is less
      have hless : f (row a) (row b) = true := by
        cases h : f (row a) (row b) with
        | true => rfl
        | false => exact absurd (harr h) (by omega)
      have hgless : g (row a) (row b) = true := (hagree b a hab (hlt a ha)).symm.trans hless
      exact ⟨hg _ _ hgless, fun h => by simp [onKey, hgless] at h⟩

end Agree

end Lib.StableSort
