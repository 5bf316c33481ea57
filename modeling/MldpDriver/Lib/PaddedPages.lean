/-
# Columns that come in pages

A page gives a column some of its values: at most as many as the page has places, and the places at
its end without a value are null.  There are two ways to put the pages of a column together.
`placed` fills every page up to its places before the next one; `joined` puts the values of all
pages one after the other and fills up once, at the end.  They are the same column exactly when no
page with a set value comes after a page that is not full (`joined_eq_placed_iff`).

The last section is about rows collected page by page and column by column.
-/
import Mathlib.Algebra.GroupWithZero.Nat
import Mathlib.Data.List.Basic
import Mathlib.Data.List.Perm.Basic

namespace Lib.PaddedPages

open List

variable {α β γ : Type}

/-! ## 1. Filling up -/

/-- The values, and nulls up to length `n`. -/
def pad (n : Nat) (xs : List (Option α)) : List (Option α) :=
  xs ++ List.replicate (n - xs.length) none

variable {xs : List (Option α)}

theorem length_pad {n : Nat} (h : xs.length ≤ n) :
    (pad n xs).length = n := by
  rw [pad, length_append, length_replicate]
  omega

theorem pad_eq_map {n : Nat} (h : xs.length ≤ n) :
    pad n xs = (List.range n).map fun i => xs.getD i none := by
  have hlength := length_pad h
  rw [pad] at hlength ⊢
  refine ext_getElem (by rw [hlength, length_map, length_range]) ?_
  intro i _ _
  rw [getElem_map, getElem_range, List.getD_eq_getElem?_getD, getElem_append]
  split
  case isTrue hi => rw [List.getElem?_eq_getElem hi, Option.getD_some]
  case isFalse hi =>
    rw [getElem_replicate, List.getElem?_eq_none (Nat.le_of_not_lt hi), Option.getD_none]

theorem filterMap_zip_pad (n : Nat) (ts : List β) (xs : List (Option α)) (f : β → α → γ) :
    (ts.zip (pad n xs)).filterMap (fun tv => tv.2.map (f tv.1)) =
      (ts.zip xs).filterMap (fun tv => tv.2.map (f tv.1)) := by
  induction xs generalizing ts n with
  | nil =>
    rw [pad, nil_append, zip_nil_right, filterMap_nil, filterMap_eq_nil_iff]
    intro tv htv
    rw [eq_of_mem_replicate (of_mem_zip htv).2, Option.map_none]
  | cons x xs ih =>
    cases ts with
    | nil => rfl
    | cons t ts =>
      have htail := ih (n - 1) ts
      unfold pad at htail
      rw [pad, length_cons, cons_append, zip_cons_cons, zip_cons_cons,
        filterMap_cons, filterMap_cons, ← Nat.sub_sub, Nat.sub_right_comm, htail]

/-! ## 2. Pages put together -/

/-- The places of a page and the values it gives. -/
abbrev Page (α : Type) := Nat × List (Option α)

def places (pages : List (Page α)) : Nat := (pages.map (·.1)).sum

def joined (pages : List (Page α)) : List (Option α) := pad (places pages) (pages.flatMap (·.2))

def placed (pages : List (Page α)) : List (Option α) := pages.flatMap fun p => pad p.1 p.2

/-- Every page before one with a set value is full. -/
def FullBefore (pages : List (Page α)) : Prop :=
  ∀ before page after, pages = before ++ page :: after → (∃ v, some v ∈ page.2) →
    ∀ p ∈ before, p.2.length = p.1

variable {p : Page α} {pages : List (Page α)}

theorem places_cons : places (p :: pages) = p.1 + places pages := rfl

theorem length_values_le (h : ∀ p ∈ pages, p.2.length ≤ p.1) :
    (pages.flatMap (·.2)).length ≤ places pages := by
  induction pages with
  | nil => exact Nat.le_refl 0
  | cons p pages ih =>
    rw [flatMap_cons, length_append, places_cons]
    exact Nat.add_le_add (h p mem_cons_self) (ih fun q hq => h q (mem_cons_of_mem p hq))

theorem length_placed (h : ∀ p ∈ pages, p.2.length ≤ p.1) :
    (placed pages).length = places pages := by
  induction pages with
  | nil => rfl
  | cons p pages ih =>
    have hp := length_pad (h p mem_cons_self)
    have hrest := ih fun q hq => h q (mem_cons_of_mem p hq)
    rw [placed] at hrest
    rw [placed, flatMap_cons, length_append, hp, hrest, places_cons]

theorem joined_cons (hp : p.2.length ≤ p.1) (h : ∀ p ∈ pages, p.2.length ≤ p.1) :
    joined (p :: pages) =
      p.2 ++ (pages.flatMap (·.2) ++ List.replicate
        (p.1 - p.2.length + (places pages - (pages.flatMap (·.2)).length)) none) := by
  have hlen := length_values_le h
  rw [joined, pad, flatMap_cons, append_assoc, length_append, places_cons]
  congr 4
  omega

theorem placed_cons :
    placed (p :: pages) = p.2 ++ (List.replicate (p.1 - p.2.length) none ++ placed pages) := by
  rw [placed, flatMap_cons, pad, append_assoc]
  rfl

/-! ## 3. Leading nulls -/

/-- The nulls before the first set value. -/
def lead (xs : List (Option α)) : Nat := (xs.takeWhile Option.isNone).length

theorem lead_none_cons (xs : List (Option α)) : lead (none :: xs) = lead xs + 1 := rfl

theorem lead_replicate_append (n : Nat) (xs : List (Option α)) :
    lead (List.replicate n none ++ xs) = n + lead xs := by
  induction n with
  | zero => rw [replicate_zero, nil_append, Nat.zero_add]
  | succ n ih =>
    rw [replicate_succ, cons_append, lead_none_cons, ih]
    omega

theorem lead_append_of_mem {v : α} (hv : some v ∈ xs) (ys : List (Option α)) :
    lead (xs ++ ys) = lead xs := by
  induction xs with
  | nil => cases hv
  | cons x xs ih =>
    cases x with
    | some w => rfl
    | none =>
      rcases mem_cons.mp hv with h | h
      · cases h
      · rw [cons_append, lead_none_cons, lead_none_cons, ih h]

theorem eq_nulls_of_unset (h : ∀ v, some v ∉ xs) :
    xs = List.replicate xs.length none := by
  refine eq_replicate_of_mem ?_
  intro x hx
  cases x with
  | none => rfl
  | some v => exact absurd hx (h v)

theorem lead_values_le (pages : List (Page α)) :
    lead (pages.flatMap (·.2)) ≤ lead (placed pages) := by
  induction pages with
  | nil => exact Nat.le_refl 0
  | cons p pages ih =>
    rw [flatMap_cons, placed_cons]
    by_cases h : ∃ v, some v ∈ p.2
    · obtain ⟨v, hv⟩ := h
      exact Nat.le_of_eq ((lead_append_of_mem hv _).trans (lead_append_of_mem hv _).symm)
    · rw [eq_nulls_of_unset fun v hv => h ⟨v, hv⟩, lead_replicate_append, lead_replicate_append,
        lead_replicate_append]
      omega

/-! ## 4. When joining is placing -/

theorem mem_placed {v : α} : some v ∈ placed pages ↔ ∃ p ∈ pages, some v ∈ p.2 := by
  simp only [placed, pad, mem_flatMap, mem_append, mem_replicate, reduceCtorEq,
    and_false, or_false]

theorem joined_eq_placed_of_gap (hgap : p.2.length < p.1) (h : ∀ p ∈ pages, p.2.length ≤ p.1) :
    joined (p :: pages) = placed (p :: pages) ↔ ∀ q ∈ pages, ∀ v, some v ∉ q.2 := by
  rw [joined_cons (Nat.le_of_lt hgap) h, placed_cons, append_cancel_left_eq]
  constructor
  · intro heq q hq v hv
    have hmem : some v ∈ pages.flatMap (·.2) := mem_flatMap.mpr ⟨q, hq, hv⟩
    have hlead := congrArg lead heq
    rw [lead_append_of_mem hmem, lead_replicate_append] at hlead
    have := lead_values_le pages
    omega
  · intro hunset
    have hvalues : pages.flatMap (·.2) = List.replicate _ none := eq_nulls_of_unset fun v hv => by
      obtain ⟨q, hq, hmem⟩ := mem_flatMap.mp hv
      exact hunset q hq v hmem
    have hplaced : placed pages = List.replicate _ none := eq_nulls_of_unset fun v hv => by
      obtain ⟨q, hq, hmem⟩ := mem_placed.mp hv
      exact hunset q hq v hmem
    have hlen := length_values_le h
    rw [hplaced, length_placed h, ← replicate_add]
    rw [hvalues, length_replicate, ← replicate_add]
    congr 1
    omega

theorem fullBefore_cons : FullBefore (p :: pages) ↔
    FullBefore pages ∧ ((∃ q ∈ pages, ∃ v, some v ∈ q.2) → p.2.length = p.1) := by
  constructor
  · intro h
    refine ⟨fun before page after heq hv q hq => ?_, fun ⟨q, hq, hv⟩ => ?_⟩
    · exact h (p :: before) page after (by rw [heq]; rfl) hv q (mem_cons_of_mem p hq)
    · obtain ⟨before, after, rfl⟩ := append_of_mem hq
      exact h (p :: before) q after rfl hv p mem_cons_self
  · rintro ⟨hpages, hp⟩ before page after heq hv q hq
    cases before with
    | nil => cases hq
    | cons b before =>
      injection heq with hb heq
      rcases mem_cons.mp hq with rfl | hq
      · rw [← hb]
        exact hp ⟨page, heq ▸ mem_append_right before mem_cons_self, hv⟩
      · exact hpages before page after heq hv q hq

/-- **Joining is placing exactly when every page before one with a set value is full.** -/
theorem joined_eq_placed_iff (h : ∀ p ∈ pages, p.2.length ≤ p.1) :
    joined pages = placed pages ↔ FullBefore pages := by
  induction pages with
  | nil =>
    refine iff_of_true rfl fun before page after heq => ?_
    cases before <;> cases heq
  | cons p pages ih =>
    have hp := h p mem_cons_self
    have hrest : ∀ q ∈ pages, q.2.length ≤ q.1 := fun q hq => h q (mem_cons_of_mem p hq)
    rw [fullBefore_cons, ← ih hrest]
    rcases Nat.lt_or_eq_of_le hp with hgap | hfull
    · rw [joined_eq_placed_of_gap hgap hrest]
      constructor
      · intro hunset
        refine ⟨(ih hrest).mpr fun before page after heq hv => ?_, fun ⟨q, hq, v, hv⟩ => ?_⟩
        · obtain ⟨v, hv⟩ := hv
          exact absurd hv (hunset page (heq ▸ mem_append_right before mem_cons_self) v)
        · exact absurd hv (hunset q hq v)
      · rintro ⟨-, hset⟩ q hq v hv
        exact absurd (hset ⟨q, hq, v, hv⟩) (Nat.ne_of_lt hgap)
    · rw [joined_cons hp hrest, placed_cons, append_cancel_left_eq, hfull, Nat.sub_self,
        Nat.zero_add, replicate_zero, nil_append, joined, pad]
      exact ⟨fun heq => ⟨heq, fun _ => rfl⟩, And.left⟩

/-! ## 5. Rows by page and by column -/

theorem flatMap_swap (f : α → β → List γ) (as : List α) (bs : List β) :
    (as.flatMap fun a => bs.flatMap (f a)).Perm
      (bs.flatMap fun b => as.flatMap fun a => f a b) := by
  induction as with
  | nil =>
    rw [flatMap_nil, flatMap_eq_nil_iff.mpr fun b _ => flatMap_nil]
  | cons a as ih =>
    exact (ih.append_left (bs.flatMap (f a))).trans
      (flatMap_append_perm bs (f a) fun b => as.flatMap fun a => f a b)

/-- Of two lists without repetition only the common members matter to a function that gives
nothing elsewhere. -/
theorem flatMap_perm_of_subset {xs ys : List α} (f : α → List γ) (hxs : xs.Nodup) (hys : ys.Nodup)
    (hsub : ∀ x ∈ xs, x ∈ ys) (hout : ∀ y ∈ ys, y ∉ xs → f y = []) :
    (xs.flatMap f).Perm (ys.flatMap f) := by
  classical
  have hperm : xs.Perm (ys.filter (· ∈ xs)) := by
    refine (perm_ext_iff_of_nodup hxs (hys.filter _)).mpr fun x => ?_
    rw [mem_filter, decide_eq_true_eq]
    exact ⟨fun hx => ⟨hsub x hx, hx⟩, And.right⟩
  have hfilter : (ys.filter (· ∈ xs)).flatMap f = ys.flatMap f := by
    clear hperm hsub hys
    induction ys with
    | nil => rfl
    | cons y ys ih =>
      have hrest := ih fun z hz => hout z (mem_cons_of_mem y hz)
      by_cases hy : y ∈ xs
      · rw [filter_cons_of_pos (by simpa using hy), flatMap_cons, flatMap_cons,
          hrest]
      · rw [filter_cons_of_neg (by simpa using hy), hrest, flatMap_cons,
          hout y mem_cons_self hy, nil_append]
  exact hfilter ▸ hperm.flatMap_right f

theorem filter_flatMap_key {κ : Type} [DecidableEq κ] {key : γ → κ} {ks : List κ}
    {f : κ → List γ} (hf : ∀ k ∈ ks, ∀ x ∈ f k, key x = k) (hks : ks.Nodup) {k : κ}
    (hk : k ∈ ks) : (ks.flatMap f).filter (fun x => key x == k) = f k := by
  induction ks with
  | nil => cases hk
  | cons j ks ih =>
    obtain ⟨hj, hks⟩ := nodup_cons.mp hks
    have hrest : ∀ i ∈ ks, ∀ x ∈ f i, key x = i := fun i hi => hf i (mem_cons_of_mem j hi)
    have hhead := hf j mem_cons_self
    rw [flatMap_cons, filter_append]
    by_cases hjk : j = k
    · subst hjk
      have hself : (f j).filter (fun x => key x == j) = f j :=
        filter_eq_self.mpr fun x hx => by simpa using hhead x hx
      have hothers : (ks.flatMap f).filter (fun x => key x == j) = [] := by
        refine filter_eq_nil_iff.mpr fun x hx => ?_
        obtain ⟨i, hi, hxi⟩ := mem_flatMap.mp hx
        rw [hrest i hi x hxi, beq_iff_eq]
        rintro rfl
        exact hj hi
      rw [hself, hothers, append_nil]
    · have hothers : (f j).filter (fun x => key x == k) = [] := by
        refine filter_eq_nil_iff.mpr fun x hx => ?_
        rw [hhead x hx, beq_iff_eq]
        exact hjk
      rw [hothers, nil_append]
      exact ih hrest hks (by
        rcases mem_cons.mp hk with rfl | hk
        · exact absurd rfl hjk
        · exact hk)

theorem perm_of_flatMap_perm {κ : Type} [DecidableEq κ] (key : γ → κ) {ks : List κ}
    {f g : κ → List γ} (hks : ks.Nodup) (hf : ∀ k ∈ ks, ∀ x ∈ f k, key x = k)
    (hg : ∀ k ∈ ks, ∀ x ∈ g k, key x = k) (h : (ks.flatMap f).Perm (ks.flatMap g)) {k : κ}
    (hk : k ∈ ks) : (f k).Perm (g k) := by
  have hfilter := h.filter fun x => key x == k
  rwa [filter_flatMap_key hf hks hk, filter_flatMap_key hg hks hk] at hfilter

theorem length_flatMap_le {f g : α → List γ} {as : List α}
    (h : ∀ a ∈ as, (f a).length ≤ (g a).length) :
    (as.flatMap f).length ≤ (as.flatMap g).length := by
  induction as with
  | nil => exact Nat.le_refl 0
  | cons a as ih =>
    rw [forall_mem_cons] at h
    rw [flatMap_cons, flatMap_cons, length_append, length_append]
    exact Nat.add_le_add h.1 (ih h.2)

theorem length_eq_of_flatMap {f g : α → List γ} {as : List α}
    (hle : ∀ a ∈ as, (f a).length ≤ (g a).length)
    (heq : (as.flatMap f).length = (as.flatMap g).length) :
    ∀ a ∈ as, (f a).length = (g a).length := by
  induction as with
  | nil => exact fun a ha => absurd ha not_mem_nil
  | cons a as ih =>
    rw [forall_mem_cons] at hle ⊢
    have htail := length_flatMap_le hle.2
    rw [flatMap_cons, flatMap_cons, length_append, length_append] at heq
    exact ⟨by omega, ih hle.2 (by omega)⟩

end Lib.PaddedPages
