/-
# The monotone deque

A deque of CANDIDATES for the best element of a window.  An element that enters takes the place of
the candidates at the back that are not better than it (`settle`); elements that leave the window
are taken away at the front.  `keeps a b` says whether the earlier element `a` is better than `b`,
and may refuse to compare them.
-/
import Mathlib.Data.List.DropRight
import MldpDriver.Lib.BestOf

namespace Lib.MonotoneDeque

open Lib.BestOf List Option

variable {α β : Type}

section Deque

variable (keeps : α → α → Option Bool)

/-- `x` enters at the back, which is the head of the list. -/
def settle (x : α) : List α → Option (List α)
  | [] => some [x]
  | back :: rest =>
    match keeps back x with
    | none => none
    | some true => some (x :: back :: rest)
    | some false => settle x rest

/-- Elements enter one after the other. -/
def settleAll (xs : List α) (deque : List α) : Option (List α) :=
  xs.foldlM (fun deque x => settle keeps x deque) deque

/-- The best so far, which an element as good replaces. -/
def scanStep (best : Option α) (x : α) : Option (Option α) :=
  match best with
  | none => some (some x)
  | some b => (keeps b x).map fun keep => if keep then some b else some x

/-- The best of the elements from the first to the last. -/
def scan (xs : List α) : Option (Option α) :=
  xs.foldlM (scanStep keeps) none

end Deque

variable {keeps : α → α → Option Bool}

/-! ## 1. What enters -/

theorem settle_cons {x back : α} {rest r : List α} (h : settle keeps x (back :: rest) = some r) :
    (keeps back x = some true ∧ r = x :: back :: rest) ∨
      (keeps back x = some false ∧ settle keeps x rest = some r) := by
  rw [settle] at h
  split at h
  · cases h
  · rename_i hkeep
    exact .inl ⟨hkeep, (some.inj h).symm⟩
  · rename_i hkeep
    exact .inr ⟨hkeep, h⟩

theorem settleAll_cons (x : α) (xs deque : List α) :
    settleAll keeps (x :: xs) deque = (settle keeps x deque).bind (settleAll keeps xs) := rfl

theorem settleAll_append (xs ys deque : List α) :
    settleAll keeps (xs ++ ys) deque = (settleAll keeps xs deque).bind (settleAll keeps ys) := by
  rw [settleAll, foldlM_append]
  rfl

variable {x : α}
variable {xs deque r : List α}

theorem settleAll_cons_eq_some (h : settleAll keeps (x :: xs) deque = some r) :
    ∃ next, settle keeps x deque = some next ∧ settleAll keeps xs next = some r := by
  rw [settleAll_cons] at h
  exact bind_eq_some_iff.mp h

variable {deque r : List α}

theorem mem_of_mem_settle (h : settle keeps x deque = some r) {a : α} (ha : a ∈ r) :
    a = x ∨ a ∈ deque := by
  induction deque with
  | nil =>
    obtain rfl := some.inj h
    exact .inl (mem_singleton.mp ha)
  | cons back rest ih =>
    rcases settle_cons h with ⟨-, rfl⟩ | ⟨-, hrest⟩
    · exact mem_cons.mp ha
    · exact (ih hrest).imp_right (mem_cons_of_mem back)

theorem mem_of_mem_settleAll (h : settleAll keeps xs deque = some r) {a : α} (ha : a ∈ r) :
    a ∈ xs ∨ a ∈ deque := by
  induction xs generalizing deque with
  | nil =>
    obtain rfl := some.inj h
    exact .inr ha
  | cons x xs ih =>
    obtain ⟨next, hnext, hrest⟩ := settleAll_cons_eq_some h
    rcases ih hrest with hxs | hmem
    · exact .inl (mem_cons_of_mem x hxs)
    · rcases mem_of_mem_settle hnext hmem with rfl | hdeque
      · exact .inl mem_cons_self
      · exact .inr hdeque

theorem settle_ne_none {deque : List α} (h : ∀ a ∈ deque, keeps a x ≠ none) :
    settle keeps x deque ≠ none := by
  induction deque with
  | nil => exact some_ne_none _
  | cons back rest ih =>
    rw [settle]
    split
    · rename_i hnone
      exact absurd hnone (h back mem_cons_self)
    · exact some_ne_none _
    · exact ih fun a ha => h a (mem_cons_of_mem back ha)

theorem exists_settleAll {xs deque : List α}
    (h : ∀ a ∈ deque ++ xs, ∀ x ∈ xs, keeps a x ≠ none) :
    ∃ r, settleAll keeps xs deque = some r := by
  induction xs generalizing deque with
  | nil => exact ⟨deque, rfl⟩
  | cons x xs ih =>
    have hx : settle keeps x deque ≠ none := settle_ne_none fun a ha =>
      h a (mem_append_left _ ha) x mem_cons_self
    obtain ⟨next, hnext⟩ := ne_none_iff_exists'.mp hx
    rw [settleAll_cons, hnext]
    refine ih fun a ha y hy => h a ?_ y (mem_cons_of_mem x hy)
    rcases mem_append.mp ha with hmem | hmem
    · rcases mem_of_mem_settle hnext hmem with rfl | hdeque
      · exact mem_append_right _ mem_cons_self
      · exact mem_append_left _ hdeque
    · exact mem_append_right _ (mem_cons_of_mem x hmem)

theorem exists_settle_eq_cons (h : settle keeps x deque = some r) :
    ∃ rest, r = x :: rest := by
  induction deque with
  | nil => exact ⟨[], (some.inj h).symm⟩
  | cons back rest ih =>
    rcases settle_cons h with ⟨-, rfl⟩ | ⟨-, hrest⟩
    · exact ⟨back :: rest, rfl⟩
    · exact ih hrest

theorem keeps_of_settleAll {old new : List α} {a b : α}
    {r : List α} (h : settleAll keeps (old ++ a :: b :: new) [] = some r) : keeps a b ≠ none := by
  rw [settleAll_append] at h
  obtain ⟨deque, -, hrest⟩ := bind_eq_some_iff.mp h
  obtain ⟨first, hfirst, hrest⟩ := settleAll_cons_eq_some hrest
  obtain ⟨second, hsecond, -⟩ := settleAll_cons_eq_some hrest
  obtain ⟨rest, rfl⟩ := exists_settle_eq_cons hfirst
  rcases settle_cons hsecond with ⟨hkeep, -⟩ | ⟨hkeep, -⟩
  · rw [hkeep]
    exact some_ne_none _
  · rw [hkeep]
    exact some_ne_none _

theorem settleAll_map (g : β → α) (xs deque : List β) :
    settleAll keeps (xs.map g) (deque.map g) =
      (settleAll (fun a b => keeps (g a) (g b)) xs deque).map (List.map g) := by
  have hsettle : ∀ (x : β) (deque : List β), settle keeps (g x) (deque.map g) =
      (settle (fun a b => keeps (g a) (g b)) x deque).map (List.map g) := by
    intro x deque
    induction deque with
    | nil => rfl
    | cons back rest ih =>
      rw [map_cons, settle, settle]
      cases keeps (g back) (g x) with
      | none => rfl
      | some keep =>
        cases keep with
        | true => rfl
        | false => exact ih
  induction xs generalizing deque with
  | nil => rfl
  | cons x xs ih =>
    rw [map_cons, settleAll_cons, settleAll_cons, hsettle]
    cases settle (fun a b => keeps (g a) (g b)) x deque with
    | none => rfl
    | some next => exact ih next

/-! ## 2. Stale candidates

`settleAll_stale`: with the stale candidates taken away, the deque is the one made from the
elements of the window alone, for any comparison. -/

theorem settle_front {deque front r : List α} (h : settle keeps x (deque ++ front) = some r) :
    ∃ back rest, r = back ++ rest ∧ settle keeps x deque = some back ∧ rest <:+ front := by
  induction deque with
  | nil =>
    -- only the candidates at the front are left
    have hkeep : ∃ rest, r = x :: rest ∧ rest <:+ front := by
      induction front with
      | nil => exact ⟨[], (some.inj h).symm, suffix_refl _⟩
      | cons a front ih =>
        rcases settle_cons h with ⟨-, rfl⟩ | ⟨-, hrest⟩
        · exact ⟨a :: front, rfl, suffix_refl _⟩
        · obtain ⟨rest, hr, hsuffix⟩ := ih hrest
          exact ⟨rest, hr, hsuffix.trans (suffix_cons a front)⟩
    obtain ⟨rest, rfl, hsuffix⟩ := hkeep
    exact ⟨[x], rest, rfl, rfl, hsuffix⟩
  | cons a deque ih =>
    rcases settle_cons h with ⟨hkeep, rfl⟩ | ⟨hkeep, hrest⟩
    · exact ⟨x :: a :: deque, front, rfl, by rw [settle, hkeep], suffix_refl _⟩
    · obtain ⟨back, rest, hr, hback, hsuffix⟩ := ih hrest
      exact ⟨back, rest, hr, by rw [settle, hkeep, hback], hsuffix⟩

theorem settleAll_front {xs deque front r : List α}
    (h : settleAll keeps xs (deque ++ front) = some r) :
    ∃ back rest, r = back ++ rest ∧ settleAll keeps xs deque = some back ∧ rest <:+ front := by
  induction xs generalizing deque front with
  | nil => exact ⟨deque, front, (some.inj h).symm, rfl, suffix_refl _⟩
  | cons x xs ih =>
    obtain ⟨next, hnext, hrest⟩ := settleAll_cons_eq_some h
    obtain ⟨back, rest, rfl, hback, hsuffix⟩ := settle_front hnext
    obtain ⟨last, kept, rfl, hlast, hkept⟩ := ih hrest
    exact ⟨last, kept, rfl, by rw [settleAll_cons, hback, bind_some, hlast],
      hkept.trans hsuffix⟩

/-- **The window alone decides**: without the stale candidates, the deque is that of the elements
that are not stale. -/
theorem settleAll_stale {stale : α → Bool} {old new r : List α}
    (hold : ∀ a ∈ old, stale a = true) (hnew : ∀ a ∈ new, stale a = false)
    (h : settleAll keeps (old ++ new) [] = some r) :
    settleAll keeps new [] = some (r.rdropWhile stale) := by
  rw [settleAll_append] at h
  obtain ⟨front, hfront, hrest⟩ := bind_eq_some_iff.mp h
  have hentered : settleAll keeps new ([] ++ front) = some r := hrest
  obtain ⟨back, rest, rfl, hback, hsuffix⟩ := settleAll_front hentered
  have hstale : ∀ a ∈ rest, stale a = true := by
    intro a ha
    rcases mem_of_mem_settleAll hfront (hsuffix.subset ha) with hmem | hmem
    · exact hold a hmem
    · cases hmem
  have hfresh : ∀ a ∈ back, stale a = false := by
    intro a ha
    rcases mem_of_mem_settleAll hback ha with hmem | hmem
    · exact hnew a hmem
    · cases hmem
  have hdrop : (back ++ rest).rdropWhile stale = back := by
    have hrest : rest.reverse.dropWhile stale = [] := by
      rw [dropWhile_eq_nil_iff]
      exact fun a ha => hstale a (mem_reverse.mp ha)
    have hback : back.reverse.dropWhile stale = back.reverse := by
      cases hrev : back.reverse with
      | nil => rfl
      | cons a as =>
        have ha : a ∈ back := mem_reverse.mp (hrev ▸ mem_cons_self)
        rw [dropWhile_cons_of_neg (by rw [hfresh a ha]; exact Bool.false_ne_true)]
    rw [List.rdropWhile, reverse_append, dropWhile_append, hrest]
    rw [isEmpty_nil, if_pos rfl, hback, reverse_reverse]
  rw [hdrop, hback]

/-! ## 3. The front

`scan_of_settleAll`: if "better" is transitive, the front is what a scan of the elements finds,
which keeps the best one so far and takes a new one as soon as it is as good. -/

section Front

variable (htrans : ∀ a b c, keeps a b = some true → keeps b c = some true → keeps a c = some true)

/-- Every candidate is better than those behind it. -/
def Ranked (keeps : α → α → Option Bool) (deque : List α) : Prop :=
  deque.Pairwise fun later earlier => keeps earlier later = some true

include htrans

theorem ranked_settle (hranked : Ranked keeps deque) (h : settle keeps x deque = some r) :
    Ranked keeps r := by
  induction deque with
  | nil =>
    obtain rfl := some.inj h
    exact pairwise_singleton _ x
  | cons back rest ih =>
    rcases settle_cons h with ⟨hkeep, rfl⟩ | ⟨-, hrest⟩
    · refine pairwise_cons.mpr ⟨fun a ha => ?_, hranked⟩
      rcases mem_cons.mp ha with rfl | ha
      · exact hkeep
      · exact htrans a back x ((pairwise_cons.mp hranked).1 a ha) hkeep
    · exact ih (pairwise_cons.mp hranked).2 hrest

theorem scanStep_getLast? (hranked : Ranked keeps deque) (h : settle keeps x deque = some r) :
    scanStep keeps deque.getLast? x = some r.getLast? := by
  induction deque with
  | nil =>
    obtain rfl := some.inj h
    rfl
  | cons back rest ih =>
    have hbehind := pairwise_cons.mp hranked
    cases rest with
    | nil =>
      rcases settle_cons h with ⟨hkeep, rfl⟩ | ⟨hkeep, hrest⟩
      · simp [scanStep, hkeep]
      · obtain rfl := some.inj hrest
        simp [scanStep, hkeep]
    | cons next rest =>
      rw [List.getLast?_cons_cons]
      rcases settle_cons h with ⟨hkeep, rfl⟩ | ⟨-, hrest⟩
      · have hfront : keeps ((next :: rest).getLast (cons_ne_nil _ _)) x = some true :=
          htrans _ back x (hbehind.1 _ (getLast_mem _)) hkeep
        rw [List.getLast?_cons_cons, List.getLast?_cons_cons,
          List.getLast?_eq_some_getLast (cons_ne_nil _ _), scanStep, hfront]
        rfl
      · exact ih hbehind.2 hrest

theorem scan_from (hranked : Ranked keeps deque) (h : settleAll keeps xs deque = some r) :
    xs.foldlM (scanStep keeps) deque.getLast? = some r.getLast? := by
  induction xs generalizing deque with
  | nil =>
    obtain rfl := some.inj h
    rfl
  | cons x xs ih =>
    obtain ⟨next, hnext, hrest⟩ := settleAll_cons_eq_some h
    rw [foldlM_cons, scanStep_getLast? htrans hranked hnext]
    exact ih (ranked_settle htrans hranked hnext) hrest

/-- **The front is the best one.** -/
theorem scan_of_settleAll {xs r : List α} (h : settleAll keeps xs [] = some r) :
    scan keeps xs = some r.getLast? :=
  scan_from htrans List.Pairwise.nil h

end Front

/-! ## 4. Scans -/

theorem scan_map (g : β → α) (xs : List β) :
    scan keeps (xs.map g) = (scan (fun a b => keeps (g a) (g b)) xs).map (Option.map g) := by
  have hstep : ∀ best : Option β, (xs.map g).foldlM (scanStep keeps) (best.map g) =
      (xs.foldlM (scanStep fun a b => keeps (g a) (g b)) best).map (Option.map g) := by
    induction xs with
    | nil => intro best; rfl
    | cons x xs ih =>
      intro best
      rw [map_cons, foldlM_cons, foldlM_cons]
      cases best with
      | none => exact ih (some x)
      | some b =>
        simp only [scanStep, map_some]
        cases keeps (g b) (g x) with
        | none => rfl
        | some keep =>
          cases keep with
          | true => exact ih (some b)
          | false => exact ih (some x)
  exact hstep none

theorem scan_lastBest {better : α → α → Bool} {xs : List α}
    (h : ∀ a ∈ x :: xs, ∀ b ∈ x :: xs, keeps a b = some (better a b)) :
    scan keeps (x :: xs) = some (some (lastBest better x xs)) := by
  have hfold : ∀ (ys : List α) (best : α), best ∈ x :: xs → (∀ y ∈ ys, y ∈ x :: xs) →
      ys.foldlM (scanStep keeps) (some best) = some (some (lastBest better best ys)) := by
    intro ys
    induction ys with
    | nil => exact fun _ _ _ => rfl
    | cons y ys ih =>
      intro best hbest hys
      have hy : y ∈ x :: xs := hys y mem_cons_self
      have hrest : ∀ z ∈ ys, z ∈ x :: xs := fun z hz => hys z (mem_cons_of_mem y hz)
      rw [foldlM_cons, lastBest_cons]
      simp only [scanStep, h best hbest y hy, map_some]
      cases better best y with
      | true => exact ih best hbest hrest
      | false => exact ih y hy hrest
  exact hfold xs x mem_cons_self fun y hy => mem_cons_of_mem x hy

end Lib.MonotoneDeque
