/-
# Requests answered between two bounds

A client sends requests to a store it does not control and keeps part of each answer.  The store
promises a lower bound (elements an answer must hold) and an upper bound (elements it may hold);
between them it is free, and it may decide by the block an element is stored in.

What the client ends up with lies between `required` and `deliverable`, and both are reached: by
the store that answers with the lower bound and by the one that answers with the upper.  So a
statement about every store is one about these two lists.
-/
import Mathlib.Data.List.Basic
import Mathlib.Data.List.Perm.Subperm

namespace Lib.Answers

open List

variable {Q α : Type}

/-- A request and the elements the client keeps of its answer. -/
structure Fetch (Q α : Type) where
  request : Q
  keep : α → Bool

/-- The elements an answer must hold, and those of a block it may hold. -/
structure Bounds (Q α : Type) where
  lower : Q → α → Bool
  upper : Q → List α → α → Bool
  le : ∀ {q block x}, x ∈ block → lower q x = true → upper q block x = true

/-- The store keeps its promise on every request. -/
def Bounds.Kept (bounds : Bounds Q α) (stored : List (List α)) (answer : Q → List α) : Prop :=
  ∀ q, ∃ choice : List α → α → Bool,
    (∀ block ∈ stored, ∀ x ∈ block, bounds.lower q x = true → choice block x = true) ∧
    (∀ block ∈ stored, ∀ x ∈ block, choice block x = true → bounds.upper q block x = true) ∧
    (answer q).Perm (stored.flatMap fun block => block.filter (choice block))

/-- What the client keeps of all answers. -/
def fetched (answer : Q → List α) (fetches : List (Fetch Q α)) : List α :=
  fetches.flatMap fun f => (answer f.request).filter f.keep

/-- The answer with the lower bound. -/
def Bounds.least (bounds : Bounds Q α) (stored : List (List α)) (q : Q) : List α :=
  stored.flatMap fun block => block.filter (bounds.lower q)

/-- The answer with the upper bound. -/
def Bounds.greatest (bounds : Bounds Q α) (stored : List (List α)) (q : Q) : List α :=
  stored.flatMap fun block => block.filter (bounds.upper q block)

/-- What the client is sure to keep. -/
def Bounds.required (bounds : Bounds Q α) (stored : List (List α)) (fetches : List (Fetch Q α)) :
    List α := fetched (bounds.least stored) fetches

/-- What the client may come to keep. -/
def Bounds.deliverable (bounds : Bounds Q α) (stored : List (List α))
    (fetches : List (Fetch Q α)) : List α := fetched (bounds.greatest stored) fetches

variable {bounds : Bounds Q α} {stored : List (List α)} {answer : Q → List α}
  {fetches : List (Fetch Q α)}

theorem mem_fetched {x : α} :
    x ∈ fetched answer fetches ↔ ∃ f ∈ fetches, x ∈ answer f.request ∧ f.keep x = true := by
  simp only [fetched, mem_flatMap, mem_filter]

theorem mem_required {x : α} : x ∈ bounds.required stored fetches ↔
    ∃ f ∈ fetches, f.keep x = true ∧ ∃ block ∈ stored, x ∈ block ∧
      bounds.lower f.request x = true := by
  simp only [Bounds.required, mem_fetched, Bounds.least, mem_flatMap, mem_filter]
  constructor
  · rintro ⟨f, hf, ⟨block, hb, hx, hl⟩, hk⟩
    exact ⟨f, hf, hk, block, hb, hx, hl⟩
  · rintro ⟨f, hf, hk, block, hb, hx, hl⟩
    exact ⟨f, hf, ⟨block, hb, hx, hl⟩, hk⟩

theorem mem_deliverable {x : α} : x ∈ bounds.deliverable stored fetches ↔
    ∃ f ∈ fetches, f.keep x = true ∧ ∃ block ∈ stored, x ∈ block ∧
      bounds.upper f.request block x = true := by
  simp only [Bounds.deliverable, mem_fetched, Bounds.greatest, mem_flatMap, mem_filter]
  constructor
  · rintro ⟨f, hf, ⟨block, hb, hx, hl⟩, hk⟩
    exact ⟨f, hf, hk, block, hb, hx, hl⟩
  · rintro ⟨f, hf, hk, block, hb, hx, hl⟩
    exact ⟨f, hf, ⟨block, hb, hx, hl⟩, hk⟩

/-! ## 1. The two extreme stores keep the promise -/

theorem least_kept (bounds : Bounds Q α) (stored : List (List α)) :
    bounds.Kept stored (bounds.least stored) := fun q =>
  ⟨fun _ => bounds.lower q, fun _ _ _ _ h => h, fun _ _ _ hx h => bounds.le hx h, List.Perm.refl _⟩

theorem greatest_kept (bounds : Bounds Q α) (stored : List (List α)) :
    bounds.Kept stored (bounds.greatest stored) := fun q =>
  ⟨bounds.upper q, fun _ _ _ hx h => bounds.le hx h, fun _ _ _ _ h => h, List.Perm.refl _⟩

/-! ## 2. Every answer lies between them -/

theorem subperm_flatMap {β γ : Type} {f g : β → List γ} {l : List β}
    (h : ∀ b ∈ l, (f b).Subperm (g b)) : (l.flatMap f).Subperm (l.flatMap g) := by
  induction l with
  | nil => exact List.Subperm.refl _
  | cons b l ih =>
    rw [flatMap_cons, flatMap_cons]
    exact (h b mem_cons_self).append (ih fun c hc => h c (mem_cons_of_mem _ hc))

theorem filter_subperm_filter {β : Type} {l : List β} {p q : β → Bool}
    (h : ∀ x ∈ l, p x = true → q x = true) : (l.filter p).Subperm (l.filter q) := by
  have hp : l.filter p = (l.filter q).filter p := by
    rw [filter_filter]
    refine filter_congr fun x hx => ?_
    cases hpx : p x with
    | false => rfl
    | true => simp [h x hx hpx]
  rw [hp]
  exact filter_sublist.subperm

section Kept

variable (h : bounds.Kept stored answer)

include h

theorem Bounds.Kept.subperm (fetches : List (Fetch Q α)) :
    (fetched answer fetches).Subperm (bounds.deliverable stored fetches) := by
  refine subperm_flatMap fun f _ => ?_
  obtain ⟨choice, -, hupper, hperm⟩ := h f.request
  have hsub : (answer f.request).Subperm (bounds.greatest stored f.request) :=
    hperm.subperm_right.mpr (subperm_flatMap fun block hb => filter_subperm_filter (hupper block hb))
  exact hsub.filter f.keep

theorem Bounds.Kept.le_deliverable {x : α} (hx : x ∈ fetched answer fetches) :
    x ∈ bounds.deliverable stored fetches := (h.subperm fetches).subset hx

theorem Bounds.Kept.required_le {x : α} (hx : x ∈ bounds.required stored fetches) :
    x ∈ fetched answer fetches := by
  obtain ⟨f, hf, hk, block, hb, hx, hl⟩ := mem_required.mp hx
  obtain ⟨choice, hlower, -, hperm⟩ := h f.request
  refine mem_fetched.mpr ⟨f, hf, hperm.mem_iff.mpr ?_, hk⟩
  exact mem_flatMap.mpr ⟨block, hb, mem_filter.mpr ⟨hx, hlower block hb x hx hl⟩⟩

end Kept

end Lib.Answers
