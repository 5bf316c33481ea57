/-
# Nested-loop joins

`innerJoin` and `leftOuterJoin` pair the elements of two lists by a Boolean relation.  They are the
definitions other join algorithms are compared with: `inner_swap` exchanges the two loops,
`inner_map` and `leftOuter_map` move them to the rows that numbers stand for.
-/
import Mathlib.Data.Multiset.Bind

namespace Lib.NestedLoop

open List

variable {α β γ δ ε : Type} {p : α → β → Bool} {f : α → β → γ} {pad : α → γ}

/-- Every pair that is related. -/
def innerJoin (p : α → β → Bool) (f : α → β → γ) (xs : List α) (ys : List β) : List γ :=
  xs.flatMap fun x => (ys.filter (p x)).map (f x)

/-- Every pair that is related, and the left elements that are related to nothing. -/
def leftOuterJoin (p : α → β → Bool) (f : α → β → γ) (pad : α → γ) (xs : List α) (ys : List β) :
    List γ :=
  xs.flatMap fun x => if (ys.filter (p x)).isEmpty then [pad x] else (ys.filter (p x)).map (f x)

@[simp] theorem inner_nil_left (ys : List β) : innerJoin p f [] ys = [] := rfl

@[simp] theorem inner_nil_right (xs : List α) : innerJoin p f xs [] = [] := by
  simp [innerJoin]

@[simp] theorem leftOuter_nil_left (ys : List β) : leftOuterJoin p f pad [] ys = [] := rfl

@[simp] theorem leftOuter_nil_right (xs : List α) : leftOuterJoin p f pad xs [] = xs.map pad := by
  simp [leftOuterJoin, map_eq_flatMap]

theorem flatMap_inner (xs : List α) (ys : List β) :
    (xs.flatMap fun x => innerJoin p f [x] ys) = innerJoin p f xs ys := by
  simp [innerJoin]

theorem flatMap_leftOuter (xs : List α) (ys : List β) :
    (xs.flatMap fun x => leftOuterJoin p f pad [x] ys) = leftOuterJoin p f pad xs ys := by
  simp [leftOuterJoin]

theorem map_filter_eq_flatMap (ys : List β) (q : β → Bool) (g : β → γ) :
    (ys.filter q).map g = ys.flatMap fun y => if q y then [g y] else [] := by
  induction ys with
  | nil => rfl
  | cons y ys ih =>
    cases hq : q y <;> simp [hq, ih]

/-- **The loops can be exchanged.** -/
theorem inner_swap (xs : List α) (ys : List β) :
    (innerJoin p f xs ys).Perm (innerJoin (fun y x => p x y) (fun y x => f x y) ys xs) := by
  have key := Multiset.bind_bind (↑xs : Multiset α) (↑ys : Multiset β)
    (f := fun x y => (↑(if p x y then [f x y] else []) : Multiset γ))
  simp only [Multiset.coe_bind] at key
  simpa only [innerJoin, map_filter_eq_flatMap] using Multiset.coe_eq_coe.mp key

theorem inner_congr {p' : α → β → Bool} {f' : α → β → γ} {xs : List α} {ys : List β}
    (hp : ∀ x ∈ xs, ∀ y ∈ ys, p x y = p' x y) (hf : ∀ x ∈ xs, ∀ y ∈ ys, f x y = f' x y) :
    innerJoin p f xs ys = innerJoin p' f' xs ys := by
  unfold innerJoin
  refine flatMap_congr fun x hx => ?_
  rw [filter_congr fun y hy => hp x hx y hy]
  exact map_congr_left fun y hy => hf x hx y (mem_of_mem_filter hy)

theorem leftOuter_congr {p' : α → β → Bool} {f' : α → β → γ} {pad' : α → γ} {xs : List α}
    {ys : List β} (hp : ∀ x ∈ xs, ∀ y ∈ ys, p x y = p' x y)
    (hf : ∀ x ∈ xs, ∀ y ∈ ys, f x y = f' x y) (hpad : ∀ x ∈ xs, pad x = pad' x) :
    leftOuterJoin p f pad xs ys = leftOuterJoin p' f' pad' xs ys := by
  unfold leftOuterJoin
  refine flatMap_congr fun x hx => ?_
  rw [filter_congr fun y hy => hp x hx y hy, hpad x hx,
    map_congr_left fun y hy => hf x hx y (mem_of_mem_filter hy)]

theorem inner_map (g : δ → α) (h : ε → β) (xs : List δ) (ys : List ε) :
    innerJoin p f (xs.map g) (ys.map h) =
      innerJoin (fun x y => p (g x) (h y)) (fun x y => f (g x) (h y)) xs ys := by
  simp only [innerJoin, flatMap_map, filter_map, map_map]
  rfl

theorem leftOuter_map (g : δ → α) (h : ε → β) (xs : List δ) (ys : List ε) :
    leftOuterJoin p f pad (xs.map g) (ys.map h) =
      leftOuterJoin (fun x y => p (g x) (h y)) (fun x y => f (g x) (h y)) (fun x => pad (g x)) xs
        ys := by
  simp only [leftOuterJoin, flatMap_map, filter_map, map_map, isEmpty_map]
  rfl

theorem map_inner (g : γ → δ) (xs : List α) (ys : List β) :
    (innerJoin p f xs ys).map g = innerJoin p (fun x y => g (f x y)) xs ys := by
  simp [innerJoin, map_flatMap, map_map, Function.comp_def]

theorem map_leftOuter (g : γ → δ) (xs : List α) (ys : List β) :
    (leftOuterJoin p f pad xs ys).map g =
      leftOuterJoin p (fun x y => g (f x y)) (fun x => g (pad x)) xs ys := by
  simp only [leftOuterJoin, map_flatMap]
  refine flatMap_congr fun x _ => ?_
  split <;> simp [Function.comp_def]

/-! ## Chains of joins

A `Stage` is one join of a left-deep chain.  `chain_filter` is about conditions on the right rows
that are applied below the joins: they keep every row that the same conditions keep above the
joins, and null-extended rows besides. -/

/-- One join of a chain that accumulates rows of type `α`: its right rows, the condition it joins
on, the accumulated row with a right row or with none, and whether unmatched rows are kept. -/
structure Stage (α β : Type) where
  outer : Bool
  rows : List β
  on : α → β → Bool
  extend : α → Option β → α

namespace Stage

variable (s : Stage α β)

/-- The right rows that are related to `x`. -/
def partners (x : α) : List β := s.rows.filter (s.on x)

/-- What the join makes of one accumulated row. -/
def step (x : α) : List α :=
  if s.outer && (s.partners x).isEmpty then [s.extend x none]
  else (s.partners x).map fun y => s.extend x (some y)

/-- The join over the right rows that satisfy `keep` only. -/
def restrict (keep : β → Bool) : Stage α β := { s with rows := s.rows.filter keep }

variable {s} in
theorem mem_step {x x' : α} (h : x' ∈ s.step x) :
    (∃ y ∈ s.rows, s.on x y = true ∧ x' = s.extend x (some y)) ∨
      (s.outer = true ∧ (∀ y ∈ s.rows, s.on x y = false) ∧ x' = s.extend x none) := by
  unfold step at h
  split at h
  · rename_i hpad
    rw [Bool.and_eq_true] at hpad
    exact .inr ⟨hpad.1, by simpa [partners] using hpad.2, mem_singleton.mp h⟩
  · obtain ⟨y, hy, rfl⟩ := mem_map.mp h
    have hy' : y ∈ s.rows ∧ s.on x y = true := by simpa [partners] using hy
    exact .inl ⟨y, hy'.1, hy'.2, rfl⟩

theorem partners_restrict (keep : β → Bool) (x : α) :
    (s.restrict keep).partners x = (s.partners x).filter keep := by
  simp only [partners, restrict, filter_filter]
  exact filter_congr fun y _ => Bool.and_comm _ _

end Stage

/-- The joins of a chain one after the other, on one accumulated row. -/
def chain : List (Stage α β) → α → List α
  | [], x => [x]
  | s :: rest, x => (s.step x).flatMap (chain rest)

/-- `P` of every row of a chain, as a statement about the rows that are joined. -/
def Every (P : α → Prop) : List (Stage α β) → α → Prop
  | [], x => P x
  | s :: rest, x =>
    (∀ y ∈ s.rows, s.on x y = true → Every P rest (s.extend x (some y))) ∧
      (s.outer = true → (∀ y ∈ s.rows, s.on x y = false) → Every P rest (s.extend x none))

theorem partners_isEmpty {s : Stage α β} {x : α} :
    (s.partners x).isEmpty = true ↔ ∀ y ∈ s.rows, s.on x y = false := by
  simp [Stage.partners]

theorem forall_chain {P : α → Prop} :
    ∀ {stages : List (Stage α β)} {x : α}, (∀ y ∈ chain stages x, P y) ↔ Every P stages x
  | [], x => by simp [chain, Every]
  | s :: rest, x => by
    have hpart : ∀ y, y ∈ s.partners x ↔ y ∈ s.rows ∧ s.on x y = true := by simp [Stage.partners]
    simp only [chain, mem_flatMap, Every]
    constructor
    · intro h
      refine ⟨fun y hy hon => forall_chain.mp fun z hz => h z ⟨_, ?_, hz⟩,
        fun hout hnone => forall_chain.mp fun z hz => h z ⟨_, ?_, hz⟩⟩
      · have hmem : y ∈ s.partners x := (hpart y).mpr ⟨hy, hon⟩
        have hne : (s.partners x).isEmpty = false := by
          cases hp : s.partners x with
          | nil => simp [hp] at hmem
          | cons => rfl
        rw [Stage.step, hne, Bool.and_false, if_neg Bool.false_ne_true]
        exact mem_map_of_mem hmem
      · simp [Stage.step, hout, partners_isEmpty.mpr hnone]
    · rintro ⟨hsome, hnone⟩ z ⟨x', hx', hz⟩
      rcases Stage.mem_step hx' with ⟨y, hy, hon, rfl⟩ | ⟨hout, hall, rfl⟩
      · exact forall_chain.mpr (hsome y hy hon) z hz
      · exact forall_chain.mpr (hnone hout hall) z hz

theorem chain_invariant {I : α → Prop} :
    ∀ {stages : List (Stage α β)},
      (∀ s ∈ stages, ∀ x, I x → (∀ y ∈ s.rows, I (s.extend x (some y))) ∧
        (s.outer = true → I (s.extend x none))) → ∀ {x : α}, I x → ∀ y ∈ chain stages x, I y
  | [], _, x, hx, y, hy => by
    rw [mem_singleton.mp hy]
    exact hx
  | s :: stages, hs, x, hx, y, hy => by
    obtain ⟨x', hx', hy⟩ := mem_flatMap.mp hy
    have hstep := hs s mem_cons_self x hx
    refine chain_invariant (fun s' hs' => hs s' (mem_cons_of_mem _ hs')) ?_ y hy
    rcases Stage.mem_step hx' with ⟨r, hr, _, rfl⟩ | ⟨hout, _, rfl⟩
    · exact hstep.1 r hr
    · exact hstep.2 hout

/-- A join of a chain with the condition on its right rows. -/
structure Guarded (α β : Type) extends Stage α β where
  keep : β → Bool

/-- The join with its condition applied to the right rows first. -/
def Guarded.below (g : Guarded α β) : Stage α β := g.toStage.restrict g.keep

/-- What `good` says of a row is that every right row in it satisfies its condition.  A condition
that accepts a missing right row accepts every right row: it is no condition. -/
structure Guarded.Describes (g : Guarded α β) (good : α → Bool) : Prop where
  matched : ∀ x y, good (g.extend x (some y)) = (good x && g.keep y)
  padded : g.outer = true → ∀ x, good (g.extend x none) = true →
    good x = true ∧ ∀ y ∈ g.rows, g.keep y = true

variable {good : α → Bool}

theorem Guarded.Describes.of_step {g : Guarded α β} (hg : g.Describes good) {keep : β → Bool}
    {x x' : α} (hx' : x' ∈ (g.toStage.restrict keep).step x) (h : good x' = true) :
    good x = true := by
  rcases Stage.mem_step hx' with ⟨y, _, _, rfl⟩ | ⟨hout, _, rfl⟩
  · have h' : good (g.extend x (some y)) = true := h
    rw [hg.matched, Bool.and_eq_true] at h'
    exact h'.1
  · exact (hg.padded hout x h).1

theorem chain_filter_nil :
    ∀ {stages : List (Stage α β)},
      (∀ s ∈ stages, ∀ x, ∀ x' ∈ s.step x, good x' = true → good x = true) → ∀ {x : α},
        good x = false → (chain stages x).filter good = []
  | [], _, x, hx => by simp [chain, hx]
  | s :: stages, hd, x, hx => by
    refine filter_eq_nil_iff.mpr fun y hy => ?_
    obtain ⟨x', hx', hy⟩ := mem_flatMap.mp hy
    have hbad : good x' = false := by
      by_contra hgood
      exact absurd (hd s mem_cons_self x x' hx' (by simpa using hgood)) (by simp [hx])
    have hrest := chain_filter_nil (fun s' hs' => hd s' (mem_cons_of_mem _ hs')) hbad
    exact filter_eq_nil_iff.mp hrest y hy

/-- **Conditions below the joins keep every row that they keep above the joins.** -/
theorem chain_filter :
    ∀ {gs : List (Guarded α β)}, (∀ g ∈ gs, g.Describes good) → ∀ {x : α}, good x = true →
      (chain (gs.map (·.toStage)) x).filter good = (chain (gs.map (·.below)) x).filter good
  | [], _, _, _ => rfl
  | g :: gs, hd, x, hx => by
    have hg := hd g mem_cons_self
    have hd' : ∀ g' ∈ gs, g'.Describes good := fun g' hg' => hd g' (mem_cons_of_mem _ hg')
    have hnil : ∀ {x' : α}, good x' = false →
        (chain (gs.map (·.toStage)) x').filter good = [] ∧
          (chain (gs.map (·.below)) x').filter good = [] := by
      intro x' hx'
      constructor
      · refine chain_filter_nil (fun s hs x x'' hx'' h => ?_) hx'
        obtain ⟨g', hg', rfl⟩ := mem_map.mp hs
        exact (hd' g' hg').of_step (show x'' ∈ (g'.toStage.restrict fun _ => true).step x by
          simpa [Stage.restrict] using hx'') h
      · refine chain_filter_nil (fun s hs x x'' hx'' h => ?_) hx'
        obtain ⟨g', hg', rfl⟩ := mem_map.mp hs
        exact (hd' g' hg').of_step hx'' h
    -- the accumulated rows of the matches: those that fail the condition leave nothing good
    have hmatch : ∀ ys : List β,
        ((ys.map fun y => g.extend x (some y)).flatMap (chain (gs.map (·.toStage)))).filter good =
          (((ys.filter g.keep).map fun y => g.extend x (some y)).flatMap
            (chain (gs.map (·.below)))).filter good := by
      intro ys
      induction ys with
      | nil => rfl
      | cons y ys ih =>
        simp only [map_cons, flatMap_cons, filter_append, ih]
        cases hk : g.keep y with
        | true =>
          have hgood : good (g.extend x (some y)) = true := by rw [hg.matched, hx, hk]; rfl
          rw [chain_filter hd' hgood, filter_cons_of_pos hk]
          simp [filter_append]
        | false =>
          have hgood : good (g.extend x (some y)) = false := by rw [hg.matched, hk, Bool.and_false]
          rw [(hnil hgood).1, filter_cons_of_neg (by simp [hk])]
          rfl
    have hpart : g.below.partners x = (g.partners x).filter g.keep :=
      g.toStage.partners_restrict g.keep x
    simp only [map_cons, chain, Stage.step, hpart]
    by_cases hout : g.outer = true
    · have hbelow : g.below.outer = true := hout
      by_cases hempty : g.partners x = []
      · -- no right row at all: both sides are null extended
        simp only [hout, hbelow, hempty, filter_nil, isEmpty_nil, Bool.and_self,
          if_true, flatMap_cons, flatMap_nil, append_nil]
        cases hgood : good (g.extend x none) with
        | true => exact chain_filter hd' hgood
        | false => exact (hnil hgood).1.trans (hnil hgood).2.symm
      · by_cases hkept : (g.partners x).filter g.keep = []
        · -- every match fails the condition: only the side below is null extended
          have hnone : good (g.extend x none) = false := by
            by_contra hgood
            have hall := (hg.padded hout x (by simpa using hgood)).2
            rw [filter_eq_self.mpr fun y (hy : y ∈ g.partners x) =>
              hall y (mem_of_mem_filter hy)] at hkept
            exact hempty hkept
          have hne : (g.partners x).isEmpty = false := by simpa using hempty
          rw [if_neg (by simp [hne]), hmatch, hkept]
          simp only [hbelow, isEmpty_nil, Bool.and_self, if_true, flatMap_cons,
            flatMap_nil, append_nil, map_nil, filter_nil]
          exact (hnil hnone).2.symm
        · have hne : (g.partners x).isEmpty = false := by simpa using hempty
          have hne' : ((g.partners x).filter g.keep).isEmpty = false := by
            cases h : (g.partners x).filter g.keep with
            | nil => exact absurd h hkept
            | cons => rfl
          rw [if_neg (by simp [hne]), if_neg (by simp [hne'])]
          exact hmatch _
    · have hbelow : g.below.outer = false := Bool.eq_false_iff.mpr hout
      rw [if_neg (by simp [hout]), if_neg (by simp [hbelow])]
      exact hmatch _

theorem flatMap_chain_filter {gs : List (Guarded α β)} (hd : ∀ g ∈ gs, g.Describes good)
    (xs : List α) :
    (xs.flatMap (chain (gs.map (·.toStage)))).filter good =
      ((xs.filter good).flatMap (chain (gs.map (·.below)))).filter good := by
  induction xs with
  | nil => rfl
  | cons x xs ih =>
    rw [flatMap_cons, filter_append, ih]
    cases hx : good x with
    | true =>
      rw [chain_filter hd hx, filter_cons_of_pos hx, flatMap_cons, filter_append]
    | false =>
      have hnil : (chain (gs.map (·.toStage)) x).filter good = [] :=
        chain_filter_nil (fun s hs x x'' hx'' h => by
          obtain ⟨g, hg, rfl⟩ := mem_map.mp hs
          exact (hd g hg).of_step (show x'' ∈ (g.toStage.restrict fun _ => true).step x by
            simpa [Stage.restrict] using hx'') h) hx
      rw [hnil, nil_append, filter_cons_of_neg (by simp [hx])]

end Lib.NestedLoop
