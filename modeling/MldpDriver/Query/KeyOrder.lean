/-
# The order of window keys

`WindowEvaluator.cpp` sorts and merges rows by their PARTITION BY and ORDER BY keys
(`compareRows`).  Nulls come last in both directions (`compareKey`), other values are compared as
in `compareRefs`: two integers exactly, any other two numbers as doubles.  A NaN is then equal to
every number, and a double to every integer that is rounded to it, though these integers differ.
 -/
import MldpDriver.Query.SlidingAggregates

namespace MldpDriver.Query.KeyOrder

open Aggregate (Value ValueLib compareText)
open Lib (Binary64)
open Window

variable {X α β γ : Type}

/-! ## 1. The comparisons -/

/-- The doubles of the machine. -/
def ieee (lib : ValueLib Binary64 X) : ValueLib Binary64 X :=
  { lib with lt := Binary64.ltb, ofInt := Binary64.ofInt }

/-- `compareKey`; `none` says that it throws. -/
def compareKey (lib : ValueLib Binary64 X) (descending : Bool) (lhs rhs : Value Binary64 X) :
    Option Int :=
  if lhs.isNull || rhs.isNull then
    some (if lhs.isNull == rhs.isNull then 0 else if lhs.isNull then 1 else -1)
  else (compareRefs (ieee lib) lhs rhs).map fun order => if descending then -order else order

/-- The first comparison that is not equal decides. -/
def orElse (first second : Option Int) : Option Int :=
  first.bind fun order => if order ≠ 0 then some order else second

/-- The loops over the keys. -/
def compareKeys (lib : ValueLib Binary64 X) :
    List Bool → List (Value Binary64 X) → List (Value Binary64 X) → Option Int
  | descending :: flags, lhs :: lefts, rhs :: rights =>
    orElse (compareKey lib descending lhs rhs) (compareKeys lib flags lefts rights)
  | _, _, _ => some 0

/-- The keys of a row. -/
structure Row (X : Type) where
  partition : List (Value Binary64 X)
  order : List (Value Binary64 X)

def comparePartition (lib : ValueLib Binary64 X) (lhs rhs : Row X) : Option Int :=
  compareKeys lib (lhs.partition.map fun _ => false) lhs.partition rhs.partition

def compareOrder (lib : ValueLib Binary64 X) (descending : List Bool) (lhs rhs : Row X) :
    Option Int :=
  compareKeys lib descending lhs.order rhs.order

def compareRows (lib : ValueLib Binary64 X) (descending : List Bool) (lhs rhs : Row X) :
    Option Int :=
  orElse (comparePartition lib lhs rhs) (compareOrder lib descending lhs rhs)

/-! ## 2. Total preorders -/

/-- Not after. -/
def Upto (compare : α → α → Option Int) (a b : α) : Prop := ∃ n, compare a b = some n ∧ n ≤ 0

/-- A comparison that orders the elements of `S` and has an answer for any two of them; exchanging
them changes its sign. -/
structure TotalPreorder (S : α → Prop) (compare : α → α → Option Int) : Prop where
  refl : ∀ a, S a → compare a a = some 0
  antisymm : ∀ a b, S a → S b → ∃ m n, compare a b = some m ∧ compare b a = some n ∧
    (m < 0 ↔ 0 < n) ∧ (0 < m ↔ n < 0)
  total : ∀ a b, S a → S b → Upto compare a b ∨ Upto compare b a
  trans : ∀ a b c, S a → S b → S c → Upto compare a b → Upto compare b c → Upto compare a c

/-- The comparison decides a relation. -/
def Decides (S : α → Prop) (compare : α → α → Option Int) (R : α → α → Prop) : Prop :=
  ∀ a b, S a → S b → ∃ n, compare a b = some n ∧ (n < 0 ↔ R a b) ∧ (0 < n ↔ R b a)

/-- What is before another is before everything or everything is before the other. -/
def Cotransitive (S : α → Prop) (R : α → α → Prop) : Prop :=
  ∀ a b c, S a → S b → S c → R c a → R c b ∨ R b a

section Decides

variable {S : α → Prop} {compare : α → α → Option Int} {R : α → α → Prop}

theorem Decides.upto_iff (h : Decides S compare R) {a b : α} (ha : S a) (hb : S b) :
    Upto compare a b ↔ ¬ R b a := by
  obtain ⟨n, hn, -, hpos⟩ := h a b ha hb
  rw [← hpos, Upto, hn]
  simp

/-- **What such a comparison may lack is that "neither before the other" is transitive.** -/
theorem Decides.totalPreorder_iff (h : Decides S compare R) : TotalPreorder S compare ↔
    Cotransitive S R := by
  constructor
  · intro hpre a b c ha hb hc hca
    by_contra hne
    rw [not_or] at hne
    have hac := hpre.trans a b c ha hb hc ((h.upto_iff ha hb).mpr hne.2) ((h.upto_iff hb hc).mpr hne.1)
    exact (h.upto_iff ha hc).mp hac hca
  · intro hcotrans
    have hanti : ∀ a b, S a → S b → ∃ m n, compare a b = some m ∧ compare b a = some n ∧
        (m < 0 ↔ 0 < n) ∧ (0 < m ↔ n < 0) := by
      intro a b ha hb
      obtain ⟨m, hm, hmneg, hmpos⟩ := h a b ha hb
      obtain ⟨n, hn, hnneg, hnpos⟩ := h b a hb ha
      exact ⟨m, n, hm, hn, hmneg.trans hnpos.symm, hmpos.trans hnneg.symm⟩
    refine ⟨?_, hanti, ?_, ?_⟩
    · intro a ha
      obtain ⟨m, n, hm, hn, hsign⟩ := hanti a a ha ha
      obtain rfl := Option.some.inj (hm.symm.trans hn)
      rw [hm, show m = 0 by omega]
    · intro a b ha hb
      obtain ⟨m, n, hm, hn, hsign⟩ := hanti a b ha hb
      by_cases hle : m ≤ 0
      · exact .inl ⟨m, hm, hle⟩
      · exact .inr ⟨n, hn, by omega⟩
    · intro a b c ha hb hc hab hbc
      rw [h.upto_iff ha hb] at hab
      rw [h.upto_iff hb hc] at hbc
      rw [h.upto_iff ha hc]
      intro hca
      exact (hcotrans a b c ha hb hc hca).elim hbc hab

end Decides

/-- The comparison decides a relation that orders. -/
def Ranked (S : α → Prop) (compare : α → α → Option Int) : Prop :=
  ∃ R, Decides S compare R ∧ Cotransitive S R

theorem Ranked.totalPreorder {S : α → Prop} {compare : α → α → Option Int}
    (h : Ranked S compare) : TotalPreorder S compare := by
  obtain ⟨R, hdecides, hcotrans⟩ := h
  exact hdecides.totalPreorder_iff.mpr hcotrans

/-- **Comparing by one key and then by another.** -/
theorem Ranked.orElse {S : α → Prop} {T : β → Prop} {U : γ → Prop}
    {compare : α → α → Option Int} {compare' : β → β → Option Int} {rows : γ → γ → Option Int}
    (h : Ranked S compare) (h' : Ranked T compare') (f : γ → α) (g : γ → β)
    (hU : ∀ x, U x → S (f x) ∧ T (g x))
    (hrows : ∀ x y, U x → U y →
      rows x y = KeyOrder.orElse (compare (f x) (f y)) (compare' (g x) (g y))) :
    Ranked U rows := by
  obtain ⟨R, hdecides, hcotrans⟩ := h
  obtain ⟨R', hdecides', hcotrans'⟩ := h'
  refine ⟨fun x y => R (f x) (f y) ∨ ¬ R (f y) (f x) ∧ R' (g x) (g y), ?_, ?_⟩
  · intro x y hx hy
    obtain ⟨m, hm, hmneg, hmpos⟩ := hdecides _ _ (hU x hx).1 (hU y hy).1
    obtain ⟨n, hn, hnneg, hnpos⟩ := hdecides' _ _ (hU x hx).2 (hU y hy).2
    refine ⟨if m ≠ 0 then m else n, ?_, ?_, ?_⟩
    · rw [hrows x y hx hy, hm, hn, KeyOrder.orElse, Option.bind_some]
      split <;> rfl
    · simp only [← hmneg, ← hmpos, ← hnneg]
      split <;> omega
    · simp only [← hmneg, ← hmpos, ← hnpos]
      split <;> omega
  · intro a b c ha hb hc hca
    -- the first keys in all three places: one of them may only tie
    have h1 := hcotrans _ _ _ (hU a ha).1 (hU b hb).1 (hU c hc).1
    have h2 := hcotrans _ _ _ (hU b hb).1 (hU c hc).1 (hU a ha).1
    have h3 := hcotrans _ _ _ (hU c hc).1 (hU a ha).1 (hU b hb).1
    have h4 := hcotrans' _ _ _ (hU a ha).2 (hU b hb).2 (hU c hc).2
    grind

/-! ## 3. One key -/

/-- The values of a key: no lists or structs. -/
structure KeyValues (X : Type) where
  has : Value Binary64 X → Prop
  scalar : ∀ v, has v → v.isOther = false

/-- The doubles that the numbers of a key are compared as. -/
def KeyValues.doubles (S : KeyValues X) (d : Binary64) : Prop :=
  S.has (.double d) ∨ ∃ m, S.has (.int m) ∧ d = .ofInt m

/-- No NaN beside two different numbers, and no double to which two different integers are
rounded. -/
structure Sortable (S : KeyValues X) : Prop where
  nan : S.has (.double .nan) → ∀ d e, S.doubles d → S.doubles e → d ≠ .nan → e ≠ .nan → d = e
  rounded : ∀ m n, S.has (.int m) → S.has (.int n) → m ≠ n → Binary64.ofInt m = .ofInt n →
    ¬ S.has (.double .nan) ∧ ¬ S.has (.double (.ofInt m))

/-- What `compareKey` decides. -/
def keyBefore (lib : ValueLib Binary64 X) (descending : Bool) (a b : Value Binary64 X) : Prop :=
  a.isNull = false ∧ (b.isNull = true ∨
    (if descending then before (ieee lib) b a else before (ieee lib) a b) = true)

variable {lib : ValueLib Binary64 X}

theorem compareKey_decides (descending : Bool) (S : KeyValues X) :
    Decides S.has (compareKey lib descending) (keyBefore lib descending) := by
  intro a b ha hb
  cases hanull : a.isNull with
  | true => cases hbnull : b.isNull <;> simp [compareKey, keyBefore, hanull, hbnull]
  | false =>
    cases hbnull : b.isNull with
    | true => simp [compareKey, keyBefore, hanull, hbnull]
    | false =>
      have hdoubles : OrderedDoubles (ieee lib) := orderedDoubles_binary64 rfl rfl
      obtain ⟨n, hn, hneg, hpos⟩ := exists_compares hdoubles (.inl hanull)
        (S.scalar a ha) (S.scalar b hb)
      refine ⟨if descending then -n else n, by simp [compareKey, hanull, hbnull, hn], ?_, ?_⟩
      · cases descending <;> simp [keyBefore, hanull, hbnull, ← hneg, ← hpos]
      · cases descending <;> simp [keyBefore, hanull, hbnull, ← hneg, ← hpos]

theorem ltb_cotrans {d e f : Binary64} (hf : f ≠ .nan) (h : Binary64.ltb d e = true) :
    Binary64.ltb d f = true ∨ Binary64.ltb f e = true := by
  cases d <;> cases e <;> cases f <;> simp only [Binary64.ltb] at * <;> grind

theorem ltb_connex {d e : Binary64} (hd : d ≠ .nan) (he : e ≠ .nan) (hne : d ≠ e) :
    Binary64.ltb d e = true ∨ Binary64.ltb e d = true := by
  cases d <;> cases e <;> simp [Binary64.ltb] at * <;> grind

theorem ltb_ne {d e : Binary64} (h : Binary64.ltb d e = true) : d ≠ .nan ∧ e ≠ .nan ∧ d ≠ e := by
  cases d <;> cases e <;> simp only [Binary64.ltb] at * <;> grind

theorem compareText_eq {l r : List UInt8} (h : compareText l r = 0) : l = r := by
  induction l generalizing r with
  | nil => cases r <;> first | rfl | cases h
  | cons a l ih =>
    cases r with
    | nil => cases h
    | cons b r =>
      rw [compareText] at h
      split at h
      · cases h
      · split at h
        · cases h
        · rename_i hab hba
          rw [ih h, UInt8.le_antisymm (UInt8.not_lt.mp hba) (UInt8.not_lt.mp hab)]

theorem compareText_cotrans {l r t : List UInt8} (h : compareText l t < 0) :
    compareText l r < 0 ∨ compareText r t < 0 := by
  by_contra hne
  rw [not_or, Int.not_lt, Int.not_lt] at hne
  have hrl : compareText r l ≤ 0 := by
    rw [compareText_swap]
    omega
  rcases Int.lt_or_eq_of_le hrl with hlt | heq
  · exact absurd (compareText_trans hlt h) (Int.not_lt.mpr hne.2)
  · rw [compareText_eq heq] at hne
    omega

theorem Sortable.cotrans_double {S : KeyValues X} (h : Sortable S) {d e f : Binary64}
    (hd : S.doubles d) (he : S.doubles e) (hf : S.doubles f) (hlt : Binary64.ltb d e = true) :
    Binary64.ltb d f = true ∨ Binary64.ltb f e = true := by
  refine ltb_cotrans ?_ hlt
  rintro rfl
  obtain ⟨hdnan, henan, hne⟩ := ltb_ne hlt
  have hnan : S.has (.double .nan) := by
    rcases hf with hf | ⟨m, -, hm⟩
    · exact hf
    · cases hm
  exact hne (h.nan hnan d e hd he hdnan henan)

theorem ltb_ofInt {m n : Int} (h : Binary64.ltb (.ofInt m) (.ofInt n) = true) : m < n := by
  by_contra hle
  have hmono := Lib.Binary64.toBinary64_mono (Int.not_lt.mp hle)
  simp only [Binary64.ofInt, Binary64.ltb, decide_eq_true_eq, Int.cast_lt] at h
  omega

theorem Sortable.cotrans_rounded {S : KeyValues X} (h : Sortable S) {m n : Int} {f : Binary64}
    (hm : S.has (.int m)) (hn : S.has (.int n)) (hf : S.has (.double f)) (hlt : m < n) :
    Binary64.ltb (.ofInt m) f = true ∨ Binary64.ltb f (.ofInt n) = true := by
  by_cases heq : Binary64.ofInt m = .ofInt n
  · obtain ⟨hnan, hround⟩ := h.rounded m n hm hn (Int.ne_of_lt hlt) heq
    rw [← heq]
    refine ltb_connex (fun h => by cases h) ?_ ?_
    · rintro rfl
      exact hnan hf
    · rintro rfl
      exact hround hf
  · refine h.cotrans_double (.inr ⟨m, hm, rfl⟩) (.inr ⟨n, hn, rfl⟩) (.inl hf) ?_
    refine (ltb_connex (fun h => by cases h) (fun h => by cases h) heq).resolve_right ?_
    intro hback
    exact Int.lt_asymm hlt (ltb_ofInt hback)

theorem Sortable.cotrans {S : KeyValues X} (h : Sortable S) {a b c : Value Binary64 X}
    (ha : S.has a) (hb : S.has b) (hc : S.has c) (hbnull : b.isNull = false)
    (hca : before (ieee lib) c a = true) :
    before (ieee lib) c b = true ∨ before (ieee lib) b a = true := by
  have hint : ∀ m, S.has (.int m) → S.doubles (.ofInt m) := fun m hm => .inr ⟨m, hm, rfl⟩
  have hdouble : ∀ d, S.has (.double d) → S.doubles d := fun d hd => .inl hd
  cases b with
  | nul => cases hbnull
  | other x => cases S.scalar _ hb
  | int k =>
    cases c <;> cases a <;> simp [before, kindRank, ieee] at hca ⊢
    · omega
    · exact (h.cotrans_double (hint _ hc) (hdouble _ ha) (hint _ hb) hca).imp_left ltb_ofInt
    · exact (h.cotrans_double (hdouble _ hc) (hint _ ha) (hint _ hb) hca).imp_right ltb_ofInt
    · exact h.cotrans_double (hdouble _ hc) (hdouble _ ha) (hint _ hb) hca
  | double f =>
    cases c <;> cases a <;> simp [before, kindRank, ieee] at hca ⊢
    · exact h.cotrans_rounded hc ha hb hca
    · exact h.cotrans_double (hint _ hc) (hdouble _ ha) (hdouble _ hb) hca
    · exact h.cotrans_double (hdouble _ hc) (hint _ ha) (hdouble _ hb) hca
    · exact h.cotrans_double (hdouble _ hc) (hdouble _ ha) (hdouble _ hb) hca
  | bool f =>
    cases c <;> cases a <;> simp [before, kindRank] at hca ⊢
    cases f <;> simp [hca]
  | string text =>
    cases c <;> cases a <;> simp [before, kindRank] at hca ⊢
    exact compareText_cotrans hca

/-- **A key is in order in each direction exactly if it is sortable.** -/
theorem cotransitive_iff (descending : Bool) (S : KeyValues X) :
    Cotransitive S.has (keyBefore lib descending) ↔ Sortable S := by
  constructor
  · intro h
    have hthree : ∀ a b c, S.has a → S.has b → S.has c → a.isNull = false → b.isNull = false →
        c.isNull = false → before (ieee lib) c a = true →
        before (ieee lib) c b = true ∨ before (ieee lib) b a = true := by
      intro a b c ha hb hc hanull hbnull hcnull hca
      cases descending with
      | false => simpa [keyBefore, hanull, hbnull, hcnull, hca] using h a b c ha hb hc
      | true => simpa [keyBefore, hanull, hbnull, hcnull, hca, or_comm] using h c b a hc hb ha
    -- two numbers in order, with a NaN between them
    have hnumbers : S.has (.double .nan) → ∀ d e, S.doubles d → S.doubles e →
        Binary64.ltb d e = false := by
      intro hnan d e hd he
      by_contra hlt
      rw [Bool.not_eq_false] at hlt
      rcases hd with hd | ⟨m, hm, rfl⟩ <;> rcases he with he | ⟨n, hn, rfl⟩
      · have := hthree _ _ _ he hnan hd rfl rfl rfl hlt
        cases d <;> simp [before, ieee, Binary64.ltb] at this
      · have := hthree _ _ _ hn hnan hd rfl rfl rfl hlt
        cases d <;> simp [before, ieee, Binary64.ltb, Binary64.ofInt] at this
      · have := hthree _ _ _ he hnan hm rfl rfl rfl hlt
        simp [before, ieee, Binary64.ltb, Binary64.ofInt] at this
      · have := hthree _ _ _ hn hnan hm rfl rfl rfl (by simpa [before] using ltb_ofInt hlt)
        simp [before, ieee, Binary64.ltb, Binary64.ofInt] at this
    -- two integers in order, with a double between them
    have hints : ∀ m n f, S.has (.int m) → S.has (.int n) → m < n → Binary64.ofInt m = .ofInt n →
        S.has (.double f) → f ≠ .nan ∧ f ≠ .ofInt m := by
      intro m n f hm hn hlt heq hf
      have := hthree _ _ _ hn hf hm rfl rfl rfl (by simpa [before] using hlt)
      simp only [before, ieee, ← heq] at this
      refine ⟨?_, ?_⟩
      · rintro rfl
        simp [Binary64.ltb, Binary64.ofInt] at this
      · rintro rfl
        exact this.elim (fun h => (ltb_ne h).2.2 rfl) fun h => (ltb_ne h).2.2 rfl
    refine ⟨?_, ?_⟩
    · intro hnan d e hd he hdnan henan
      by_contra hne
      rcases ltb_connex hdnan henan hne with hlt | hlt
      · rw [hnumbers hnan d e hd he] at hlt
        cases hlt
      · rw [hnumbers hnan e d he hd] at hlt
        cases hlt
    · intro m n hm hn hne heq
      rcases Int.lt_or_gt_of_ne hne with hlt | hlt
      · exact ⟨fun hf => (hints m n _ hm hn hlt heq hf).1 rfl,
          fun hf => (hints m n _ hm hn hlt heq hf).2 rfl⟩
      · exact ⟨fun hf => (hints n m _ hn hm hlt heq.symm hf).1 rfl,
          fun hf => (hints n m _ hn hm hlt heq.symm hf).2 heq⟩
  · intro h a b c ha hb hc hca
    obtain ⟨hcnull, hca⟩ := hca
    cases hbnull : b.isNull with
    | true => exact .inl ⟨hcnull, .inl hbnull⟩
    | false =>
      rcases hca with hanull | hca
      · exact .inr ⟨hbnull, .inl hanull⟩
      · cases descending with
        | false =>
          exact (h.cotrans ha hb hc hbnull hca).imp (fun h => ⟨hcnull, .inr h⟩)
            fun h => ⟨hbnull, .inr h⟩
        | true =>
          exact (h.cotrans hc hb ha hbnull hca).symm.imp (fun h => ⟨hcnull, .inr h⟩)
            fun h => ⟨hbnull, .inr h⟩

/-! ## 4. Rows -/

/-- A key: the values of its column, and its direction. -/
structure Key (X : Type) where
  values : KeyValues X
  descending : Bool

/-- The values are those of the keys. -/
def Fits (keys : List (Key X)) (values : List (Value Binary64 X)) : Prop :=
  List.Forall₂ (fun k v => k.values.has v) keys values

theorem compareKeys_ranked {keys : List (Key X)} (h : ∀ k ∈ keys, Sortable k.values) :
    Ranked (Fits keys) (compareKeys lib (keys.map Key.descending)) := by
  induction keys with
  | nil =>
    refine ⟨fun _ _ => False, fun a b ha hb => ⟨0, ?_, by simp, by simp⟩, fun _ _ _ _ _ _ h => h.elim⟩
    rw [List.map_nil, compareKeys]
    exact nofun
  | cons k keys ih =>
    have hk : Ranked k.values.has (compareKey lib k.descending) :=
      ⟨_, compareKey_decides _ _, (cotransitive_iff _ _).mpr (h k List.mem_cons_self)⟩
    refine hk.orElse (ih fun k' hk' => h k' (List.mem_cons_of_mem _ hk')) (fun l => l.headD .nul)
      List.tail ?_ ?_
    · intro l hl
      cases hl with
      | cons hv hvs => exact ⟨hv, hvs⟩
    · intro l r hl hr
      cases hl
      cases hr
      rfl

/-- The rows of a batch with these PARTITION BY and ORDER BY keys. -/
def Rows (partition : List (KeyValues X)) (order : List (Key X)) (row : Row X) : Prop :=
  Fits (partition.map fun S => ⟨S, false⟩) row.partition ∧ Fits order row.order

/-- **The keys, and the rows, are in order in every direction when the keys are sortable, and only
then.** Sortable are keys with no three values of which the first two are equal to the third and
not to each other: a NaN among numbers, or integers and the double that they are rounded to. -/
theorem order_iff (lib : ValueLib Binary64 X) (partition : List (KeyValues X)) (order : List (Key X)) :
    ((∀ S ∈ partition, TotalPreorder S.has (compareKey lib false)) ∧
      (∀ k ∈ order, TotalPreorder k.values.has (compareKey lib k.descending)) ∧
      TotalPreorder (Rows partition order) (compareRows lib (order.map Key.descending))) ↔
    (∀ S ∈ partition, Sortable S) ∧ ∀ k ∈ order, Sortable k.values := by
  have hkey : ∀ (S : KeyValues X) (descending : Bool),
      TotalPreorder S.has (compareKey lib descending) ↔ Sortable S := by
    intro S descending
    rw [(compareKey_decides descending S).totalPreorder_iff, cotransitive_iff]
  simp only [hkey]
  refine ⟨fun h => ⟨h.1, h.2.1⟩, fun h => ⟨h.1, h.2, Ranked.totalPreorder ?_⟩⟩
  have hpartition : ∀ k ∈ partition.map fun S => (⟨S, false⟩ : Key X), Sortable k.values := by
    intro k hk
    obtain ⟨S, hS, rfl⟩ := List.mem_map.mp hk
    exact h.1 S hS
  have hfirst : Ranked _ (compareKeys lib _) := compareKeys_ranked hpartition
  have hsecond : Ranked _ (compareKeys lib _) := compareKeys_ranked h.2
  refine hfirst.orElse hsecond Row.partition Row.order (fun row hrow => hrow) ?_
  intro lhs rhs hlhs hrhs
  have hflags : lhs.partition.map (fun _ => false) =
      (partition.map fun S => (⟨S, false⟩ : Key X)).map Key.descending := by
    simp [Function.comp_def, List.map_const', ← hlhs.1.length_eq]
  rw [compareRows, comparePartition, hflags]
  rfl

/-- The values of the doubles column 2, NaN, 1. -/
def nanKey : KeyValues X where
  has v := v = .double (.finite 2) ∨ v = .double .nan ∨ v = .double (.finite 1)
  scalar v := by rintro (rfl | rfl | rfl) <;> rfl

/-- 2 is equal to NaN and NaN to 1, but 1 is before 2. -/
theorem nanKey_not_ordered :
    ¬ TotalPreorder (nanKey (X := Nat)).has (compareKey binaryLib false) := by
  intro h
  obtain ⟨n, hn, hle⟩ := h.trans (.double (.finite 2)) (.double .nan) (.double (.finite 1)) (.inl rfl)
    (.inr (.inl rfl)) (.inr (.inr rfl)) ⟨0, rfl, le_refl 0⟩ ⟨0, rfl, le_refl 0⟩
  cases hn
  revert hle
  decide

end MldpDriver.Query.KeyOrder
