/-
# Partitions and peer groups of a sorted batch

`WindowEvaluator.cpp` computes window calls over a batch sorted by the PARTITION BY and ORDER BY
keys.  `segment` finds for each row its partition, its peer group (the rows with equal ORDER BY
keys) and, for a single ORDER BY key, where the null keys begin.
-/
import Mathlib.Order.Defs.LinearOrder
import MldpDriver.Lib.Stretches

namespace MldpDriver.Query.Window

open Lib.Stretches List Option

variable {κ : Type} [LinearOrder κ]

/-! ## 1. Keys

`κ` are the values of the keys with their order; nulls come last in both directions.  A batch is
sorted by construction (`SortedBatch`). -/

/-- Nulls are equal to each other and sort after every value, in both directions. -/
def compareKey (lhs rhs : Option κ) (descending : Bool) : Ordering :=
  match lhs, rhs with
  | none, none => .eq
  | none, some _ => .gt
  | some _, none => .lt
  | some lhs, some rhs => if descending then (compare lhs rhs).swap else compare lhs rhs

/-- The first key that is not equal decides. -/
def compareKeys : List Bool → List (Option κ) → List (Option κ) → Ordering
  | descending :: flags, lhs :: lefts, rhs :: rights =>
    (compareKey lhs rhs descending).then (compareKeys flags lefts rights)
  | _, _, _ => .eq

/-- The keys of a row. -/
structure Row (κ : Type) where
  partition : List (Option κ)
  order : List (Option κ)

def comparePartition (lhs rhs : Row κ) : Ordering :=
  compareKeys (lhs.partition.map fun _ => false) lhs.partition rhs.partition

def compareOrder (descending : List Bool) (lhs rhs : Row κ) : Ordering :=
  compareKeys descending lhs.order rhs.order

def compareRows (descending : List Bool) (lhs rhs : Row κ) : Ordering :=
  (comparePartition lhs rhs).then (compareOrder descending lhs rhs)

/-- The greatest and the least value of `int64_t`. -/
def maxInt64 : Int := 9223372036854775807

def minInt64 : Int := -9223372036854775808

/-- A batch sorted by partition and order keys; its rows are counted in `int64_t`. -/
structure SortedBatch (κ : Type) [LinearOrder κ] where
  rows : List (Row κ)
  partitionKeys : Nat
  descending : List Bool
  partition_length : ∀ row ∈ rows, row.partition.length = partitionKeys
  order_length : ∀ row ∈ rows, row.order.length = descending.length
  sorted : rows.Pairwise fun lhs rhs => (compareRows descending lhs rhs).isLE = true
  size : (rows.length : Int) ≤ maxInt64

/-! ## 2. The order of the keys -/

theorem compareKey_swap (lhs rhs : Option κ) (descending : Bool) :
    (compareKey lhs rhs descending).swap = compareKey rhs lhs descending := by
  have hcompare : ∀ a b : κ, (compare a b).swap = compare b a := fun a b =>
    (Std.OrientedCmp.eq_swap).symm
  cases lhs <;> cases rhs <;> cases descending <;> simp [compareKey, hcompare]

theorem compareKey_eq_iff {lhs rhs : Option κ} {descending : Bool} :
    compareKey lhs rhs descending = .eq ↔ lhs = rhs := by
  cases lhs <;> cases rhs <;> cases descending <;> simp [compareKey]

variable {flags : List Bool} {a b : List (Option κ)}

theorem compareKeys_swap (flags : List Bool) (a b : List (Option κ)) :
    (compareKeys flags a b).swap = compareKeys flags b a := by
  induction flags generalizing a b with
  | nil => cases a <;> cases b <;> rfl
  | cons flag flags ih =>
    cases a with
    | nil => cases b <;> rfl
    | cons x a =>
      cases b with
      | nil => rfl
      | cons y b => rw [compareKeys, compareKeys, Ordering.swap_then, compareKey_swap, ih]

theorem compareKeys_eq_iff (ha : a.length = flags.length) (hb : b.length = flags.length) :
    compareKeys flags a b = .eq ↔ a = b := by
  induction flags generalizing a b with
  | nil => simp [eq_nil_of_length_eq_zero ha, eq_nil_of_length_eq_zero hb, compareKeys]
  | cons flag flags ih =>
    cases a with
    | nil => cases ha
    | cons x a =>
      cases b with
      | nil => cases hb
      | cons y b =>
        rw [compareKeys, Ordering.then_eq_eq, compareKey_eq_iff,
          ih (Nat.succ.inj ha) (Nat.succ.inj hb), List.cons.injEq]

theorem compareKeys_antisymm (ha : a.length = flags.length) (hb : b.length = flags.length)
    (hab : (compareKeys flags a b).isLE = true) (hba : (compareKeys flags b a).isLE = true) :
    a = b := by
  rw [← compareKeys_eq_iff ha hb]
  rw [← compareKeys_swap flags a b] at hba
  cases h : compareKeys flags a b with
  | lt => rw [h] at hba; cases hba
  | eq => rfl
  | gt => rw [h] at hab; cases hab

/-! ## 3. The segments -/

/-- The ranges of a row: its partition, its peer group and the non-null keys of its partition. -/
structure Segment where
  partitionBegin : Nat
  partitionEnd : Nat
  peerBegin : Nat
  peerEnd : Nat
  nonNullEnd : Nat

section Segments

variable (batch : SortedBatch κ)

/-- The first ORDER BY key of a row, which may be null. -/
def SortedBatch.key (row : Nat) : Option κ :=
  (batch.rows[row]?.bind fun r => r.order.head?).join

def SortedBatch.samePartition (i j : Nat) : Bool :=
  match batch.rows[i]?, batch.rows[j]? with
  | some lhs, some rhs => comparePartition lhs rhs == .eq
  | _, _ => false

def SortedBatch.sameOrder (i j : Nat) : Bool :=
  match batch.rows[i]?, batch.rows[j]? with
  | some lhs, some rhs => compareOrder batch.descending lhs rhs == .eq
  | _, _ => false

/-- Back from the end of the partition over the null keys. -/
def nonNullEnd (null : Nat → Bool) (start : Nat) : Nat → Nat
  | 0 => 0
  | last + 1 => if start < last + 1 && null last then nonNullEnd null start last else last + 1

/-- The segment of the rows of a peer group in a partition. -/
def segmentAt (part peers : Nat × Nat) : Segment where
  partitionBegin := part.1
  partitionEnd := part.2
  peerBegin := peers.1
  peerEnd := peers.2
  nonNullEnd :=
    if batch.descending.length = 1 then
      nonNullEnd (fun row => (batch.key row).isNone) part.1 part.2
    else part.2

/-- Partition after partition, and in each one peer group after peer group. -/
def segment : List Segment :=
  (stretches batch.samePartition batch.rows.length batch.rows.length 0).flatMap fun part =>
    (stretches batch.sameOrder part.2 (part.2 - part.1) part.1).flatMap fun peers =>
      List.replicate (peers.2 - peers.1) (segmentAt batch part peers)

end Segments

/-! ## 4. What a segment says

`segment_spec`: the segment of a row says which rows are in its partition, which of these are its
peers and which have a key. -/

section Spec

variable {batch : SortedBatch κ}
variable {i : Nat}

theorem row_partition_length {row : Row κ} (h : batch.rows[i]? = some row) :
    row.partition.length = batch.partitionKeys :=
  batch.partition_length row (mem_of_getElem? h)

theorem row_order_length {row : Row κ} (h : batch.rows[i]? = some row) :
    row.order.length = batch.descending.length :=
  batch.order_length row (mem_of_getElem? h)

theorem exists_row (h : i < batch.rows.length) : ∃ row, batch.rows[i]? = some row :=
  ⟨_, List.getElem?_eq_getElem h⟩

theorem lt_of_row {row : Row κ} (h : batch.rows[i]? = some row) :
    i < batch.rows.length :=
  (List.getElem?_eq_some_iff.mp h).1

variable {i j : Nat}
variable {lhs rhs : Row κ}

theorem sorted_rows (hij : i < j) (hl : batch.rows[i]? = some lhs) (hr : batch.rows[j]? = some
    rhs) :
    (compareRows batch.descending lhs rhs).isLE = true := by
  obtain ⟨hi, rfl⟩ := List.getElem?_eq_some_iff.mp hl
  obtain ⟨hj, rfl⟩ := List.getElem?_eq_some_iff.mp hr
  exact pairwise_iff_getElem.mp batch.sorted i j hi hj hij

theorem comparePartition_eq_iff (hl : batch.rows[i]? = some lhs) (hr : batch.rows[j]? = some rhs) :
    comparePartition lhs rhs = .eq ↔ lhs.partition = rhs.partition := by
  have hlength : rhs.partition.length = (lhs.partition.map fun _ => false).length := by
    rw [length_map, row_partition_length hl, row_partition_length hr]
  exact compareKeys_eq_iff (length_map _).symm hlength

theorem samePartition_iff : batch.samePartition i j = true ↔
    ∃ lhs rhs, batch.rows[i]? = some lhs ∧ batch.rows[j]? = some rhs ∧
      lhs.partition = rhs.partition := by
  rw [SortedBatch.samePartition]
  constructor
  · intro h
    split at h
    · rename_i lhs rhs hl hr
      exact ⟨lhs, rhs, hl, hr, (comparePartition_eq_iff hl hr).mp (beq_iff_eq.mp h)⟩
    · cases h
  · rintro ⟨lhs, rhs, hl, hr, h⟩
    rw [hl, hr]
    exact beq_iff_eq.mpr ((comparePartition_eq_iff hl hr).mpr h)

theorem sameOrder_iff : batch.sameOrder i j = true ↔
    ∃ lhs rhs, batch.rows[i]? = some lhs ∧ batch.rows[j]? = some rhs ∧ lhs.order = rhs.order := by
  have heq : ∀ {lhs rhs}, batch.rows[i]? = some lhs → batch.rows[j]? = some rhs →
      (compareOrder batch.descending lhs rhs = .eq ↔ lhs.order = rhs.order) := fun hl hr =>
    compareKeys_eq_iff (row_order_length hl) (row_order_length hr)
  rw [SortedBatch.sameOrder]
  constructor
  · intro h
    split at h
    · rename_i lhs rhs hl hr
      exact ⟨lhs, rhs, hl, hr, (heq hl hr).mp (beq_iff_eq.mp h)⟩
    · cases h
  · rintro ⟨lhs, rhs, hl, hr, h⟩
    rw [hl, hr]
    exact beq_iff_eq.mpr ((heq hl hr).mpr h)

theorem samePartition_symm (h : batch.samePartition i j = true) :
    batch.samePartition j i = true := by
  obtain ⟨lhs, rhs, hl, hr, h⟩ := samePartition_iff.mp h
  exact samePartition_iff.mpr ⟨rhs, lhs, hr, hl, h.symm⟩

theorem samePartition_trans {i j k : Nat} (hij : batch.samePartition i j = true)
    (hjk : batch.samePartition j k = true) : batch.samePartition i k = true := by
  obtain ⟨a, b, ha, hb, hab⟩ := samePartition_iff.mp hij
  obtain ⟨b', c, hb', hc, hbc⟩ := samePartition_iff.mp hjk
  obtain rfl := some.inj (hb.symm.trans hb')
  exact samePartition_iff.mpr ⟨a, c, ha, hc, hab.trans hbc⟩

theorem convex_partition : Convex batch.samePartition 0 batch.rows.length where
  refl i _ hi := by
    obtain ⟨row, hrow⟩ := exists_row hi
    exact samePartition_iff.mpr ⟨row, row, hrow, hrow, rfl⟩
  symm i j := samePartition_symm
  trans i j k := samePartition_trans
  between i j k _ hij hjk hk hsame := by
    obtain ⟨a, c, ha, hc, hac⟩ := samePartition_iff.mp hsame
    obtain ⟨b, hb⟩ := exists_row (Nat.lt_of_le_of_lt hjk hk)
    rcases Nat.eq_or_lt_of_le hij with rfl | hij
    · exact samePartition_iff.mpr ⟨b, b, hb, hb, rfl⟩
    rcases Nat.eq_or_lt_of_le hjk with rfl | hjk
    · exact hsame
    have hab := Ordering.isLE_left_of_isLE_then (sorted_rows hij ha hb)
    have hbc := Ordering.isLE_left_of_isLE_then (sorted_rows hjk hb hc)
    have hlength : (a.partition.map fun _ => false) = b.partition.map fun _ => false := by
      rw [map_const', map_const', row_partition_length ha, row_partition_length hb]
    rw [comparePartition, hlength] at hab
    rw [comparePartition, ← hac] at hbc
    have heq := compareKeys_antisymm (by rw [length_map, row_partition_length ha,
      row_partition_length hb]) (length_map _).symm hab hbc
    exact samePartition_iff.mpr ⟨a, b, ha, hb, heq⟩

theorem sorted_order (hij : i < j) (hsame : batch.samePartition i j = true)
    (hl : batch.rows[i]? = some lhs) (hr : batch.rows[j]? = some rhs) :
    (compareOrder batch.descending lhs rhs).isLE = true := by
  obtain ⟨lhs', rhs', hl', hr', h⟩ := samePartition_iff.mp hsame
  obtain rfl := some.inj (hl'.symm.trans hl)
  obtain rfl := some.inj (hr'.symm.trans hr)
  have hrows := sorted_rows hij hl hr
  rw [compareRows, (comparePartition_eq_iff hl hr).mpr h] at hrows
  exact hrows

theorem convex_order {start stop : Nat} (hstop : stop ≤ batch.rows.length)
    (hpart : ∀ i j, start ≤ i → i < stop → start ≤ j → j < stop →
      batch.samePartition i j = true) : Convex batch.sameOrder start stop where
  refl i _ hi := by
    obtain ⟨row, hrow⟩ := exists_row (Nat.lt_of_lt_of_le hi hstop)
    exact sameOrder_iff.mpr ⟨row, row, hrow, hrow, rfl⟩
  symm i j h := by
    obtain ⟨lhs, rhs, hl, hr, h⟩ := sameOrder_iff.mp h
    exact sameOrder_iff.mpr ⟨rhs, lhs, hr, hl, h.symm⟩
  trans i j k hij hjk := by
    obtain ⟨a, b, ha, hb, hab⟩ := sameOrder_iff.mp hij
    obtain ⟨b', c, hb', hc, hbc⟩ := sameOrder_iff.mp hjk
    obtain rfl := some.inj (hb.symm.trans hb')
    exact sameOrder_iff.mpr ⟨a, c, ha, hc, hab.trans hbc⟩
  between i j k hi hij hjk hk hsame := by
    obtain ⟨a, c, ha, hc, hac⟩ := sameOrder_iff.mp hsame
    obtain ⟨b, hb⟩ := exists_row (Nat.lt_of_lt_of_le (Nat.lt_of_le_of_lt hjk hk) hstop)
    rcases Nat.eq_or_lt_of_le hij with rfl | hij
    · exact sameOrder_iff.mpr ⟨b, b, hb, hb, rfl⟩
    rcases Nat.eq_or_lt_of_le hjk with rfl | hjk
    · exact hsame
    have hab := sorted_order hij (hpart i j hi (by omega) (by omega) (by omega)) ha hb
    have hbc := sorted_order hjk (hpart j k (by omega) (by omega) (by omega) hk) hb hc
    rw [compareOrder, ← hac] at hbc
    exact sameOrder_iff.mpr ⟨a, b, ha, hb,
      compareKeys_antisymm (row_order_length ha) (row_order_length hb) hab hbc⟩

theorem nonNullEnd_spec {null : Nat → Bool} {start last : Nat} (hle : start ≤ last) :
    (start ≤ nonNullEnd null start last ∧ nonNullEnd null start last ≤ last) ∧
      (∀ j, nonNullEnd null start last ≤ j → j < last → null j = true) ∧
      (start < nonNullEnd null start last → null (nonNullEnd null start last - 1) = false) := by
  induction last with
  | zero =>
    rw [nonNullEnd]
    exact ⟨⟨hle, Nat.le_refl _⟩, fun j _ hj => absurd hj (Nat.not_lt_zero _), fun h => by omega⟩
  | succ last ih =>
    rw [nonNullEnd]
    split
    · rename_i h
      obtain ⟨hlt, hnull⟩ := Bool.and_eq_true_iff.mp h
      obtain ⟨hbounds, hafter, hbefore⟩ := ih (Nat.le_of_lt_succ (of_decide_eq_true hlt))
      refine ⟨⟨hbounds.1, by omega⟩, fun j hj hlast => ?_, hbefore⟩
      rcases Nat.lt_succ_iff_lt_or_eq.mp hlast with hj' | rfl
      · exact hafter j hj hj'
      · exact hnull
    · rename_i h
      refine ⟨⟨hle, Nat.le_refl _⟩, fun j hj hlast => by omega, fun hlt => ?_⟩
      rw [Nat.add_sub_cancel, Bool.eq_false_iff]
      exact fun hnull => h (by simp [hlt, hnull])

theorem compareOrder_single (hkeys : batch.descending.length = 1) (hl : batch.rows[i]? = some lhs)
    (hr : batch.rows[j]? = some rhs) :
    compareOrder batch.descending lhs rhs =
      compareKey (batch.key i) (batch.key j) (batch.descending.head?.getD false) := by
  have hleft := row_order_length hl
  have hright := row_order_length hr
  rw [hkeys] at hleft hright
  obtain ⟨flag, hflag⟩ := length_eq_one_iff.mp hkeys
  obtain ⟨x, hx⟩ := length_eq_one_iff.mp hleft
  obtain ⟨y, hy⟩ := length_eq_one_iff.mp hright
  rw [compareOrder, SortedBatch.key, SortedBatch.key, hl, hr, hflag, hx, hy]
  simp [compareKeys, hx, hy]

theorem null_after (hkeys : batch.descending.length = 1) (hij : i ≤ j)
    (hsame : batch.samePartition i j = true) (hnull : batch.key i = none) : batch.key j = none := by
  rcases Nat.eq_or_lt_of_le hij with rfl | hij
  · exact hnull
  obtain ⟨lhs, rhs, hl, hr, -⟩ := samePartition_iff.mp hsame
  have hle := sorted_order hij hsame hl hr
  rw [compareOrder_single hkeys hl hr, hnull] at hle
  cases hkey : batch.key j with
  | none => rfl
  | some k =>
    rw [hkey] at hle
    cases hle

/-- What the segment `s` of row `i` says. -/
structure SegmentOf (batch : SortedBatch κ) (i : Nat) (s : Segment) : Prop where
  stop : s.partitionEnd ≤ batch.rows.length
  inside : s.partitionBegin ≤ s.peerBegin ∧ s.peerBegin ≤ i ∧ i < s.peerEnd ∧
    s.peerEnd ≤ s.partitionEnd
  nonNull : s.partitionBegin ≤ s.nonNullEnd ∧ s.nonNullEnd ≤ s.partitionEnd
  partition : ∀ j, j < batch.rows.length →
    ((s.partitionBegin ≤ j ∧ j < s.partitionEnd) ↔ batch.samePartition i j = true)
  peers : ∀ j, s.partitionBegin ≤ j → j < s.partitionEnd →
    ((s.peerBegin ≤ j ∧ j < s.peerEnd) ↔ batch.sameOrder i j = true)
  keys : batch.descending.length = 1 → ∀ j, s.partitionBegin ≤ j → j < s.partitionEnd →
    (j < s.nonNullEnd ↔ batch.key j ≠ none)

theorem nonNullEnd_keys (hkeys : batch.descending.length = 1) {start stop : Nat}
    (hlt : start ≤ stop)
    (hpart : ∀ i j, start ≤ i → i < stop → start ≤ j → j < stop →
      batch.samePartition i j = true) {j : Nat} (hj : start ≤ j) (hstop : j < stop) :
    j < nonNullEnd (fun row => (batch.key row).isNone) start stop ↔ batch.key j ≠ none := by
  obtain ⟨hbounds, hafter, hbefore⟩ :=
    @nonNullEnd_spec (fun row => (batch.key row).isNone) start stop hlt
  generalize nonNullEnd (fun row => (batch.key row).isNone) start stop = last at *
  constructor
  · intro hlt hnull
    -- the row before the end of the non-null keys has a key
    have hlast := hbefore (by omega)
    have hnone : batch.key (last - 1) = none :=
      null_after hkeys (by omega) (hpart j _ hj hstop (by omega) (by omega)) hnull
    rw [hnone] at hlast
    cases hlast
  · intro hkey
    by_contra hge
    exact hkey (isNone_iff_eq_none.mp (hafter j (Nat.le_of_not_lt hge) hstop))

/-- **Each row has its segment.** -/
theorem segment_spec (hi : i < batch.rows.length) :
    ∃ s, (segment batch)[i]? = some s ∧ SegmentOf batch i s := by
  have hreplicate : ∀ part peers : Nat × Nat,
      (List.replicate (peers.2 - peers.1) (segmentAt batch part peers)).length =
        peers.2 - peers.1 := fun _ _ => length_replicate
  have hpeersLength : ∀ part : Nat × Nat,
      ((stretches batch.sameOrder part.2 (part.2 - part.1) part.1).flatMap fun peers =>
        List.replicate (peers.2 - peers.1) (segmentAt batch part peers)).length =
          part.2 - part.1 := fun part => length_spread (hreplicate part) (Nat.le_refl _)
  obtain ⟨part, hpart, hlow, hhigh, hget⟩ := @getElem?_spread batch.samePartition 0
    batch.rows.length _ _ hpeersLength batch.rows.length i (Nat.le_refl _) (Nat.zero_le i) hi
  obtain ⟨-, hlt, hstop⟩ := stretch_bounds hpart
  have hclass : ∀ j, j < batch.rows.length →
      ((part.1 ≤ j ∧ j < part.2) ↔ batch.samePartition i j = true) := fun j hj =>
    mem_stretch_iff convex_partition hpart hlow hhigh (Nat.zero_le j) hj
  have hsame : ∀ j k, part.1 ≤ j → j < part.2 → part.1 ≤ k → k < part.2 →
      batch.samePartition j k = true := fun j k hj hj' hk hk' =>
    samePartition_trans (samePartition_symm ((hclass j (by omega)).mp ⟨hj, hj'⟩))
      ((hclass k (by omega)).mp ⟨hk, hk'⟩)
  obtain ⟨peers, hpeers, plow, phigh, pget⟩ := @getElem?_spread batch.sameOrder part.1 part.2 _ _
    (hreplicate part) (part.2 - part.1) i (Nat.le_refl _) hlow hhigh
  obtain ⟨hbegin, -, hend⟩ := stretch_bounds hpeers
  refine ⟨segmentAt batch part peers, ?_, hstop, ⟨hbegin, plow, phigh, hend⟩, ?_, hclass, ?_, ?_⟩
  · rw [Nat.sub_zero] at hget
    refine hget.trans (pget.trans ?_)
    rw [List.getElem?_replicate, if_pos (by omega)]
  · rw [segmentAt]
    split
    · exact (nonNullEnd_spec (Nat.le_of_lt hlt)).1
    · exact ⟨Nat.le_of_lt hlt, Nat.le_refl _⟩
  · exact fun j hj hj' => mem_stretch_iff (convex_order hstop hsame) hpeers plow phigh hj hj'
  · intro hkeys j hj hj'
    rw [segmentAt, if_pos hkeys]
    exact nonNullEnd_keys hkeys (Nat.le_of_lt hlt) hsame hj hj'

theorem length_segment (batch : SortedBatch κ) : (segment batch).length = batch.rows.length := by
  have hlength := @length_spread batch.samePartition 0 batch.rows.length _
    (fun part => (stretches batch.sameOrder part.2 (part.2 - part.1) part.1).flatMap fun peers =>
      List.replicate (peers.2 - peers.1) (segmentAt batch part peers))
    (fun part => length_spread (fun _ => length_replicate) (Nat.le_refl _))
    batch.rows.length (Nat.le_refl _)
  exact hlength

/-- Row `j` does not come before row `i` in the ORDER BY. -/
def SortedBatch.orderLE (batch : SortedBatch κ) (i j : Nat) : Bool :=
  match batch.rows[i]?, batch.rows[j]? with
  | some lhs, some rhs => (compareOrder batch.descending lhs rhs).isLE
  | _, _ => false

theorem orderLE_of_lt (hij : i < j) (hsame : batch.samePartition i j = true) :
    batch.orderLE i j = true := by
  obtain ⟨lhs, rhs, hl, hr, -⟩ := samePartition_iff.mp hsame
  have hle := sorted_order hij hsame hl hr
  rw [SortedBatch.orderLE, hl, hr]
  exact hle

theorem orderLE_of_sameOrder (h : batch.sameOrder i j = true) :
    batch.orderLE i j = true := by
  obtain ⟨lhs, rhs, hl, hr, heq⟩ := sameOrder_iff.mp h
  rw [SortedBatch.orderLE, hl, hr]
  have hcompare : compareOrder batch.descending lhs rhs = .eq :=
    (compareKeys_eq_iff (row_order_length hl) (row_order_length hr)).mpr heq
  exact congrArg Ordering.isLE hcompare

theorem sameOrder_of_orderLE (hij : batch.orderLE i j = true) (hji : batch.orderLE j i = true) :
    batch.sameOrder i j = true := by
  rw [SortedBatch.orderLE] at hij hji
  split at hij
  · rename_i lhs rhs hl hr
    rw [hr, hl] at hji
    exact sameOrder_iff.mpr ⟨lhs, rhs, hl, hr,
      compareKeys_antisymm (row_order_length hl) (row_order_length hr) hij hji⟩
  · cases hij

theorem SegmentOf.from_peers {s : Segment} (h : SegmentOf batch i s)
    (hsame : batch.samePartition i j = true) : s.peerBegin ≤ j ↔ batch.orderLE i j = true := by
  have hj : j < batch.rows.length := by
    obtain ⟨_, _, _, hr, -⟩ := samePartition_iff.mp hsame
    exact lt_of_row hr
  have hpart := (h.partition j hj).mpr hsame
  constructor
  · intro hle
    by_cases hend : j < s.peerEnd
    · exact orderLE_of_sameOrder ((h.peers j hpart.1 hpart.2).mp ⟨hle, hend⟩)
    · exact orderLE_of_lt (Nat.lt_of_lt_of_le h.inside.2.2.1 (Nat.le_of_not_lt hend)) hsame
  · intro hle
    by_contra hlt
    have hji := orderLE_of_lt (Nat.lt_of_lt_of_le (Nat.lt_of_not_le hlt) h.inside.2.1)
      (samePartition_symm hsame)
    exact hlt ((h.peers j hpart.1 hpart.2).mpr (sameOrder_of_orderLE hle hji)).1

theorem SegmentOf.upTo_peers {s : Segment} (h : SegmentOf batch i s)
    (hsame : batch.samePartition i j = true) : j < s.peerEnd ↔ batch.orderLE j i = true := by
  have hj : j < batch.rows.length := by
    obtain ⟨_, _, _, hr, -⟩ := samePartition_iff.mp hsame
    exact lt_of_row hr
  have hpart := (h.partition j hj).mpr hsame
  constructor
  · intro hlt
    by_cases hbegin : s.peerBegin ≤ j
    · have hpeers := (h.peers j hpart.1 hpart.2).mp ⟨hbegin, hlt⟩
      obtain ⟨lhs, rhs, hl, hr, heq⟩ := sameOrder_iff.mp hpeers
      exact orderLE_of_sameOrder (sameOrder_iff.mpr ⟨rhs, lhs, hr, hl, heq.symm⟩)
    · exact orderLE_of_lt (Nat.lt_of_lt_of_le (Nat.lt_of_not_le hbegin) h.inside.2.1)
        (samePartition_symm hsame)
  · intro hle
    by_contra hge
    have hij := orderLE_of_lt (Nat.lt_of_lt_of_le h.inside.2.2.1 (Nat.le_of_not_lt hge)) hsame
    exact hge ((h.peers j hpart.1 hpart.2).mpr (sameOrder_of_orderLE hij hle)).2

end Spec

end MldpDriver.Query.Window
