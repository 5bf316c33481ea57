/-
# Does re-partitioning make progress?

A partition that is over budget is dealt out again one level deeper, under a hash with the depth
mixed in (`hashKey`).  The depth is mixed in by an exclusive or with a constant, so from one depth
to the next the hashes change by a fixed mask of bits, and then the partition is the remainder
modulo the number of partitions.
-/
import MldpDriver.Lib.XorClasses
import MldpDriver.Query.GroupedAggregator

namespace MldpDriver.Query.Aggregate

open Lib.XorClasses

/-! ## 1. From one depth to the next -/

/-- What `hashKey` mixes in at a depth. -/
def depthConstant (depth : Nat) : Nat := 0x9e3779b97f4a7c15 * (depth + 1) % 2 ^ 64

/-- The bits in which the hashes of a key at two depths that follow each other differ. -/
def depthMask (depth : Nat) : Nat := depthConstant depth ^^^ depthConstant (depth + 1)

theorem partition_eq (settings : SpillSettings) (depth : Nat) (key : List UInt8) :
    settings.partition depth key =
      (settings.hash key ^^^ depthConstant depth) % settings.partitionCount := rfl

/-- **The next partition**: the hash of this depth with the bits of the mask flipped. -/
theorem partition_succ (settings : SpillSettings) (depth : Nat) (key : List UInt8) :
    settings.partition (depth + 1) key =
      ((settings.hash key ^^^ depthConstant depth) ^^^ depthMask depth) %
        settings.partitionCount := by
  rw [partition_eq, depthMask, Nat.xor_assoc, ← Nat.xor_assoc (depthConstant depth), Nat.xor_self,
    Nat.zero_xor]

theorem depthConstant_lt (depth : Nat) : depthConstant depth < 2 ^ 64 :=
  Nat.mod_lt _ (by decide)

/-! ## 2. The masks -/

/-- The masks of all depths below the limit pass the checks of `splits_of_mask`. -/
theorem depthMask_places : ∀ depth < kMaxDepth, ∀ r ∈ [1, 3, 5, 7], ∃ w < 7, (w + r) % 8 < 7 ∧
    rise (depthMask depth / 2 ^ 32) ((w + r) % 8) - rise (depthMask depth / 2 ^ 32) w ∣ 4 := by
  decide

theorem depthMask_last : ∀ depth < kMaxDepth, depthMask depth / 2 ^ 32 < 2 ^ 32 - 7 ∧
    ∀ e ∈ [1, 3, 5, 7], 2 ^ 32 - e &&& depthMask depth / 2 ^ 32 ≠ 0 := by
  decide

/-! ## 3. Progress -/

/-- `std::hash` of the keys takes every 64-bit value, and no other. -/
structure HashesEverywhere (settings : SpillSettings) : Prop where
  lt : ∀ key, settings.hash key < 2 ^ 64
  surjective : ∀ value < 2 ^ 64, ∃ key, settings.hash key = value

/-- Two keys of the partition `index` at a depth that the next depth takes apart.  Without such
keys the recursion writes the partition again as it is. -/
def Separates (settings : SpillSettings) (depth index : Nat) : Prop :=
  ∃ key key', settings.partition depth key = index ∧ settings.partition depth key' = index ∧
    settings.partition (depth + 1) key ≠ settings.partition (depth + 1) key'

theorem separates_iff {settings : SpillSettings} (h : HashesEverywhere settings)
    (depth index : Nat) :
    Separates settings depth index ↔
      Splits (depthMask depth) settings.partitionCount index := by
  constructor
  · rintro ⟨key, key', hkey, hkey', hne⟩
    rw [partition_succ, partition_succ] at hne
    exact ⟨_, _, Nat.xor_lt_two_pow (h.lt key) (depthConstant_lt depth),
      Nat.xor_lt_two_pow (h.lt key') (depthConstant_lt depth), hkey, hkey', hne⟩
  · rintro ⟨x, y, hx, hy, hxp, hyp, hne⟩
    -- every 64-bit number is the mixed hash of some key
    have hreach (v : Nat) (hv : v < 2 ^ 64) :
        ∃ key, settings.hash key ^^^ depthConstant depth = v := by
      obtain ⟨key, hkey⟩ := h.surjective (v ^^^ depthConstant depth)
        (Nat.xor_lt_two_pow hv (depthConstant_lt depth))
      exact ⟨key, by rw [hkey, Nat.xor_assoc, Nat.xor_self, Nat.xor_zero]⟩
    obtain ⟨key, rfl⟩ := hreach x hx
    obtain ⟨key', rfl⟩ := hreach y hy
    refine ⟨key, key', hxp, hyp, ?_⟩
    rw [partition_succ, partition_succ]
    exact hne

/-- **When re-partitioning makes progress**: at every depth below the limit every partition is
split exactly when the number of partitions is no power of two.  Modulo a power of two, 16 by
default, the new partition is a function of the old one: every key of a partition goes to one and
the same partition at every depth, and the recursion only writes the rows again until the depth
limit. -/
theorem separates_iff_not_two_pow (settings : SpillSettings) (h : HashesEverywhere settings)
    (hcount : settings.spillPartitions < 2 ^ 32) (depth : Nat) (hdepth : depth < kMaxDepth) :
    (∀ index < settings.partitionCount, Separates settings depth index) ↔
      ∀ k, settings.partitionCount ≠ 2 ^ k := by
  simp only [separates_iff h]
  have htwo : 2 ≤ settings.partitionCount := Nat.le_max_left _ _
  constructor
  · intro hall k hpow
    have hzero := hall 0 (by omega)
    rw [hpow] at hzero
    exact not_splits_of_two_pow _ _ _ hzero
  · intro hpow index hindex
    have hlt : settings.partitionCount < 2 ^ 32 := by
      unfold SpillSettings.partitionCount
      omega
    exact splits_of_mask (depthMask_places depth hdepth) (depthMask_last depth hdepth) hlt hpow
      hindex

/-- A hash that takes every 64-bit value: the bytes as the digits of a number. -/
def digitsHash (key : List UInt8) : Nat :=
  key.foldl (fun value byte => value * 256 + byte.toNat) 0 % 2 ^ 64

theorem exists_digits (value : Nat) :
    ∃ key : List UInt8, key.foldl (fun v byte => v * 256 + byte.toNat) 0 = value := by
  induction value using Nat.strongRecOn with
  | ind value ih =>
    rcases Nat.eq_zero_or_pos value with rfl | hpos
    · exact ⟨[], rfl⟩
    · obtain ⟨key, hkey⟩ := ih (value / 256) (Nat.div_lt_self hpos (by decide))
      refine ⟨key ++ [UInt8.ofNat (value % 256)], ?_⟩
      rw [List.foldl_append, hkey, List.foldl_cons, List.foldl_nil, UInt8.toNat_ofNat']
      omega

theorem digitsHash_everywhere (count : Nat) (spill : Bool) :
    HashesEverywhere ⟨digitsHash, count, spill⟩ where
  lt _ := Nat.mod_lt _ (by decide)
  surjective value hvalue := by
    obtain ⟨key, hkey⟩ := exists_digits value
    refine ⟨key, ?_⟩
    show key.foldl (fun v byte => v * 256 + byte.toNat) 0 % 2 ^ 64 = value
    rw [hkey, Nat.mod_eq_of_lt hvalue]

/-- The fourth of ten partitions is split at depth 1. -/
theorem separates_ten : Separates ⟨digitsHash, 10, true⟩ 1 3 := by
  refine (separates_iff_not_two_pow ⟨digitsHash, 10, true⟩ (digitsHash_everywhere 10 true)
    (by decide) 1 (by decide)).mpr ?_ 3 (by decide)
  intro k hk
  have hten : (10 : Nat) = 2 ^ k := hk
  rcases Nat.lt_or_ge k 4 with h | h
  · have : k = 0 ∨ k = 1 ∨ k = 2 ∨ k = 3 := by omega
    rcases this with rfl | rfl | rfl | rfl <;> exact absurd hten (by decide)
  · have := Nat.pow_le_pow_right (by decide : 0 < 2) h
    omega

/-- With 16 partitions, the default, no partition is ever split. -/
theorem not_separates_sixteen :
    ¬ ∃ index < (⟨digitsHash, 16, true⟩ : SpillSettings).partitionCount,
      Separates ⟨digitsHash, 16, true⟩ 0 index := by
  rintro ⟨index, _, hsep⟩
  rw [separates_iff (digitsHash_everywhere 16 true)] at hsep
  exact not_splits_of_two_pow _ 4 _ hsep

end MldpDriver.Query.Aggregate
