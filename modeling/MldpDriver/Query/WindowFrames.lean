/-
# Window frames

`frames` gives each row of a sorted batch its frame, a range of positions in the partition of the
row.  ROWS counts positions; RANGE compares ORDER BY keys, and with an offset it looks for the
target key by bisection.  Offsets on timestamps and durations are in nanoseconds and are converted
to the unit of the key by a division that drops the remainder; targets saturate at the limits of
`int64_t`.
-/
import Mathlib.Algebra.Group.Int.Defs
import Mathlib.Algebra.Group.Nat.Defs
import Mathlib.Algebra.Order.Group.Int
import Mathlib.Order.Lattice
import MldpDriver.Query.WindowSegments

namespace MldpDriver.Query.Window

open Lib.Stretches

variable {κ : Type} [LinearOrder κ]

/-! ## 1. The frame of a row -/

inductive WindowBoundKind
  | unboundedPreceding
  | preceding
  | currentRow
  | following
  | unboundedFollowing
  deriving DecidableEq

/-- A resolved frame: ROWS (`rows`) or RANGE, with its two bounds. -/
structure WindowFrameSpec where
  rows : Bool
  start : WindowBoundKind
  startOffset : Int
  stop : WindowBoundKind
  stopOffset : Int

def boundRank : WindowBoundKind → Nat
  | .unboundedPreceding => 0
  | .preceding => 1
  | .currentRow => 2
  | .following => 3
  | .unboundedFollowing => 4

def WindowBoundKind.hasOffset : WindowBoundKind → Bool
  | .preceding | .following => true
  | _ => false

/-- A RANGE frame with an offset. -/
def WindowFrameSpec.ranged (frame : WindowFrameSpec) : Bool :=
  !frame.rows && (frame.start.hasOffset || frame.stop.hasOffset)

/-- What the binder lets through, for the number of ORDER BY keys. -/
structure WindowFrameSpec.Legal (frame : WindowFrameSpec) (orderKeys : Nat) : Prop where
  start : frame.start ≠ .unboundedFollowing
  stop : frame.stop ≠ .unboundedPreceding
  ordered : boundRank frame.start ≤ boundRank frame.stop
  startOffset : 0 ≤ frame.startOffset ∧ frame.startOffset ≤ maxInt64
  stopOffset : 0 ≤ frame.stopOffset ∧ frame.stopOffset ≤ maxInt64
  single : frame.ranged = true → orderKeys = 1

inductive TimeUnit
  | second | milli | micro | nano

/-- The type of the ORDER BY key: a time with its unit, or another type. -/
inductive KeyType
  | timestamp (unit : TimeUnit)
  | duration (unit : TimeUnit)
  | other

/-- An offset in the unit of the key. -/
def keyOffset (offset : Int) : KeyType → Int
  | .timestamp unit | .duration unit =>
    match unit with
    | .second => offset.tdiv 1000000000
    | .milli => offset.tdiv 1000000
    | .micro => offset.tdiv 1000
    | .nano => offset
  | .other => offset

def saturatingAdd (lhs rhs : Int) : Int :=
  if lhs + rhs < minInt64 ∨ maxInt64 < lhs + rhs then (if 0 < rhs then maxInt64 else minInt64)
  else lhs + rhs

def saturatingSub (lhs rhs : Int) : Int :=
  if lhs - rhs < minInt64 ∨ maxInt64 < lhs - rhs then (if rhs < 0 then maxInt64 else minInt64)
  else lhs - rhs

def clamp (value low high : Int) : Int :=
  if value < low then low else if high < value then high else value

section Frames

variable (frame : WindowFrameSpec) (batch : SortedBatch κ) (keyType : KeyType) (integer : κ → Int)

/-- The direction of the first ORDER BY key. -/
def SortedBatch.descends : Bool := batch.descending.head?.getD false

/-- The integer of the key of a row, which is 0 for a null. -/
def keyInteger (row : Nat) : Int :=
  match batch.key row with
  | some key => integer key
  | none => 0

/-- Is a key before the target: with `strict`, not past it; else, not at it? -/
def keyBefore (descending strict : Bool) (target value : Int) : Bool :=
  if descending then (if strict then decide (target ≤ value) else decide (target < value))
  else if strict then decide (value ≤ target) else decide (value < target)

/-- The first row of the non-null keys whose key is past the target (`strict`) or at it. -/
def search (s : Segment) (target : Int) (strict : Bool) : Nat :=
  bisect (fun row => keyBefore batch.descends strict target (keyInteger batch integer row))
    (s.nonNullEnd - s.partitionBegin) s.partitionBegin s.nonNullEnd

/-- The key that is `offset` before (`preceding`) or after the key of the row. -/
def targetKey (row : Nat) (offset : Int) (preceding : Bool) : Int :=
  if preceding != batch.descends then saturatingSub (keyInteger batch integer row) offset
  else saturatingAdd (keyInteger batch integer row) offset

def frameOffset (offset : Int) : Int :=
  if frame.ranged then keyOffset offset keyType else offset

/-- The begin of the frame, not yet kept inside the partition. -/
def frameBegin (s : Segment) (row : Nat) : Int :=
  let offset := frameOffset frame keyType frame.startOffset
  let nullKey := frame.ranged && decide (s.nonNullEnd ≤ row)
  match frame.start with
  | .unboundedPreceding => s.partitionBegin
  | .currentRow => if frame.rows then row else s.peerBegin
  | .preceding =>
    if frame.rows then max (s.partitionBegin : Int) (saturatingSub row offset)
    else if nullKey then s.peerBegin
    else search batch integer s (targetKey batch integer row offset true) false
  | .following =>
    if frame.rows then min (s.partitionEnd : Int) (saturatingAdd row offset)
    else if nullKey then s.peerBegin
    else search batch integer s (targetKey batch integer row offset false) false
  | .unboundedFollowing => s.partitionEnd

/-- The end of the frame. -/
def frameEnd (s : Segment) (row : Nat) : Int :=
  let offset := frameOffset frame keyType frame.stopOffset
  let nullKey := frame.ranged && decide (s.nonNullEnd ≤ row)
  match frame.stop with
  | .unboundedFollowing => s.partitionEnd
  | .currentRow => if frame.rows then (row : Int) + 1 else s.peerEnd
  | .preceding =>
    if frame.rows then saturatingAdd (saturatingSub row offset) 1
    else if nullKey then s.peerEnd
    else search batch integer s (targetKey batch integer row offset true) true
  | .following =>
    if frame.rows then saturatingAdd (saturatingAdd row offset) 1
    else if nullKey then s.peerEnd
    else search batch integer s (targetKey batch integer row offset false) true
  | .unboundedPreceding => s.partitionBegin

/-- The frame [begin, end) of a row. -/
def frameOf (s : Segment) (row : Nat) : Int × Int :=
  let start := clamp (frameBegin frame batch keyType integer s row) s.partitionBegin s.partitionEnd
  (start, clamp (frameEnd frame batch keyType integer s row) start s.partitionEnd)

def frames : List (Int × Int) :=
  (segment batch).zipIdx.map fun s => frameOf frame batch keyType integer s.1 s.2

end Frames

/-! ## 2. What a frame is

Beside it stands what a frame is (`InFrame`), with the distance of two keys in nanoseconds and no
limits.  For a start PRECEDING and an end FOLLOWING the two agree for every batch: what the division
and the saturation take away is not in reach of any key.  For a start FOLLOWING and an end PRECEDING
they take away the other side, and the rows whose key is the target itself may be nearer than the
offset (`StartGap`, `StopGap`). -/

/-- The nanoseconds of a unit of the key; keys of other types count as they are. -/
def KeyType.unit : KeyType → Int
  | .timestamp unit | .duration unit =>
    match unit with
    | .second => 1000000000
    | .milli => 1000000
    | .micro => 1000
    | .nano => 1
  | .other => 1

def signedOffset (kind : WindowBoundKind) (offset : Int) : Int :=
  if kind = .preceding then -offset else offset

section Definition

variable (frame : WindowFrameSpec) (batch : SortedBatch κ) (keyType : KeyType) (integer : κ → Int)

/-- How far `b` is after `a` in the direction of the ORDER BY. -/
def keyDistance (a b : κ) : Int :=
  (if batch.descends then integer a - integer b else integer b - integer a) * keyType.unit

/-- Row `j` is not before the start of the frame of row `i`.  In a RANGE with an offset a null key
is at no distance of another null, and after all keys. -/
def FromStart (i j : Nat) : Prop :=
  match frame.start with
  | .unboundedPreceding => True
  | .unboundedFollowing => False
  | .currentRow => if frame.rows then i ≤ j else batch.orderLE i j = true
  | kind =>
    if frame.rows then (i : Int) + signedOffset kind frame.startOffset ≤ j
    else match batch.key i, batch.key j with
      | some a, some b =>
        signedOffset kind frame.startOffset ≤ keyDistance batch keyType integer a b
      | some _, none => True
      | none, key => key = none

/-- Row `j` is not after the end of the frame of row `i`. -/
def UpToStop (i j : Nat) : Prop :=
  match frame.stop with
  | .unboundedFollowing => True
  | .unboundedPreceding => False
  | .currentRow => if frame.rows then j ≤ i else batch.orderLE j i = true
  | kind =>
    if frame.rows then (j : Int) ≤ i + signedOffset kind frame.stopOffset
    else match batch.key i, batch.key j with
      | some a, some b =>
        keyDistance batch keyType integer a b ≤ signedOffset kind frame.stopOffset
      | some _, none => False
      | none, _ => True

/-- Row `j` is in the frame of row `i`. -/
def InFrame (i j : Nat) : Prop :=
  batch.samePartition i j = true ∧ FromStart frame batch keyType integer i j ∧
    UpToStop frame batch keyType integer i j

/-- The key of row `j` is the target of a start FOLLOWING, but nearer than the offset. -/
def StartGap (i j : Nat) : Prop :=
  frame.rows = false ∧ frame.start = .following ∧ ∃ a b, batch.key i = some a ∧
    batch.key j = some b ∧
    integer b = targetKey batch integer i (keyOffset frame.startOffset keyType) false ∧
    keyDistance batch keyType integer a b < frame.startOffset

/-- The key of row `j` is the target of an end PRECEDING, but nearer than the offset. -/
def StopGap (i j : Nat) : Prop :=
  frame.rows = false ∧ frame.stop = .preceding ∧ ∃ a b, batch.key i = some a ∧
    batch.key j = some b ∧
    integer b = targetKey batch integer i (keyOffset frame.stopOffset keyType) true ∧
    -frame.stopOffset < keyDistance batch keyType integer a b

end Definition

/-! ## 3. Offsets and targets -/

theorem unit_pos (keyType : KeyType) : 0 < keyType.unit := by
  cases keyType with
  | timestamp unit => cases unit <;> decide
  | duration unit => cases unit <;> decide
  | other => decide

theorem keyOffset_eq {offset : Int} (h : 0 ≤ offset) (keyType : KeyType) :
    keyOffset offset keyType = offset / keyType.unit := by
  cases keyType with
  | timestamp unit => cases unit <;> simp [keyOffset, KeyType.unit, Int.tdiv_eq_ediv_of_nonneg h]
  | duration unit => cases unit <;> simp [keyOffset, KeyType.unit, Int.tdiv_eq_ediv_of_nonneg h]
  | other => simp [keyOffset, KeyType.unit]

theorem near_iff (x offset : Int) {y limit unit : Int} (hunit : 0 < unit) (hy : y ≤ limit) :
    y ≤ min (x + offset / unit) limit ↔ (y - x) * unit ≤ offset := by
  rw [le_min_iff, and_iff_left hy, ← Int.le_ediv_iff_mul_le hunit]
  omega

theorem far_iff (x offset : Int) {y limit unit : Int} (hunit : 0 < unit) (hy : y ≤ limit) :
    min (x + offset / unit) limit ≤ y ↔ offset ≤ (y - x) * unit ∨
      y = min (x + offset / unit) limit ∧ (y - x) * unit < offset := by
  constructor
  · intro hle
    by_cases hfar : offset ≤ (y - x) * unit
    · exact .inl hfar
    · have hnear := (near_iff x offset hunit hy).mpr (Int.le_of_lt (Int.not_le.mp hfar))
      exact .inr ⟨le_antisymm hnear hle, Int.not_le.mp hfar⟩
  · rintro (hfar | ⟨heq, -⟩)
    · have hdiv : offset / unit ≤ y - x := Int.ediv_le_of_le_mul hunit hfar
      exact le_trans (min_le_left _ _) (by omega)
    · exact Int.le_of_eq heq.symm

theorem saturatingAdd_eq {x offset : Int} (hx : minInt64 ≤ x ∧ x ≤ maxInt64) (h : 0 ≤ offset) :
    saturatingAdd x offset = min (x + offset) maxInt64 := by
  rw [saturatingAdd]
  by_cases hover : maxInt64 < x + offset
  · rw [if_pos (Or.inr hover), if_pos (by omega)]
    omega
  · rw [if_neg (by omega)]
    omega

theorem saturatingSub_eq {x offset : Int} (hx : minInt64 ≤ x ∧ x ≤ maxInt64) (h : 0 ≤ offset) :
    saturatingSub x offset = max (x - offset) minInt64 := by
  rw [saturatingSub]
  by_cases hover : x - offset < minInt64
  · rw [if_pos (Or.inl hover), if_neg (by omega)]
    omega
  · rw [if_neg (by omega)]
    omega

/-- A key counted in the direction of the ORDER BY. -/
def directed (descending : Bool) (value : Int) : Int := if descending then -value else value

/-- The last key in that direction. -/
def lastKey (descending : Bool) : Int := if descending then -minInt64 else maxInt64

theorem keyBefore_strict (descending : Bool) (target value : Int) :
    keyBefore descending true target value = true ↔
      directed descending value ≤ directed descending target := by
  cases descending <;> simp [keyBefore, directed]

theorem keyBefore_not_strict (descending : Bool) (target value : Int) :
    keyBefore descending false target value = true ↔
      directed descending value < directed descending target := by
  cases descending <;> simp [keyBefore, directed]

section Targets

variable {batch : SortedBatch κ} {integer : κ → Int} {keyType : KeyType} {i : Nat} {a b : κ}
  {offset : Int}

theorem targetKey_following (hkey : batch.key i = some a)
    (ha : minInt64 ≤ integer a ∧ integer a ≤ maxInt64) (h : 0 ≤ offset) :
    directed batch.descends (targetKey batch integer i offset false) =
      min (directed batch.descends (integer a) + offset) (lastKey batch.descends) := by
  rw [targetKey, keyInteger, hkey]
  cases batch.descends with
  | false => exact saturatingAdd_eq ha h
  | true =>
    have hsub := saturatingSub_eq ha h
    simp only [directed, lastKey, minInt64] at hsub ⊢
    simp only [bne_iff_ne, ne_eq, Bool.false_eq_true, not_false_eq_true, if_true, hsub]
    omega

theorem targetKey_preceding (hkey : batch.key i = some a)
    (ha : minInt64 ≤ integer a ∧ integer a ≤ maxInt64) (h : 0 ≤ offset) :
    directed (!batch.descends) (targetKey batch integer i offset true) =
      min (directed (!batch.descends) (integer a) + offset) (lastKey (!batch.descends)) := by
  rw [targetKey, keyInteger, hkey]
  cases batch.descends with
  | false =>
    have hsub := saturatingSub_eq ha h
    simp only [directed, lastKey, minInt64, Bool.not_false] at hsub ⊢
    simp only [bne_iff_ne, ne_eq, Bool.true_eq_false, not_false_eq_true, if_true, hsub]
    omega
  | true => exact saturatingAdd_eq ha h

theorem directed_le_lastKey {x : Int} (hx : minInt64 ≤ x ∧ x ≤ maxInt64) (descending : Bool) :
    directed descending x ≤ lastKey descending := by
  cases descending with
  | false => exact hx.2
  | true => exact Int.neg_le_neg hx.1

theorem directed_inj {descending : Bool} {x y : Int} :
    directed descending x = directed descending y ↔ x = y := by
  cases descending <;> simp [directed]

theorem directed_not (descending : Bool) (x : Int) :
    directed (!descending) x = -directed descending x := by
  cases descending <;> simp [directed]

theorem keyDistance_eq (batch : SortedBatch κ) (keyType : KeyType) (integer : κ → Int) (a b : κ) :
    keyDistance batch keyType integer a b =
      (directed batch.descends (integer b) - directed batch.descends (integer a)) *
        keyType.unit := by
  rw [keyDistance]
  cases batch.descends with
  | false => rfl
  | true => simp only [directed, if_true]; congr 1; omega

theorem upTo_following (hkey : batch.key i = some a)
    (ha : minInt64 ≤ integer a ∧ integer a ≤ maxInt64)
    (hb : minInt64 ≤ integer b ∧ integer b ≤ maxInt64) (h : 0 ≤ offset) :
    directed batch.descends (integer b) ≤
        directed batch.descends (targetKey batch integer i (keyOffset offset keyType) false) ↔
      keyDistance batch keyType integer a b ≤ offset := by
  have hdiv : 0 ≤ offset / keyType.unit := Int.ediv_nonneg h (Int.le_of_lt (unit_pos keyType))
  rw [keyOffset_eq h, targetKey_following hkey ha hdiv, keyDistance_eq,
    near_iff _ offset (unit_pos keyType) (directed_le_lastKey hb _)]

theorem neg_keyDistance (batch : SortedBatch κ) (keyType : KeyType) (integer : κ → Int) (a b : κ) :
    (directed (!batch.descends) (integer b) - directed (!batch.descends) (integer a)) *
      keyType.unit = -keyDistance batch keyType integer a b := by
  rw [keyDistance_eq, directed_not, directed_not, ← Int.neg_mul]
  congr 1
  omega

theorem from_preceding (hkey : batch.key i = some a)
    (ha : minInt64 ≤ integer a ∧ integer a ≤ maxInt64)
    (hb : minInt64 ≤ integer b ∧ integer b ≤ maxInt64) (h : 0 ≤ offset) :
    directed batch.descends (targetKey batch integer i (keyOffset offset keyType) true) ≤
        directed batch.descends (integer b) ↔
      -offset ≤ keyDistance batch keyType integer a b := by
  have hdiv : 0 ≤ offset / keyType.unit := Int.ediv_nonneg h (Int.le_of_lt (unit_pos keyType))
  have hnear := near_iff (directed (!batch.descends) (integer a)) offset
    (unit_pos keyType) (directed_le_lastKey hb (!batch.descends))
  rw [← targetKey_preceding hkey ha hdiv, ← keyOffset_eq h, neg_keyDistance, directed_not,
    directed_not] at hnear
  omega

/-- The target of a start FOLLOWING lets in the rows in the gap. -/
theorem from_following (hkey : batch.key i = some a)
    (ha : minInt64 ≤ integer a ∧ integer a ≤ maxInt64)
    (hb : minInt64 ≤ integer b ∧ integer b ≤ maxInt64) (h : 0 ≤ offset) :
    directed batch.descends (targetKey batch integer i (keyOffset offset keyType) false) ≤
        directed batch.descends (integer b) ↔
      offset ≤ keyDistance batch keyType integer a b ∨
        integer b = targetKey batch integer i (keyOffset offset keyType) false ∧
          keyDistance batch keyType integer a b < offset := by
  have hdiv : 0 ≤ offset / keyType.unit := Int.ediv_nonneg h (Int.le_of_lt (unit_pos keyType))
  have hfar := far_iff (directed batch.descends (integer a)) offset
    (unit_pos keyType) (directed_le_lastKey hb batch.descends)
  rw [← targetKey_following hkey ha hdiv, ← keyOffset_eq h, ← keyDistance_eq,
    directed_inj] at hfar
  exact hfar

/-- The target of an end PRECEDING lets in the rows in the gap. -/
theorem upTo_preceding (hkey : batch.key i = some a)
    (ha : minInt64 ≤ integer a ∧ integer a ≤ maxInt64)
    (hb : minInt64 ≤ integer b ∧ integer b ≤ maxInt64) (h : 0 ≤ offset) :
    directed batch.descends (integer b) ≤
        directed batch.descends (targetKey batch integer i (keyOffset offset keyType) true) ↔
      keyDistance batch keyType integer a b ≤ -offset ∨
        integer b = targetKey batch integer i (keyOffset offset keyType) true ∧
          -offset < keyDistance batch keyType integer a b := by
  have hdiv : 0 ≤ offset / keyType.unit := Int.ediv_nonneg h (Int.le_of_lt (unit_pos keyType))
  have hfar := far_iff (directed (!batch.descends) (integer a)) offset
    (unit_pos keyType) (directed_le_lastKey hb (!batch.descends))
  rw [← targetKey_preceding hkey ha hdiv, ← keyOffset_eq h, neg_keyDistance,
    directed_inj, directed_not, directed_not] at hfar
  rw [← Int.neg_le_neg_iff, hfar]
  exact or_congr (by omega) (and_congr_right' (by omega))

end Targets

/-! ## 4. The search -/

section Search

variable {batch : SortedBatch κ} {integer : κ → Int} {i : Nat} {s : Segment}

theorem keyInteger_of_key {row : Nat} {k : κ} (h : batch.key row = some k) :
    keyInteger batch integer row = integer k := by
  rw [keyInteger, h]

theorem descends_eq (batch : SortedBatch κ) :
    batch.descending.head?.getD false = batch.descends := rfl

/-- Greater keys have greater integers. -/
def Increasing (integer : κ → Int) : Prop :=
  ∀ a b, a < b → integer a < integer b

theorem Increasing.le {integer : κ → Int} (h : Increasing integer) {a b : κ} (hab : a ≤ b) :
    integer a ≤ integer b := by
  rcases lt_or_eq_of_le hab with hlt | rfl
  · exact Int.le_of_lt (h a b hlt)
  · exact Int.le_refl _

theorem keys_ordered (hkeys : batch.descending.length = 1) (hmono : Increasing integer)
    {j k : Nat} (hjk : j ≤ k) (hsame : batch.samePartition j k = true) {a b : κ}
    (ha : batch.key j = some a) (hb : batch.key k = some b) :
    directed batch.descends (integer a) ≤ directed batch.descends (integer b) := by
  rcases Nat.eq_or_lt_of_le hjk with rfl | hjk
  · rw [Option.some.inj (ha.symm.trans hb)]
  obtain ⟨lhs, rhs, hl, hr, -⟩ := samePartition_iff.mp hsame
  have hle := sorted_order hjk hsame hl hr
  rw [compareOrder_single hkeys hl hr, ha, hb, descends_eq] at hle
  cases hdesc : batch.descends with
  | false =>
    rw [hdesc] at hle
    have hab : compare a b ≠ .gt := Ordering.ne_gt_iff_isLE.mpr hle
    exact hmono.le (compare_le_iff_le.mp hab)
  | true =>
    rw [hdesc] at hle
    simp only [compareKey, if_true, Ordering.isLE_swap] at hle
    have hba : compare a b ≠ .lt := Ordering.ne_lt_iff_isGE.mpr hle
    exact Int.neg_le_neg (hmono.le (compare_ge_iff_ge.mp hba))

theorem lt_search_iff (hs : SegmentOf batch i s) (hkeys : batch.descending.length = 1)
    (hmono : Increasing integer) {j : Nat} (hsame : batch.samePartition i j = true)
    (target : Int) (strict : Bool) :
    j < search batch integer s target strict ↔
      ∃ b, batch.key j = some b ∧ keyBefore batch.descends strict target (integer b) = true := by
  obtain ⟨_, _, _, hr, -⟩ := samePartition_iff.mp hsame
  have hpart := (hs.partition j (lt_of_row hr)).mpr hsame
  have hclass : ∀ m, s.partitionBegin ≤ m → m < s.partitionEnd →
      batch.samePartition i m = true := fun m hm hm' =>
    (hs.partition m (Nat.lt_of_lt_of_le hm' hs.stop)).mp ⟨hm, hm'⟩
  have hkey : ∀ m, s.partitionBegin ≤ m → m < s.nonNullEnd → ∃ b, batch.key m = some b := by
    intro m hm hm'
    have hsome := (hs.keys hkeys m hm (Nat.lt_of_lt_of_le hm' hs.nonNull.2)).mp hm'
    exact Option.ne_none_iff_exists'.mp hsome
  have hbefore : ∀ m n, s.partitionBegin ≤ m → m ≤ n → n < s.nonNullEnd →
      keyBefore batch.descends strict target (keyInteger batch integer n) = true →
      keyBefore batch.descends strict target (keyInteger batch integer m) = true := by
    intro m n hm hmn hn h
    obtain ⟨a, ha⟩ := hkey m hm (by omega)
    obtain ⟨b, hb⟩ := hkey n (by omega) hn
    have hmn' := samePartition_trans
      (samePartition_symm (hclass m hm (Nat.lt_of_lt_of_le (by omega) hs.nonNull.2)))
      (hclass n (by omega) (Nat.lt_of_lt_of_le hn hs.nonNull.2))
    have hle := keys_ordered hkeys hmono hmn hmn' ha hb
    rw [keyInteger_of_key hb] at h
    rw [keyInteger_of_key ha]
    cases strict with
    | false =>
      rw [keyBefore_not_strict] at h ⊢
      exact Int.lt_of_le_of_lt hle h
    | true =>
      rw [keyBefore_strict] at h ⊢
      exact Int.le_trans hle h
  obtain ⟨hbounds, hfound⟩ := bisect_spec (Nat.le_refl _) hs.nonNull.1 hbefore
  rw [search]
  by_cases hj : j < s.nonNullEnd
  · obtain ⟨b, hb⟩ := hkey j hpart.1 hj
    rw [hfound j hpart.1 hj, keyInteger_of_key hb]
    exact ⟨fun h => ⟨b, hb, h⟩, fun ⟨b', hb', h⟩ => Option.some.inj (hb.symm.trans hb') ▸ h⟩
  · constructor
    · intro hlt
      exact absurd (Nat.lt_of_lt_of_le hlt hbounds.2) hj
    · rintro ⟨b, hb, -⟩
      have hsome : batch.key j ≠ none := by rw [hb]; exact Option.some_ne_none b
      exact absurd ((hs.keys hkeys j hpart.1 hpart.2).mpr hsome) hj

theorem search_le_iff (hs : SegmentOf batch i s) (hkeys : batch.descending.length = 1)
    (hmono : Increasing integer) {j : Nat} (hsame : batch.samePartition i j = true)
    (target : Int) :
    search batch integer s target false ≤ j ↔ ∀ b, batch.key j = some b →
      directed batch.descends target ≤ directed batch.descends (integer b) := by
  rw [← Nat.not_lt, lt_search_iff hs hkeys hmono hsame]
  simp only [not_exists, not_and, keyBefore_not_strict, Int.not_lt]

theorem lt_search_strict_iff (hs : SegmentOf batch i s) (hkeys : batch.descending.length = 1)
    (hmono : Increasing integer) {j : Nat} (hsame : batch.samePartition i j = true)
    (target : Int) :
    j < search batch integer s target true ↔ ∃ b, batch.key j = some b ∧
      directed batch.descends (integer b) ≤ directed batch.descends target := by
  rw [lt_search_iff hs hkeys hmono hsame]
  simp only [keyBefore_strict]

theorem orderLE_of_null (hkeys : batch.descending.length = 1) {j : Nat}
    (hsame : batch.samePartition i j = true) (hnull : batch.key i = none) :
    (batch.orderLE i j = true ↔ batch.key j = none) ∧ batch.orderLE j i = true := by
  obtain ⟨lhs, rhs, hl, hr, -⟩ := samePartition_iff.mp hsame
  rw [SortedBatch.orderLE, SortedBatch.orderLE, hl, hr]
  simp only [compareOrder_single hkeys hl hr, compareOrder_single hkeys hr hl, hnull]
  cases batch.key j with
  | none => exact ⟨⟨fun _ => rfl, fun _ => rfl⟩, rfl⟩
  | some k => exact ⟨⟨fun h => (by cases h), fun h => (by cases h)⟩, rfl⟩

theorem nonNullEnd_le_iff (hs : SegmentOf batch i s) (hkeys : batch.descending.length = 1) :
    s.nonNullEnd ≤ i ↔ batch.key i = none := by
  obtain ⟨hbegin, hfirst, hlast, hend⟩ := hs.inside
  rw [← Nat.not_lt, hs.keys hkeys i (by omega) (by omega), not_not]

end Search

/-! ## 5. The bounds of the frame -/

section Bounds

variable {frame : WindowFrameSpec} {batch : SortedBatch κ} {keyType : KeyType} {integer : κ → Int}
  {i j : Nat} {s : Segment}

/-- What a batch and its keys are to be for a frame. -/
structure Keyed (frame : WindowFrameSpec) (batch : SortedBatch κ) (integer : κ → Int) : Prop where
  legal : frame.Legal batch.descending.length
  range : ∀ row k, batch.key row = some k → minInt64 ≤ integer k ∧ integer k ≤ maxInt64
  mono : frame.ranged = true → Increasing integer

theorem ranged_of_start (hrows : frame.rows = false) (h : frame.start.hasOffset = true) :
    frame.ranged = true := by
  simp [WindowFrameSpec.ranged, hrows, h]

theorem ranged_of_stop (hrows : frame.rows = false) (h : frame.stop.hasOffset = true) :
    frame.ranged = true := by
  simp [WindowFrameSpec.ranged, hrows, h]

theorem offset_of_rows (hrows : frame.rows = true) (offset : Int) :
    frameOffset frame keyType offset = offset := by
  simp [frameOffset, WindowFrameSpec.ranged, hrows]

/-- Positions fit in `int64_t`. -/
theorem position_range (batch : SortedBatch κ) (hi : i < batch.rows.length) :
    minInt64 ≤ (i : Int) ∧ (i : Int) < maxInt64 := by
  have hsize := batch.size
  simp only [minInt64]
  omega

theorem not_startGap (h : frame.start ≠ .following) :
    ¬ StartGap frame batch keyType integer i j := fun hgap => h hgap.2.1

theorem not_stopGap (h : frame.stop ≠ .preceding) :
    ¬ StopGap frame batch keyType integer i j := fun hgap => h hgap.2.1

theorem signedOffset_preceding (offset : Int) : signedOffset .preceding offset = -offset := rfl

theorem signedOffset_following (offset : Int) : signedOffset .following offset = offset := rfl

/-- **The start of the frame**: besides the rows that it is to let in, the rows in the gap. -/
theorem begin_le_iff (hk : Keyed frame batch integer) (hs : SegmentOf batch i s)
    (hsame : batch.samePartition i j = true) :
    frameBegin frame batch keyType integer s i ≤ j ↔
      FromStart frame batch keyType integer i j ∨ StartGap frame batch keyType integer i j := by
  obtain ⟨_, _, hl, hr, -⟩ := samePartition_iff.mp hsame
  have hpart := (hs.partition j (lt_of_row hr)).mpr hsame
  have hi := position_range batch (lt_of_row hl)
  have hj := position_range batch (lt_of_row hr)
  have hend := hs.stop
  have hoffset := hk.legal.startOffset
  cases hstart : frame.start with
  | unboundedPreceding =>
    rw [or_iff_left (not_startGap (by simp [hstart]))]
    simp only [frameBegin, FromStart, hstart]
    exact iff_of_true (by omega) trivial
  | unboundedFollowing => exact absurd hstart hk.legal.start
  | currentRow =>
    rw [or_iff_left (not_startGap (by simp [hstart]))]
    simp only [frameBegin, FromStart, hstart]
    cases frame.rows with
    | true => simp
    | false => simpa using hs.from_peers hsame
  | preceding =>
    rw [or_iff_left (not_startGap (by simp [hstart]))]
    cases hrows : frame.rows with
    | true =>
      simp only [frameBegin, FromStart, hstart, hrows, if_true, offset_of_rows hrows,
        saturatingSub_eq ⟨hi.1, Int.le_of_lt hi.2⟩ hoffset.1, signedOffset_preceding]
      omega
    | false =>
      have hranged := ranged_of_start hrows (by rw [hstart]; rfl)
      have hkeys := hk.legal.single hranged
      simp only [frameBegin, FromStart, hstart, hrows, Bool.false_eq_true, if_false, hranged,
        Bool.true_and, decide_eq_true_eq, nonNullEnd_le_iff hs hkeys, frameOffset, if_true,
        signedOffset_preceding]
      cases hkey : batch.key i with
      | none =>
        simp only [if_true, Int.ofNat_le]
        rw [hs.from_peers hsame, (orderLE_of_null hkeys hsame hkey).1]
      | some a =>
        simp only [reduceCtorEq, if_false, Int.ofNat_le]
        rw [search_le_iff hs hkeys (hk.mono hranged) hsame]
        cases hkey' : batch.key j with
        | none => simp
        | some b => simpa using from_preceding hkey (hk.range i a hkey) (hk.range j b hkey') hoffset.1
  | following =>
    cases hrows : frame.rows with
    | true =>
      have hgap : ¬ StartGap frame batch keyType integer i j := fun h =>
        Bool.false_ne_true (h.1.symm.trans hrows)
      rw [or_iff_left hgap]
      simp only [frameBegin, FromStart, hstart, hrows, if_true, offset_of_rows hrows,
        saturatingAdd_eq ⟨hi.1, Int.le_of_lt hi.2⟩ hoffset.1, signedOffset_following]
      omega
    | false =>
      have hranged := ranged_of_start hrows (by rw [hstart]; rfl)
      have hkeys := hk.legal.single hranged
      simp only [frameBegin, FromStart, StartGap, hstart, hrows, Bool.false_eq_true, if_false,
        hranged, Bool.true_and, decide_eq_true_eq, nonNullEnd_le_iff hs hkeys, frameOffset,
        if_true, signedOffset_following, true_and]
      cases hkey : batch.key i with
      | none =>
        simp only [if_true, Int.ofNat_le]
        rw [hs.from_peers hsame, (orderLE_of_null hkeys hsame hkey).1]
        simp
      | some a =>
        simp only [reduceCtorEq, if_false, Int.ofNat_le]
        rw [search_le_iff hs hkeys (hk.mono hranged) hsame]
        cases hkey' : batch.key j with
        | none => simp
        | some b => simpa using from_following hkey (hk.range i a hkey) (hk.range j b hkey') hoffset.1

/-- **The end of the frame**, likewise. -/
theorem lt_end_iff (hk : Keyed frame batch integer) (hs : SegmentOf batch i s)
    (hsame : batch.samePartition i j = true) :
    (j : Int) < frameEnd frame batch keyType integer s i ↔
      UpToStop frame batch keyType integer i j ∨ StopGap frame batch keyType integer i j := by
  obtain ⟨_, _, hl, hr, -⟩ := samePartition_iff.mp hsame
  have hpart := (hs.partition j (lt_of_row hr)).mpr hsame
  have hi := position_range batch (lt_of_row hl)
  have hj := position_range batch (lt_of_row hr)
  have hoffset := hk.legal.stopOffset
  cases hstop : frame.stop with
  | unboundedFollowing =>
    rw [or_iff_left (not_stopGap (by simp [hstop]))]
    simp only [frameEnd, UpToStop, hstop]
    exact iff_of_true (by omega) trivial
  | unboundedPreceding => exact absurd hstop hk.legal.stop
  | currentRow =>
    rw [or_iff_left (not_stopGap (by simp [hstop]))]
    simp only [frameEnd, UpToStop, hstop]
    cases frame.rows with
    | true =>
      simp only [if_true]
      omega
    | false => simpa using hs.upTo_peers hsame
  | following =>
    rw [or_iff_left (not_stopGap (by simp [hstop]))]
    cases hrows : frame.rows with
    | true =>
      have hadd := saturatingAdd_eq ⟨hi.1, Int.le_of_lt hi.2⟩ hoffset.1
      have hsucc : saturatingAdd (saturatingAdd i frame.stopOffset) 1 =
          min (saturatingAdd i frame.stopOffset + 1) maxInt64 :=
        saturatingAdd_eq (by omega) (by decide)
      rw [hadd] at hsucc
      simp only [frameEnd, UpToStop, hstop, hrows, if_true, offset_of_rows hrows, hadd, hsucc,
        signedOffset_following]
      omega
    | false =>
      have hranged := ranged_of_stop hrows (by rw [hstop]; rfl)
      have hkeys := hk.legal.single hranged
      simp only [frameEnd, UpToStop, hstop, hrows, Bool.false_eq_true, if_false, hranged,
        Bool.true_and, decide_eq_true_eq, nonNullEnd_le_iff hs hkeys, frameOffset, if_true,
        signedOffset_following]
      cases hkey : batch.key i with
      | none =>
        simp only [if_true, Int.ofNat_lt]
        rw [hs.upTo_peers hsame]
        exact iff_of_true (orderLE_of_null hkeys hsame hkey).2 trivial
      | some a =>
        simp only [reduceCtorEq, if_false, Int.ofNat_lt]
        rw [lt_search_strict_iff hs hkeys (hk.mono hranged) hsame]
        cases hkey' : batch.key j with
        | none => simp
        | some b => simpa using upTo_following hkey (hk.range i a hkey) (hk.range j b hkey') hoffset.1
  | preceding =>
    cases hrows : frame.rows with
    | true =>
      have hgap : ¬ StopGap frame batch keyType integer i j := fun h =>
        Bool.false_ne_true (h.1.symm.trans hrows)
      rw [or_iff_left hgap]
      have hsub := saturatingSub_eq ⟨hi.1, Int.le_of_lt hi.2⟩ hoffset.1
      have hsucc : saturatingAdd (saturatingSub i frame.stopOffset) 1 =
          min (saturatingSub i frame.stopOffset + 1) maxInt64 :=
        saturatingAdd_eq (by omega) (by decide)
      rw [hsub] at hsucc
      have hnegative : minInt64 < 0 := by decide
      simp only [frameEnd, UpToStop, hstop, hrows, if_true, offset_of_rows hrows, hsub, hsucc,
        signedOffset_preceding]
      omega
    | false =>
      have hranged := ranged_of_stop hrows (by rw [hstop]; rfl)
      have hkeys := hk.legal.single hranged
      simp only [frameEnd, UpToStop, StopGap, hstop, hrows, Bool.false_eq_true, if_false,
        hranged, Bool.true_and, decide_eq_true_eq, nonNullEnd_le_iff hs hkeys, frameOffset,
        if_true, signedOffset_preceding, true_and]
      cases hkey : batch.key i with
      | none =>
        simp only [if_true, Int.ofNat_lt]
        rw [hs.upTo_peers hsame]
        exact iff_of_true (orderLE_of_null hkeys hsame hkey).2 (.inl trivial)
      | some a =>
        simp only [reduceCtorEq, if_false, Int.ofNat_lt]
        rw [lt_search_strict_iff hs hkeys (hk.mono hranged) hsame]
        cases hkey' : batch.key j with
        | none => simp
        | some b => simpa using upTo_preceding hkey (hk.range i a hkey) (hk.range j b hkey') hoffset.1

theorem clamp_mem_iff {first last start stop x : Int} (hfirst : first ≤ x) (hlast : x < last) :
    clamp start first last ≤ x ∧ x < clamp stop (clamp start first last) last ↔
      start ≤ x ∧ x < stop := by
  simp only [clamp]
  split
  · split
    · omega
    · split <;> omega
  · split
    · split
      · omega
      · split <;> omega
    · split
      · omega
      · split <;> omega

theorem clamp_bounds {first last value : Int} (h : first ≤ last) :
    first ≤ clamp value first last ∧ clamp value first last ≤ last := by
  simp only [clamp]
  split
  · omega
  · split <;> omega

theorem mem_frameOf_iff (hk : Keyed frame batch integer) (hs : SegmentOf batch i s) (j : Nat) :
    ((frameOf frame batch keyType integer s i).1 ≤ j ∧
        (j : Int) < (frameOf frame batch keyType integer s i).2) ↔
      batch.samePartition i j = true ∧
        (FromStart frame batch keyType integer i j ∨ StartGap frame batch keyType integer i j) ∧
        (UpToStop frame batch keyType integer i j ∨ StopGap frame batch keyType integer i j) := by
  rw [frameOf]
  by_cases hsame : batch.samePartition i j = true
  · obtain ⟨_, _, -, hr, -⟩ := samePartition_iff.mp hsame
    have hpart := (hs.partition j (lt_of_row hr)).mpr hsame
    rw [clamp_mem_iff (by omega) (by omega), begin_le_iff hk hs hsame, lt_end_iff hk hs hsame,
      and_iff_right hsame]
  · -- the frame is kept inside the partition
    obtain ⟨hbegin, hfirst, hlast, hend⟩ := hs.inside
    have hstart := @clamp_bounds s.partitionBegin s.partitionEnd
      (frameBegin frame batch keyType integer s i) (by omega)
    have hstop := (@clamp_bounds _ s.partitionEnd
      (frameEnd frame batch keyType integer s i) hstart.2).2
    refine iff_of_false (fun hmem => hsame ?_) fun h => hsame h.1
    refine (hs.partition j ?_).mp ⟨?_, ?_⟩
    · have := hs.stop
      omega
    · omega
    · omega

end Bounds

/-! ## 6. Frames -/

section Frames

variable {frame : WindowFrameSpec} {batch : SortedBatch κ} {integer : κ → Int}

/-- Every row gets exactly the rows of its frame.  A frame is a range of positions, so this also
says that the rows of a frame stand together. -/
def FramesExact (frame : WindowFrameSpec) (batch : SortedBatch κ) (keyType : KeyType)
    (integer : κ → Int) : Prop :=
  (frames frame batch keyType integer).length = batch.rows.length ∧
    ∀ (i : Nat) (range : Int × Int), (frames frame batch keyType integer)[i]? = some range →
      ∀ j : Nat, (range.1 ≤ j ∧ (j : Int) < range.2) ↔ InFrame frame batch keyType integer i j

/-- A row of the same partition inside the other bound of the frame, whose key is the target of a
start FOLLOWING or an end PRECEDING but nearer than the offset. -/
def InGap (frame : WindowFrameSpec) (batch : SortedBatch κ) (keyType : KeyType)
    (integer : κ → Int) (i j : Nat) : Prop :=
  batch.samePartition i j = true ∧
    (StartGap frame batch keyType integer i j ∧ UpToStop frame batch keyType integer i j ∨
      StopGap frame batch keyType integer i j ∧ FromStart frame batch keyType integer i j)

theorem frames_at {i : Nat} {range : Int × Int} (keyType : KeyType)
    (h : (frames frame batch keyType integer)[i]? = some range) :
    ∃ s, SegmentOf batch i s ∧ range = frameOf frame batch keyType integer s i := by
  rw [frames, List.getElem?_map, List.getElem?_zipIdx] at h
  obtain ⟨⟨s, k⟩, hget, rfl⟩ := Option.map_eq_some_iff.mp h
  obtain ⟨s', hs', hpair⟩ := Option.map_eq_some_iff.mp hget
  obtain ⟨rfl, rfl⟩ := Prod.mk.inj hpair
  rw [Nat.zero_add]
  have hi : i < batch.rows.length := by
    rw [← length_segment batch]
    exact (List.getElem?_eq_some_iff.mp hs').1
  obtain ⟨t, ht, hspec⟩ := segment_spec hi
  obtain rfl := Option.some.inj (hs'.symm.trans ht)
  exact ⟨s', hspec, rfl⟩

theorem exists_frame (keyType : KeyType) {i : Nat} (hi : i < batch.rows.length) :
    ∃ range, (frames frame batch keyType integer)[i]? = some range := by
  obtain ⟨s, hs, -⟩ := segment_spec hi
  exact ⟨frameOf frame batch keyType integer s i, by
    rw [frames, List.getElem?_map, List.getElem?_zipIdx, hs, Nat.zero_add]
    rfl⟩

variable {keyType : KeyType}

theorem not_both_gaps (hlegal : frame.Legal batch.descending.length) {i j k : Nat}
    (hstart : StartGap frame batch keyType integer i j) :
    ¬ StopGap frame batch keyType integer i k := by
  intro hstop
  have hordered := hlegal.ordered
  rw [hstart.2.1, hstop.2.1] at hordered
  exact absurd hordered (by decide)

theorem not_fromStart_of_gap {i j : Nat} (h : StartGap frame batch keyType integer i j) :
    ¬ FromStart frame batch keyType integer i j := by
  obtain ⟨hrows, hstart, a, b, ha, hb, -, hnear⟩ := h
  simp only [FromStart, hrows, hstart, ha, hb, Bool.false_eq_true, if_false,
    signedOffset_following]
  exact Int.not_le.mpr hnear

theorem not_upToStop_of_gap {i j : Nat} (h : StopGap frame batch keyType integer i j) :
    ¬ UpToStop frame batch keyType integer i j := by
  obtain ⟨hrows, hstop, a, b, ha, hb, -, hnear⟩ := h
  simp only [UpToStop, hrows, hstop, ha, hb, Bool.false_eq_true, if_false,
    signedOffset_preceding]
  exact Int.not_le.mpr hnear

/-- **The frames are right exactly if no row is in a gap**, for every sorted batch, every legal
frame and every unit of the key.  A gap is between the target key as it is meant and as it is
computed: the division drops what is below the unit, and targets saturate. -/
theorem frames_exact_iff (frame : WindowFrameSpec) (batch : SortedBatch κ) (keyType : KeyType)
    (integer : κ → Int) (hk : Keyed frame batch integer) :
    FramesExact frame batch keyType integer ↔ ∀ i j, ¬ InGap frame batch keyType integer i j := by
  constructor
  · rintro ⟨-, hexact⟩ i j ⟨hsame, hgap⟩
    obtain ⟨_, _, hl, -, -⟩ := samePartition_iff.mp hsame
    obtain ⟨range, hrange⟩ := @exists_frame _ _ frame batch integer keyType i (lt_of_row hl)
    obtain ⟨s, hs, rfl⟩ := frames_at keyType hrange
    have hmem := (mem_frameOf_iff hk hs j).symm.trans (hexact i _ hrange j)
    rcases hgap with ⟨hstart, hstop⟩ | ⟨hstop, hstart⟩
    · have hin := hmem.mp ⟨hsame, .inr hstart, .inl hstop⟩
      exact not_fromStart_of_gap hstart hin.2.1
    · have hin := hmem.mp ⟨hsame, .inl hstart, .inr hstop⟩
      exact not_upToStop_of_gap hstop hin.2.2
  · intro hgap
    refine ⟨?_, fun i range hrange j => ?_⟩
    · rw [frames, List.length_map, List.length_zipIdx, length_segment]
    · obtain ⟨s, hs, rfl⟩ := frames_at keyType hrange
      rw [mem_frameOf_iff hk hs j, InFrame]
      refine and_congr_right fun hsame => ?_
      constructor
      · rintro ⟨hstart | hstart, hstop | hstop⟩
        · exact ⟨hstart, hstop⟩
        · exact absurd ⟨hsame, .inr ⟨hstop, hstart⟩⟩ (hgap i j)
        · exact absurd ⟨hsame, .inl ⟨hstart, hstop⟩⟩ (hgap i j)
        · exact absurd hstop (not_both_gaps hk.legal hstart)
      · exact fun h => ⟨.inl h.1, .inl h.2⟩

end Frames

/-- Two samples a second apart, and one without a time, in seconds. -/
def secondsRows : List (Row Int) := [⟨[], [some 10]⟩, ⟨[], [some 11]⟩, ⟨[], [none]⟩]

theorem secondsRows_partition : ∀ row ∈ secondsRows, row.partition.length = 0 := by decide

theorem secondsRows_order : ∀ row ∈ secondsRows, row.order.length = [false].length := by decide

theorem secondsRows_sorted :
    secondsRows.Pairwise fun lhs rhs => (compareRows [false] lhs rhs).isLE = true := by decide

theorem secondsRows_size : (secondsRows.length : Int) ≤ maxInt64 := by decide

def secondsBatch : SortedBatch Int where
  rows := secondsRows
  partitionKeys := 0
  descending := [false]
  partition_length := secondsRows_partition
  order_length := secondsRows_order
  sorted := secondsRows_sorted
  size := secondsRows_size

theorem secondsBatch_keyed {frame : WindowFrameSpec} (hlegal : frame.Legal 1) :
    Keyed frame secondsBatch id where
  legal := hlegal
  range row k h := by
    match row with
    | 0 => cases h; decide
    | 1 => cases h; decide
    | 2 => cases h
    | row + 3 => cases h
  mono _ _ _ h := h

/-- The rows of the last second and a half. -/
def lastFrame : WindowFrameSpec := ⟨false, .preceding, 1500000000, .currentRow, 0⟩

/-- The rows from a second and a half on. -/
def nextFrame : WindowFrameSpec := ⟨false, .following, 1500000000, .unboundedFollowing, 0⟩

/-- With a start PRECEDING the rounding is harmless: no row is in a gap. -/
theorem lastFrame_exact : FramesExact lastFrame secondsBatch (.timestamp .second) id :=
  (frames_exact_iff lastFrame secondsBatch (.timestamp .second) id
    (secondsBatch_keyed ⟨by decide, by decide, by decide, by decide, by decide, fun _ => rfl⟩)).mpr
      fun _ _ hgap => hgap.2.elim (fun h => absurd h.1.2.1 (by decide))
        fun h => absurd h.1.2.1 (by decide)

/-- **Not for every offset**: a second and a half is a second for a key in seconds, and the frame of
the first row has the row one second later. -/
theorem nextFrame_not_exact :
    ¬ FramesExact nextFrame secondsBatch (.timestamp .second) id := by
  intro h
  have hin := (h.2 0 (1, 3) (by decide) 1).mp ⟨by decide, by decide⟩
  have hfar : (1500000000 : Int) ≤ 1000000000 := hin.2.1
  exact absurd hfar (by decide)

end MldpDriver.Query.Window
