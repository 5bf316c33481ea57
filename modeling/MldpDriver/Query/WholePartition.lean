/-
# MIN and MAX over a whole partition

A window call with the frame UNBOUNDED PRECEDING to UNBOUNDED FOLLOWING gives all rows of a
partition the same value.  The rows are given as the column stores them (`Stored`); `Stored.read`
is what the code compares, and the chosen row is taken from the column.  -/
import MldpDriver.Query.SlidingAggregates

namespace MldpDriver.Query.Window

open List
open Aggregate (Value ValueLib ArrowType IntegerStorage)
open Lib.BestOf
open Lib.MonotoneDeque

variable {D X : Type} {lib : ValueLib D X}

/-! ## 1. Columns -/

/-- A value as a column stores it; a union holds values of any kind. -/
inductive Stored (D X : Type)
  | nul
  | int (integer : Int)
  | uint64 (integer : Nat)
  | double (real : D)
  | bool (boolean : Bool)
  | string (text : List UInt8)
  | other (value : X)

/-- `ColumnReader::at` -/
def Stored.read : Stored D X → Value D X
  | .nul => .nul
  | .int n => .int n
  | .uint64 n => .int ((n : Int).bmod (2 ^ 64))
  | .double d => .double d
  | .bool b => .bool b
  | .string text => .string text
  | .other x => .other x

/-- The slot of a column that holds the value. -/
def Stored.cell : Stored D X → Aggregate.Cell D X
  | .nul => .null
  | .int n => .int n
  | .uint64 n => .int n
  | .double d => .real d
  | .bool b => .bool b
  | .string text => .text text
  | .other x => .other x

def Stored.isNull : Stored D X → Bool
  | .nul => true
  | _ => false

/-- The 64 bits of an integer. -/
def Stored.InRange : Stored D X → Prop
  | .int n => -2 ^ 63 ≤ n ∧ n < 2 ^ 63
  | .uint64 n => n < 2 ^ 64
  | _ => True

/-- The values that a column of a type can store. -/
def Fits (lib : ValueLib D X) : ArrowType → Stored D X → Prop
  | _, .nul => True
  | .union, _ => True
  | .integer .uint64 _, .uint64 _ => True
  | .integer storage _, .int n => storage ≠ .uint64 ∧ storage.holds n = true
  | .float, .double d => lib.toFloat d = d
  | .double, .double _ => True
  | .bool, .bool _ => True
  | .string, .string _ => True
  | .binary, .string _ => True
  | .largeString, .string _ => True
  | .largeBinary, .string _ => True
  | .other _, .other _ => True
  | _, _ => False

/-- A partition: rows of one column. -/
structure Partition (lib : ValueLib D X) where
  type : ArrowType
  rows : List (Stored D X)
  fits : ∀ s ∈ rows, Fits lib type s ∧ s.InRange

def Partition.values (p : Partition lib) : List (Value D X) := p.rows.map Stored.read

/-- The aggregates that windows and GROUP BY share; `countAll` is COUNT(*). -/
inductive SharedAggregate
  | countAll
  | count
  | sum
  | choice (minimum : Bool)

/-! ## 2. The window call -/

/-- UNBOUNDED PRECEDING to UNBOUNDED FOLLOWING. -/
def wholeFrame (size : Nat) : FrameRow := ⟨0, 0, size, Nat.le_refl 0, Nat.zero_le size⟩

def wholeFrames (size : Nat) : List FrameRow := List.replicate size (wholeFrame size)

/-- `integerType`: plain integers and the `timed` logical types (timestamps, durations). -/
def integerType (timed : Nat → Bool) : ArrowType → Bool
  | .na => true
  | .integer _ logical => logical == 0 || timed logical
  | _ => false

theorem argument_typed (timed : Nat → Bool) (p : Partition lib) :
    integerType timed p.type = true → ∀ v ∈ p.values, v.isNull = true ∨ v.isInt = true := by
  intro hinteger v hv
  obtain ⟨s, hs, rfl⟩ := mem_map.mp hv
  have hfits := (p.fits s hs).1
  cases htype : p.type <;> rw [htype] at hinteger hfits <;> try cases hinteger
  all_goals cases s <;> first | exact .inl rfl | exact .inr rfl | cases hfits

/-- The argument column of a window call. -/
def Partition.argument (timed : Nat → Bool) (p : Partition lib) : Argument D X :=
  ⟨integerType timed p.type, p.values, argument_typed timed p⟩

/-- The value that `take` gives for a chosen row. -/
def takenCell (rows : List (Stored D X)) (row : Option Nat) : Aggregate.Cell D X :=
  ((row.bind fun r => rows[r]?).map Stored.cell).getD .null

/-- The column of the window call over the whole partition; `none` says that it throws. -/
def windowColumn (timed : Nat → Bool) (scale : Int → D → D) (f : SharedAggregate)
    (p : Partition lib) : Option (List (Aggregate.Cell D X)) :=
  let frames := wholeFrames p.rows.length
  match f with
  | .countAll => slidingSum lib scale .count none frames
  | .count => slidingSum lib scale .count (some (p.argument timed)) frames
  | .sum => slidingSum lib scale .sum (some (p.argument timed)) frames
  | .choice minimum =>
    (chosenRows lib minimum p.values frames).map fun chosen => chosen.map (takenCell p.rows)

/-! ## 3. The window over a partition -/

section Whole

variable {σ β : Type} {reset : Nat → σ} {advance : σ → FrameRow → Option σ} {emit : σ → β}

theorem slide_fixed {row : Nat} {s : σ} {f : FrameRow} {n : Nat} (hrow : f.partitionBegin < row)
    (hfixed : advance s f = some s) :
    slide reset advance emit row s (List.replicate n f) = some (List.replicate n (emit s)) := by
  induction n generalizing row with
  | zero => rfl
  | succ n ih =>
    rw [replicate_succ, slide, if_neg (Nat.ne_of_gt hrow), hfixed]
    simp only [ih (Nat.lt_succ_of_lt hrow), Option.map_some]
    rfl

theorem monotone_wholeFrames (size : Nat) : MonotoneFrames (wholeFrames size) := by
  have hrest : ∀ n row, MonotoneFrom row (some (wholeFrame size))
      (List.replicate n (wholeFrame size)) := by
    intro n
    induction n with
    | zero => exact fun _ => trivial
    | succ n ih =>
      intro row
      exact ⟨.inr ⟨_, rfl, rfl, Nat.le_refl _, Nat.le_refl _⟩, ih (row + 1)⟩
  rw [MonotoneFrames, wholeFrames]
  cases h : size with
  | zero => trivial
  | succ n => exact ⟨.inl rfl, h ▸ hrest n 1⟩

end Whole

/-- The rows of the partition that are candidates, in their order. -/
def candidateRows (values : List (Value D X)) : List Nat := present values 0 values.length

theorem rdropWhile_none (rows : List Nat) :
    (rows.rdropWhile fun row => decide (row < 0)) = rows := by
  rw [rdropWhile_eq_self_iff]
  intro h
  simp

theorem chosenRows_whole (minimum : Bool) (values : List (Value D X)) (hne : values ≠ []) :
    chosenRows lib minimum values (wholeFrames values.length) =
      (settleAll (keepsRow lib minimum values) (candidateRows values) []).map fun candidates =>
        List.replicate values.length candidates.getLast? := by
  obtain ⟨n, hn⟩ : ∃ n, values.length = n + 1 :=
    ⟨_, (Nat.succ_pred_eq_of_pos (length_pos_iff.mpr hne)).symm⟩
  have hfirst : advanceChoice lib minimum values ⟨0, []⟩ (wholeFrame values.length) =
      (settleAll (keepsRow lib minimum values) (candidateRows values) []).map fun candidates =>
        ⟨values.length, candidates⟩ := by
    rw [advanceChoice, foldlM_enterRow]
    change Option.map _ (settleAll (keepsRow lib minimum values) (candidateRows values) []) = _
    refine congrArg (fun f => Option.map f _) (funext fun candidates => ?_)
    exact congrArg₂ ChoiceState.mk (Nat.zero_max _) (rdropWhile_none candidates)
  have hfixed : ∀ candidates : List Nat,
      advanceChoice lib minimum values ⟨values.length, candidates⟩ (wholeFrame values.length) =
        some ⟨values.length, candidates⟩ := by
    intro candidates
    have hnone : between values.length (wholeFrame values.length).stop = [] := between_self _
    rw [advanceChoice, hnone]
    exact congrArg some
      (congrArg₂ ChoiceState.mk (Nat.max_self _) (rdropWhile_none candidates))
  rw [chosenRows]
  have hframes : wholeFrames values.length =
      wholeFrame values.length :: List.replicate n (wholeFrame values.length) := by
    rw [wholeFrames]
    exact congrArg (fun m => List.replicate m (wholeFrame values.length)) hn
  have hbegin : 0 = (wholeFrame values.length).partitionBegin := rfl
  rw [hframes, slide, if_pos hbegin, hfirst]
  cases settleAll (keepsRow lib minimum values) (candidateRows values) [] with
  | none => rfl
  | some candidates =>
    simp only [Option.map_some]
    rw [slide_fixed (Nat.zero_lt_one) (hfixed candidates), Option.map_some, hn]
    rfl

/-! ## 4. What a window chooses

`windowColumn_choice`: every row has the value at the front of the deque of all values.

`windowColumn_scalars`: of scalars this is the last of the best. -/

section Stored

variable {minimum : Bool} {rows : List (Stored D X)}

def keepsStored (lib : ValueLib D X) (minimum : Bool) (a b : Stored D X) : Option Bool :=
  keepsValue lib minimum a.read b.read

def storedAt (rows : List (Stored D X)) (row : Nat) : Stored D X := rows[row]?.getD .nul

theorem isNull_read (s : Stored D X) : s.read.isNull = s.isNull := by
  cases s <;> rfl

theorem valueAt_read (row : Nat) :
    valueAt (rows.map Stored.read) row = (storedAt rows row).read := by
  rw [valueAt, storedAt, List.getElem?_map]
  cases rows[row]? <;> rfl

theorem keepsRow_read : keepsRow lib minimum (rows.map Stored.read) =
    fun i j => keepsStored lib minimum (storedAt rows i) (storedAt rows j) := by
  funext i j
  rw [keepsRow, valueAt_read, valueAt_read]
  rfl

theorem map_storedAt (rows : List (Stored D X)) :
    (List.range rows.length).map (storedAt rows) = rows := by
  refine ext_getElem (by simp) fun i h _ => ?_
  have hi : i < rows.length := by simpa using h
  simp [storedAt, hi]

def nonNull (rows : List (Stored D X)) : List (Stored D X) :=
  rows.filter fun s => !s.isNull

theorem candidateRows_map (rows : List (Stored D X)) :
    (candidateRows (rows.map Stored.read)).map (storedAt rows) = nonNull rows := by
  have hpred : (fun row => !(valueAt (rows.map Stored.read) row).isNull) =
      (fun s : Stored D X => !s.isNull) ∘ storedAt rows := by
    funext row
    rw [valueAt_read, isNull_read]
    rfl
  have hbetween : between 0 (rows.map Stored.read).length = List.range rows.length := by
    rw [between, length_map, Nat.sub_zero, range_eq_range']
  rw [candidateRows, present, hpred, ← filter_map, hbetween, map_storedAt]
  rfl

theorem takenCell_eq (row : Option Nat) :
    takenCell rows row = ((row.map (storedAt rows)).getD .nul).cell := by
  cases row with
  | none => rfl
  | some r =>
    rw [takenCell, Option.bind_some, Option.map_some, Option.getD_some, storedAt]
    cases rows[r]? <;> rfl

/-- **The window over a partition**: every row has the value at the front of the deque of all
values. -/
theorem windowColumn_choice (timed : Nat → Bool) (scale : Int → D → D) (p : Partition lib) :
    windowColumn timed scale (.choice minimum) p =
      (settleAll (keepsStored lib minimum) (nonNull p.rows) []).map fun candidates =>
        List.replicate p.rows.length (candidates.getLast?.getD .nul).cell := by
  change (chosenRows lib minimum p.values (wholeFrames p.rows.length)).map _ = _
  by_cases hne : p.rows = []
  · rw [Partition.values, hne]
    rfl
  · have hlength : p.rows.length = p.values.length := (length_map _).symm
    have hvalues : p.values ≠ [] := by
      rw [Partition.values]
      simpa using hne
    have hmap : settleAll (keepsStored lib minimum) (nonNull p.rows) [] =
        (settleAll (keepsRow lib minimum p.values) (candidateRows p.values) []).map
          (List.map (storedAt p.rows)) := by
      rw [Partition.values, keepsRow_read, ← settleAll_map, candidateRows_map]
      rfl
    rw [hlength, chosenRows_whole minimum _ hvalues, Option.map_map, hmap, Option.map_map]
    refine congrArg (fun f => Option.map f _) (funext fun candidates => ?_)
    rw [Function.comp_apply, Function.comp_apply, map_replicate, takenCell_eq,
      List.getLast?_map]

theorem mem_nonNull {s : Stored D X} : s ∈ nonNull rows ↔ s ∈ rows ∧ s.read.isNull = false := by
  rw [nonNull, mem_filter, isNull_read, Bool.not_eq_true']

theorem keepsStored_eq (hlib : OrderedDoubles lib) {a b : Stored D X}
    (hb : b.read.isNull = false) (hao : a.read.isOther = false) (hbo : b.read.isOther = false) :
    keepsStored lib minimum a b = some (outranks lib minimum a.read b.read) := by
  rw [keepsStored, keepsValue_eq hlib (.inr hb), hao, hbo]
  rfl

variable {p : Partition lib}

theorem windowColumn_scalars (hlib : OrderedDoubles lib) (timed : Nat → Bool) (scale : Int → D → D)
    {x : Stored D X} {xs : List (Stored D X)} (hrows : nonNull p.rows = x :: xs)
    (hscalars : ∀ s ∈ x :: xs, s.read.isOther = false) :
    windowColumn timed scale (.choice minimum) p =
      some (List.replicate p.rows.length
        (lastBest (fun a b => outranks lib minimum a.read b.read) x xs).cell) := by
  have hkeeps : ∀ a ∈ x :: xs, ∀ b ∈ x :: xs,
      keepsStored lib minimum a b = some (outranks lib minimum a.read b.read) := by
    intro a ha b hb
    have hnull := (mem_nonNull.mp (hrows ▸ hb)).2
    exact keepsStored_eq hlib hnull (hscalars a ha) (hscalars b hb)
  obtain ⟨candidates, hcandidates⟩ := @exists_settleAll _ (keepsStored lib minimum) (x :: xs) []
    fun a ha b hb => by rw [hkeeps a ha b hb]; exact Option.some_ne_none _
  have hscan := scan_of_settleAll
    (fun a b c => keepsValue_trans hlib minimum a.read b.read c.read) hcandidates
  rw [scan_lastBest hkeeps] at hscan
  rw [windowColumn_choice, hrows, hcandidates, Option.map_some, ← Option.some.inj hscan]
  rfl

theorem windowColumn_single (timed : Nat → Bool) (scale : Int → D → D) {x : Stored D X}
    (hrows : nonNull p.rows = [x]) :
    windowColumn timed scale (.choice minimum) p =
      some (List.replicate p.rows.length x.cell) := by
  rw [windowColumn_choice, hrows]
  rfl

theorem windowColumn_nulls (timed : Nat → Bool) (scale : Int → D → D) (hrows : nonNull p.rows =
    []) :
    windowColumn timed scale (.choice minimum) p =
      some (List.replicate p.rows.length .null) := by
  rw [windowColumn_choice, hrows]
  rfl

theorem keepsStored_other {a b : Stored D X}
    (h : a.read.isOther = true ∨ b.read.isOther = true) : keepsStored lib minimum a b = none := by
  rw [keepsStored, keepsValue, compareRefs_other h, Option.map_none]

theorem exists_neighbour {α : Type} {xs : List α} {x : α} (hx : x ∈ xs) (hlength : 2 ≤ xs.length) :
    ∃ old a b new, xs = old ++ a :: b :: new ∧ (a = x ∨ b = x) := by
  obtain ⟨old, new, rfl⟩ := append_of_mem hx
  cases new with
  | cons b new => exact ⟨old, x, b, new, rfl, .inl rfl⟩
  | nil =>
    rcases eq_nil_or_concat old with rfl | ⟨old, a, rfl⟩
    · exact absurd hlength (Nat.not_le.mpr Nat.one_lt_two)
    · exact ⟨old, a, x, [], by simp, .inr rfl⟩

theorem windowColumn_refused (timed : Nat → Bool) (scale : Int → D → D)
    (hlength : 2 ≤ (nonNull p.rows).length) {s : Stored D X} (hs : s ∈ nonNull p.rows)
    (hother : s.read.isOther = true) : windowColumn timed scale (.choice minimum) p = none := by
  obtain ⟨old, a, b, new, hrows, hs⟩ := exists_neighbour hs hlength
  rw [windowColumn_choice, Option.map_eq_none_iff, hrows, Option.eq_none_iff_forall_ne_some]
  intro r hr
  refine keeps_of_settleAll hr (keepsStored_other ?_)
  rcases hs with rfl | rfl
  · exact .inl hother
  · exact .inr hother

end Stored

end MldpDriver.Query.Window
