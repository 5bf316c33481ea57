/-
# The sliding aggregates

Window calls of COUNT, SUM, AVG, MIN and MAX go over the rows of a sorted batch once and carry their
state from frame to frame: a running sum that adds the rows entering a frame and subtracts the rows
leaving it (`slidingSum`), and a deque of the rows that may still be chosen (`slidingChoice`).  Both
start afresh at the first row of a partition and rely on frames that never move back inside one
(`MonotoneFrames`).  Sums are kept in `int64_t` and wrap.
-/
import Mathlib.Algebra.Group.Int.Defs
import Mathlib.Algebra.Group.Nat.Defs
import Mathlib.Data.List.Forall2
import MldpDriver.Lib.MonotoneDeque
import MldpDriver.Query.WindowValues

namespace MldpDriver.Query.Window

open List
open Aggregate (Value ValueLib)
open Lib (Binary64)
open Lib.BestOf Lib.MonotoneDeque

variable {D X : Type} {lib : ValueLib D X}

/-! ## 1. The loops -/

/-- What the loops read for a row: where its partition begins, and its frame in the partition. -/
structure FrameRow where
  partitionBegin : Nat
  start : Nat
  stop : Nat
  inside : partitionBegin ≤ start ∧ start ≤ stop

/-- The rows from `low` on before `high`. -/
def between (low high : Nat) : List Nat := List.range' low (high - low)

/-- The frame does not go back behind the frame `p` of the row before. -/
def FrameRow.Follows (f p : FrameRow) : Prop :=
  f.partitionBegin = p.partitionBegin ∧ p.start ≤ f.start ∧ p.stop ≤ f.stop

/-- From `row` on, each row begins a partition or has a frame that follows the one before. -/
def MonotoneFrom : Nat → Option FrameRow → List FrameRow → Prop
  | _, _, [] => True
  | row, previous, f :: rest =>
    (f.partitionBegin = row ∨ ∃ p, previous = some p ∧ f.Follows p) ∧
      MonotoneFrom (row + 1) (some f) rest

/-- Frames that never move back inside a partition. -/
def MonotoneFrames (frames : List FrameRow) : Prop := MonotoneFrom 0 none frames

section Loop

variable {σ β : Type}

/-- Row after row the state is reset at the begin of a partition, moved on to the frame and read. -/
def slide (reset : Nat → σ) (advance : σ → FrameRow → Option σ) (emit : σ → β) :
    Nat → σ → List FrameRow → Option (List β)
  | _, _, [] => some []
  | row, state, f :: rest =>
    match advance (if row = f.partitionBegin then reset row else state) f with
    | none => none
    | some next => (slide reset advance emit (row + 1) next rest).map (emit next :: ·)

end Loop

/-- COUNT, SUM and AVG. -/
inductive SumFunction
  | count
  | sum
  | avg
  deriving DecidableEq

/-- An argument column; `integer` says that its type is stored in integers (`integerType`). -/
structure Argument (D X : Type) where
  integer : Bool
  values : List (Value D X)
  typed : integer = true → ∀ v ∈ values, v.isNull = true ∨ v.isInt = true

def valueAt (values : List (Value D X)) (row : Nat) : Value D X :=
  values[row]?.getD .nul

/-- `low` and `high` bound the rows that are in the sums. -/
structure SumState (D : Type) where
  low : Nat
  high : Nat
  integerSum : Int
  doubleSum : D
  values : Int

section Sum

variable (lib : ValueLib D X) (scale : Int → D → D) (function : SumFunction)
  (argument : Option (Argument D X))

/-- `apply`: a row enters with the sign 1 and leaves with the sign -1; `scale` is the product of a
sign and a double. -/
def applyRow (sign : Int) (s : SumState D) (row : Nat) : Option (SumState D) :=
  match argument with
  | none => some { s with values := s.values + sign }
  | some argument =>
    let value := valueAt argument.values row
    if value.isNull then some s
    else if function = .count then some { s with values := s.values + sign }
    else
      match value, value.asDouble lib with
      | .int n, some real => some { s with
          values := s.values + sign
          integerSum := (s.integerSum + sign * n).bmod (2 ^ 64)
          doubleSum := lib.add s.doubleSum (scale sign real) }
      | _, some real => some { s with
          values := s.values + sign
          doubleSum := lib.add s.doubleSum (scale sign real) }
      | _, none => none

def resetSum (row : Nat) : SumState D := ⟨row, row, 0, lib.zero, 0⟩

/-- Rows up to the end of the frame enter, rows before its start leave. -/
def advanceSum (s : SumState D) (f : FrameRow) : Option (SumState D) :=
  ((between s.high f.stop).foldlM (applyRow lib scale function argument 1) s).bind fun entered =>
    ((between s.low f.start).foldlM (applyRow lib scale function argument (-1)) entered).map
      fun left => { left with low := max s.low f.start, high := max s.high f.stop }

/-- The slot of a COUNT, SUM or AVG. -/
def emitSum (s : SumState D) : Aggregate.Cell D X :=
  let integer := argument.all Argument.integer
  if function = .count then .int s.values
  else if s.values = 0 then .null
  else if function = .avg then
    .real (lib.divNat (if integer then lib.ofInt s.integerSum else s.doubleSum) s.values.toNat)
  else if integer then .int s.integerSum
  else .real s.doubleSum

def slidingSum (frames : List FrameRow) : Option (List (Aggregate.Cell D X)) :=
  slide (resetSum lib) (advanceSum lib scale function argument) (emitSum lib function argument) 0
    (resetSum lib 0) frames

end Sum

/-- The candidates stand with the back of the deque first. -/
structure ChoiceState where
  high : Nat
  candidates : List Nat

section Choice

variable (lib : ValueLib D X) (minimum : Bool) (values : List (Value D X))

/-- Is the value of the earlier row better? -/
def keepsRow (earlier later : Nat) : Option Bool :=
  keepsValue lib minimum (valueAt values earlier) (valueAt values later)

/-- A row enters; nulls are never candidates. -/
def enterRow (candidates : List Nat) (row : Nat) : Option (List Nat) :=
  if (valueAt values row).isNull then some candidates
  else settle (keepsRow lib minimum values) row candidates

def advanceChoice (s : ChoiceState) (f : FrameRow) : Option ChoiceState :=
  ((between s.high f.stop).foldlM (enterRow lib minimum values) s.candidates).map fun candidates =>
    ⟨max s.high f.stop, candidates.rdropWhile fun row => decide (row < f.start)⟩

/-- The row that each frame chooses, if it has a candidate; `none` says that it throws. -/
def chosenRows (frames : List FrameRow) : Option (List (Option Nat)) :=
  slide (fun row => ⟨row, []⟩) (advanceChoice lib minimum values)
    (fun s => s.candidates.getLast?) 0 ⟨0, []⟩ frames

/-- `take`: the values of the chosen rows; without a row, null. -/
def take (chosen : List (Option Nat)) : List (Value D X) :=
  chosen.map fun row => (row.map (valueAt values)).getD .nul

/-- MIN (`minimum`) or MAX. -/
def slidingChoice (frames : List FrameRow) : Option (List (Value D X)) :=
  (chosenRows lib minimum values frames).map (take values)

end Choice

/-! ## 2. One frame from scratch

Beside them stands what a frame alone says: `recomputeSum`, and for MIN and MAX what it is to be the
least or the greatest of its values (`IsChoice`).  The deque keeps an older value only while it is
better than the newer one.  A NaN is neither better nor worse than a number, so it takes the place
of the least value, and the value behind it takes its place in turn. -/

section Recompute

variable (lib : ValueLib D X)

/-- Without an argument every row counts. -/
def counts (argument : Option (Argument D X)) (row : Nat) : Bool :=
  match argument with
  | none => true
  | some argument => !(valueAt argument.values row).isNull

def integerAt (argument : Option (Argument D X)) (row : Nat) : Int :=
  match argument with
  | none => 0
  | some argument =>
    match valueAt argument.values row with
    | .int n => n
    | _ => 0

/-- COUNT, SUM and AVG of the integers of a frame. -/
def recomputeSum (function : SumFunction) (argument : Option (Argument D X)) (f : FrameRow) :
    Aggregate.Cell D X :=
  let count := (between f.start f.stop).countP (counts argument)
  let total := ((between f.start f.stop).map (integerAt argument)).sum.bmod (2 ^ 64)
  match function with
  | .count => .int count
  | .sum => if count = 0 then .null else .int total
  | .avg => if count = 0 then .null else .real (lib.divNat (lib.ofInt total) count)

end Recompute

/-- The values of the rows from `low` on before `high`, without nulls. -/
def valuesBetween (values : List (Value D X)) (low high : Nat) : List (Value D X) :=
  ((between low high).map (valueAt values)).filter fun v => !v.isNull

def frameValues (values : List (Value D X)) (f : FrameRow) : List (Value D X) :=
  valuesBetween values f.start f.stop

def isNumber : Value D X → Bool
  | .int _ | .double _ => true
  | _ => false

/-- A double that no double is below or above. -/
def IsNaN (lib : ValueLib D X) : Value D X → Prop
  | .double d => ∀ e, lib.lt d e = false ∧ lib.lt e d = false
  | _ => False

/-- One of the least (`minimum`) or greatest values.  A NaN is the least number only of NaNs. -/
structure Chosen (lib : ValueLib D X) (minimum : Bool) (vals : List (Value D X)) (v : Value D X) :
    Prop where
  mem : v ∈ vals
  unbeaten : ∀ w ∈ vals, outranks lib minimum w v = false
  number : IsNaN lib v → ∀ w ∈ vals, isNumber w = true → IsNaN lib w

/-- **MIN or MAX of the non-null values of a frame**: null if there are none. -/
def IsChoice (lib : ValueLib D X) (minimum : Bool) (vals : List (Value D X)) (v : Value D X) :
    Prop :=
  vals = [] ∧ v = .nul ∨ Chosen lib minimum vals v

/-! ### What the deque needs -/

/-- One of the least values is better than every value behind it. -/
def LastStays (lib : ValueLib D X) (minimum : Bool) (vals : List (Value D X)) : Prop :=
  vals = [] ∨ ∃ front v back, vals = front ++ v :: back ∧ Chosen lib minimum vals v ∧
    ∀ w ∈ back, outranks lib minimum v w = true

/-- `compareRefs` compares the values: there are not two, or none is a list or a struct. -/
def Compared (vals : List (Value D X)) : Prop :=
  vals.length ≤ 1 ∨ ∀ v ∈ vals, v.isOther = false

/-- Each frame with the first row that may be in the deque when its rows enter: the start of the
frame before, or the row itself where it begins a partition. -/
def fromPrevious : Nat → Nat → List FrameRow → List (Nat × FrameRow)
  | _, _, [] => []
  | row, low, f :: rest =>
    (if row = f.partitionBegin then row else low, f) :: fromPrevious (row + 1) f.start rest

/-- A frame of a MIN or a MAX that comes out right.  The deque drops a value unless it is better
than the one that enters, so a least value that is not better than all behind it is lost;
`compared` keeps lists and structs, whose comparison throws, from meeting another value. -/
structure LeastStays (lib : ValueLib D X) (minimum : Bool) (values : List (Value D X))
    (frames : List FrameRow) : Prop where
  compared : ∀ e ∈ fromPrevious 0 0 frames, Compared (valuesBetween values e.1 e.2.stop)
  stays : ∀ f ∈ frames, LastStays lib minimum (frameValues values f)

/-! ## 3. Runs of the loops -/

variable {frames : List FrameRow}

section Run

variable {σ β : Type} {reset : Nat → σ} {advance : σ → FrameRow → Option σ} {emit : σ → β}

/-- **What holds of the rows in the state at each frame decides the output.** -/
theorem slide_run {Holds : Nat → Nat → σ → Prop} {spec : FrameRow → Option β}
    (hreset : ∀ row, Holds row row (reset row))
    (hadvance : ∀ {low high : Nat} {s s' : σ} {f : FrameRow}, low ≤ high → low ≤ f.start →
      high ≤ f.stop → Holds low high s → advance s f = some s' → Holds f.start f.stop s')
    (hemit : ∀ {f : FrameRow} {s : σ}, Holds f.start f.stop s → spec f = some (emit s)) {row : Nat}
    {previous : Option FrameRow} {s : σ} {out : List β}
    (hs : ∀ p, previous = some p → Holds p.start p.stop s)
    (hmono : MonotoneFrom row previous frames)
    (h : slide reset advance emit row s frames = some out) : frames.mapM spec = some out := by
  induction frames generalizing row previous s out with
  | nil =>
    obtain rfl := Option.some.inj h
    rfl
  | cons f rest ih =>
    obtain ⟨hfollows, hrest⟩ := hmono
    rw [slide] at h
    split at h
    · cases h
    rename_i next hnext
    obtain ⟨tail, htail, rfl⟩ := Option.map_eq_some_iff.mp h
    have hholds : Holds f.start f.stop next := by
      split at hnext
      · rename_i hrow
        have hinside := f.inside
        exact hadvance (Nat.le_refl row) (by omega) (by omega) (hreset row) hnext
      · rename_i hrow
        rcases hfollows with hbegin | ⟨p, hp, -, hstart, hstop⟩
        · exact absurd hbegin.symm hrow
        · exact hadvance p.inside.2 hstart hstop (hs p hp) hnext
    have htailSpec := ih (fun p hp => Option.some.inj hp ▸ hholds) hrest htail
    rw [mapM_cons, hemit hholds, htailSpec]
    rfl

theorem slide_map {γ : Type} (g : β → γ) {row : Nat} {s : σ} :
    slide reset advance (fun s => g (emit s)) row s frames =
      (slide reset advance emit row s frames).map (List.map g) := by
  induction frames generalizing row s with
  | nil => rfl
  | cons f rest ih =>
    rw [slide, slide]
    cases advance (if row = f.partitionBegin then reset row else s) f with
    | none => rfl
    | some next =>
      simp only [ih, Option.map_map]
      rfl

theorem slide_total (hadvance : ∀ s f, ∃ s', advance s f = some s') {row : Nat} {s : σ} :
    ∃ out, slide reset advance emit row s frames = some out := by
  induction frames generalizing row s with
  | nil => exact ⟨[], rfl⟩
  | cons f rest ih =>
    obtain ⟨next, hnext⟩ := hadvance (if row = f.partitionBegin then reset row else s) f
    obtain ⟨tail, htail⟩ := @ih (row + 1) next
    exact ⟨emit next :: tail, by simp only [slide, hnext, htail, Option.map_some]⟩

/-- The loop throws where a step does, and a step throws for the rows it sees. -/
theorem slide_some_iff {Holds : Nat → Nat → σ → Prop} {Ready : Nat → FrameRow → Prop}
    (hreset : ∀ row, Holds row row (reset row))
    (hadvance : ∀ {low high : Nat} {s s' : σ} {f : FrameRow}, low ≤ high → low ≤ f.start →
      high ≤ f.stop → Holds low high s → advance s f = some s' → Holds f.start f.stop s')
    (hready : ∀ {low high : Nat} {s : σ} {f : FrameRow}, low ≤ high → high ≤ f.stop →
      Holds low high s → ((∃ s', advance s f = some s') ↔ Ready low f)) {row low : Nat}
    {previous : Option FrameRow} {s : σ}
    (hs : ∀ p, previous = some p → p.start = low ∧ Holds p.start p.stop s)
    (hmono : MonotoneFrom row previous frames) :
    (∃ out, slide reset advance emit row s frames = some out) ↔
      ∀ e ∈ fromPrevious row low frames, Ready e.1 e.2 := by
  induction frames generalizing row low previous s with
  | nil => exact iff_of_true ⟨[], rfl⟩ (forall_mem_nil _)
  | cons f rest ih =>
    obtain ⟨hfollows, hrest⟩ := hmono
    obtain ⟨high, hhigh, hlow, hstop, hholds⟩ : ∃ high,
        (if row = f.partitionBegin then row else low) ≤ high ∧
          (if row = f.partitionBegin then row else low) ≤ f.start ∧ high ≤ f.stop ∧
          Holds (if row = f.partitionBegin then row else low) high
            (if row = f.partitionBegin then reset row else s) := by
      have hinside := f.inside
      split
      · exact ⟨row, Nat.le_refl _, by omega, by omega, hreset row⟩
      · rename_i hrow
        rcases hfollows with hbegin | ⟨p, hp, -, hstart, hstop⟩
        · exact absurd hbegin.symm hrow
        · obtain ⟨rfl, hholds⟩ := hs p hp
          exact ⟨p.stop, p.inside.2, hstart, hstop, hholds⟩
    have hcarried : ∀ {next}, advance (if row = f.partitionBegin then reset row else s) f =
        some next → ∀ p, some f = some p → p.start = f.start ∧ Holds p.start p.stop next := by
      intro next hnext p hp
      obtain rfl := Option.some.inj hp
      exact ⟨rfl, hadvance hhigh hlow hstop hholds hnext⟩
    rw [fromPrevious, forall_mem_cons, ← hready hhigh hstop hholds]
    constructor
    · rintro ⟨out, hout⟩
      rw [slide] at hout
      split at hout
      · cases hout
      rename_i next hnext
      obtain ⟨tail, htail, -⟩ := Option.map_eq_some_iff.mp hout
      exact ⟨⟨next, hnext⟩, (ih (hcarried hnext) hrest).mp ⟨tail, htail⟩⟩
    · rintro ⟨⟨next, hnext⟩, hall⟩
      obtain ⟨tail, htail⟩ := (ih (hcarried hnext) hrest).mpr hall
      exact ⟨emit next :: tail, by simp only [slide, hnext, htail, Option.map_some]⟩

end Run

theorem between_append {low mid high : Nat} (hlow : low ≤ mid) (hhigh : mid ≤ high) :
    between low mid ++ between mid high = between low high := by
  have hmid : low + (mid - low) = mid := by omega
  have hlength : mid - low + (high - mid) = high - low := by omega
  have happend := @range'_append_1 low (mid - low) (high - mid)
  rwa [hmid, hlength] at happend

theorem mem_between {low high row : Nat} : row ∈ between low high ↔ low ≤ row ∧ row < high := by
  rw [between, mem_range'_1]
  omega

theorem between_self (row : Nat) : between row row = [] := by
  rw [between, Nat.sub_self]
  rfl

/-! ## 4. Running sums -/

section Sums

variable {scale : Int → D → D} {function : SumFunction} {argument : Option (Argument D X)}

/-- The calls over integers: COUNT of any column, SUM and AVG of a column of integers. -/
def OverIntegers (function : SumFunction) (argument : Option (Argument D X)) : Prop :=
  function = .count ∨ argument.all Argument.integer = true

theorem valueAt_typed {argument : Argument D X} (h : argument.integer = true) (row : Nat) :
    valueAt argument.values row = .nul ∨ ∃ n, valueAt argument.values row = .int n := by
  rw [valueAt]
  cases hv : argument.values[row]? with
  | none => exact .inl rfl
  | some v =>
    rcases argument.typed h v (mem_of_getElem? hv) with hnull | hint
    · exact .inl (eq_nul hnull)
    · cases v with
      | int n => exact .inr ⟨n, rfl⟩
      | _ => cases hint

/-- Rows went in or out with a sign: what they change. -/
structure Changed (function : SumFunction) (argument : Option (Argument D X)) (sign : Int)
    (rows : List Nat) (s s' : SumState D) : Prop where
  low : s'.low = s.low
  high : s'.high = s.high
  values : s'.values = s.values + sign * rows.countP (counts argument)
  sum : function ≠ .count → ∀ total : Int, s.integerSum = total.bmod (2 ^ 64) →
    s'.integerSum = (total + sign * (rows.map (integerAt argument)).sum).bmod (2 ^ 64)

theorem Changed.nil (sign : Int) (s : SumState D) : Changed function argument sign [] s s where
  low := rfl
  high := rfl
  values := by simp
  sum _ total h := by simpa using h

theorem Changed.append {sign : Int} {rows more : List Nat} {s s' s'' : SumState D}
    (hrows : Changed function argument sign rows s s')
    (hmore : Changed function argument sign more s' s'') :
    Changed function argument sign (rows ++ more) s s'' where
  low := hmore.low.trans hrows.low
  high := hmore.high.trans hrows.high
  values := by
    rw [hmore.values, hrows.values, countP_append, Int.natCast_add, Int.mul_add,
      Int.add_assoc]
  sum hcount total htotal := by
    rw [hmore.sum hcount _ (hrows.sum hcount total htotal), map_append, sum_append,
      Int.mul_add, Int.add_assoc]

theorem exists_applyRow (h : OverIntegers function argument) (sign : Int) (s : SumState D)
    (row : Nat) : ∃ s', applyRow lib scale function argument sign s row = some s' ∧
      Changed function argument sign [row] s s' := by
  cases argument with
  | none =>
    refine ⟨_, rfl, rfl, rfl, by simp [counts], fun _ total htotal => ?_⟩
    simpa [integerAt] using htotal
  | some argument =>
    by_cases hnull : (valueAt argument.values row).isNull = true
    · refine ⟨s, by rw [applyRow, if_pos hnull], rfl, rfl, by simp [counts, hnull], ?_⟩
      intro _ total htotal
      simpa [integerAt, eq_nul hnull] using htotal
    by_cases hcount : function = .count
    · refine ⟨{ s with values := s.values + sign }, by rw [applyRow, if_neg hnull, if_pos hcount],
        rfl, rfl, by simp [counts, hnull], fun hne => absurd hcount hne⟩
    · rcases valueAt_typed (h.resolve_left hcount) row with hnul | ⟨n, hint⟩
      · rw [hnul] at hnull
        exact absurd rfl hnull
      · refine ⟨{ s with
          values := s.values + sign
          integerSum := (s.integerSum + sign * n).bmod (2 ^ 64)
          doubleSum := lib.add s.doubleSum (scale sign (lib.ofInt n)) },
          by rw [applyRow, if_neg hnull, if_neg hcount, hint]; rfl, rfl, rfl,
          by simp [counts, hnull], fun _ total htotal => ?_⟩
        simp [integerAt, hint, htotal]

theorem exists_foldlM_applyRow (h : OverIntegers function argument) (sign : Int) (rows : List Nat)
    (s : SumState D) : ∃ s', rows.foldlM (applyRow lib scale function argument sign) s = some s' ∧
      Changed function argument sign rows s s' := by
  induction rows generalizing s with
  | nil => exact ⟨s, rfl, Changed.nil sign s⟩
  | cons row rows ih =>
    obtain ⟨next, hnext, hrow⟩ := exists_applyRow h sign s row
    obtain ⟨s', hs', hrows⟩ := ih next
    exact ⟨s', by rw [foldlM_cons, hnext]; exact hs', hrow.append hrows⟩

/-- The sums are those of the rows between the two pointers. -/
structure Sums (function : SumFunction) (argument : Option (Argument D X)) (low high : Nat)
    (s : SumState D) : Prop where
  lowEq : s.low = low
  highEq : s.high = high
  values : s.values = (between low high).countP (counts argument)
  sum : function ≠ .count →
    s.integerSum = ((between low high).map (integerAt argument)).sum.bmod (2 ^ 64)

theorem sums_reset (row : Nat) : Sums function argument row row (resetSum lib row) where
  lowEq := rfl
  highEq := rfl
  values := by rw [between_self]; rfl
  sum _ := by rw [between_self]; rfl

theorem exists_advanceSum (h : OverIntegers function argument) (s : SumState D) (f : FrameRow) :
    ∃ s' entered left, advanceSum lib scale function argument s f = some s' ∧
      Changed function argument 1 (between s.high f.stop) s entered ∧
      Changed function argument (-1) (between s.low f.start) entered left ∧
      s' = { left with low := max s.low f.start, high := max s.high f.stop } := by
  obtain ⟨entered, hentered, hin⟩ := exists_foldlM_applyRow h 1 (between s.high f.stop) s
  obtain ⟨left, hleft, hout⟩ := exists_foldlM_applyRow h (-1) (between s.low f.start) entered
  refine ⟨_, entered, left, ?_, hin, hout, rfl⟩
  rw [advanceSum, hentered, Option.bind_some, hleft, Option.map_some]

theorem sums_advance (h : OverIntegers function argument) {low high : Nat} {s s' : SumState D}
    {f : FrameRow} (hle : low ≤ high) (hlow : low ≤ f.start) (hhigh : high ≤ f.stop)
    (hs : Sums function argument low high s)
    (hadvance : advanceSum lib scale function argument s f = some s') :
    Sums function argument f.start f.stop s' := by
  obtain ⟨t, entered, left, ht, hin, hout, rfl⟩ :=
    @exists_advanceSum _ _ lib scale function argument h s f
  obtain rfl := Option.some.inj (ht.symm.trans hadvance)
  rw [hs.lowEq] at hout
  rw [hs.highEq] at hin
  have hinside := f.inside.2
  -- the rows before the pointer, those of the frame and those that left
  have hentered := between_append hle hhigh
  have hleft := between_append hlow hinside
  refine ⟨?_, ?_, ?_, fun hcount => ?_⟩
  · rw [hs.lowEq]
    exact Nat.max_eq_right hlow
  · rw [hs.highEq]
    exact Nat.max_eq_right hhigh
  · have hcount : (between low high).countP (counts argument) +
        (between high f.stop).countP (counts argument) =
        (between low f.start).countP (counts argument) +
          (between f.start f.stop).countP (counts argument) := by
      rw [← countP_append, ← countP_append, hentered, hleft]
    change left.values = _
    rw [hout.values, hin.values, hs.values]
    omega
  · have htotal : ((between low high).map (integerAt argument)).sum +
        ((between high f.stop).map (integerAt argument)).sum =
        ((between low f.start).map (integerAt argument)).sum +
          ((between f.start f.stop).map (integerAt argument)).sum := by
      rw [← sum_append, ← sum_append, ← map_append, ← map_append, hentered,
        hleft]
    change left.integerSum = _
    rw [hout.sum hcount _ (hin.sum hcount _ (hs.sum hcount)), Int.one_mul, htotal]
    congr 1
    omega

theorem recomputeSum_eq (h : OverIntegers function argument) {f : FrameRow} {s : SumState D}
    (hs : Sums function argument f.start f.stop s) :
    recomputeSum lib function argument f = emitSum lib function argument s := by
  cases function with
  | count => exact congrArg Aggregate.Cell.int hs.values.symm
  | sum =>
    have hinteger := h.resolve_left (by decide)
    have hsum := hs.sum (by decide)
    simp [recomputeSum, emitSum, hinteger, hsum, hs.values]
  | avg =>
    have hinteger := h.resolve_left (by decide)
    have hsum := hs.sum (by decide)
    simp [recomputeSum, emitSum, hinteger, hsum, hs.values]

theorem slidingSum_eq (h : OverIntegers function argument) (hmono : MonotoneFrames frames) :
    slidingSum lib scale function argument frames =
      some (frames.map (recomputeSum lib function argument)) := by
  obtain ⟨out, hout⟩ : ∃ out, slidingSum lib scale function argument frames = some out :=
    slide_total fun s f =>
      let ⟨s', _, _, hs', _⟩ := @exists_advanceSum _ _ lib scale function argument h s f
      ⟨s', hs'⟩
  have hrun : frames.mapM (fun f => some (recomputeSum lib function argument f)) = some out :=
    slide_run sums_reset (sums_advance h) (fun hs => congrArg some (recomputeSum_eq h hs))
      (fun p hp => by cases hp) hmono hout
  rw [hout, ← hrun]
  exact mapM_pure

end Sums

/-! ## 5. The candidates -/

section Choices

variable {minimum : Bool} {values : List (Value D X)}

/-- The rows that may be candidates. -/
def present (values : List (Value D X)) (low high : Nat) : List Nat :=
  (between low high).filter fun row => !(valueAt values row).isNull

theorem foldlM_enterRow (rows candidates : List Nat) :
    rows.foldlM (enterRow lib minimum values) candidates =
      settleAll (keepsRow lib minimum values)
        (rows.filter fun row => !(valueAt values row).isNull) candidates := by
  induction rows generalizing candidates with
  | nil => rfl
  | cons row rows ih =>
    rw [foldlM_cons, enterRow]
    by_cases hnull : (valueAt values row).isNull = true
    · rw [if_pos hnull, filter_cons_of_neg (by simp [hnull])]
      exact ih candidates
    · rw [if_neg hnull, filter_cons_of_pos (by simp [hnull]), settleAll_cons]
      exact congrArg (Option.bind _) (funext ih)

/-- The candidates are those of the rows between the two pointers. -/
structure Candidates (lib : ValueLib D X) (minimum : Bool) (values : List (Value D X))
    (low high : Nat) (s : ChoiceState) : Prop where
  highEq : s.high = high
  eq : settleAll (keepsRow lib minimum values) (present values low high) [] = some s.candidates

theorem candidates_reset (row : Nat) : Candidates lib minimum values row row ⟨row, []⟩ where
  highEq := rfl
  eq := by rw [present, between_self]; rfl

theorem present_append {low mid high : Nat} (hlow : low ≤ mid) (hhigh : mid ≤ high) :
    present values low mid ++ present values mid high = present values low high := by
  rw [present, present, present, ← filter_append, between_append hlow hhigh]

theorem candidates_advance {low high : Nat} {s s' : ChoiceState} {f : FrameRow}
    (hle : low ≤ high) (hlow : low ≤ f.start) (hhigh : high ≤ f.stop)
    (hs : Candidates lib minimum values low high s)
    (hadvance : advanceChoice lib minimum values s f = some s') :
    Candidates lib minimum values f.start f.stop s' := by
  obtain ⟨candidates, hcandidates, rfl⟩ := Option.map_eq_some_iff.mp hadvance
  rw [foldlM_enterRow, hs.highEq] at hcandidates
  have hall : settleAll (keepsRow lib minimum values)
      (present values low f.start ++ present values f.start f.stop) [] = some candidates := by
    rw [present_append hlow f.inside.2, ← present_append hle hhigh, settleAll_append, hs.eq]
    exact hcandidates
  refine ⟨?_, settleAll_stale (fun row hrow => ?_) (fun row hrow => ?_) hall⟩
  · rw [hs.highEq]
    exact Nat.max_eq_right hhigh
  · have hmem := mem_between.mp (mem_filter.mp hrow).1
    exact decide_eq_true hmem.2
  · have hmem := mem_between.mp (mem_filter.mp hrow).1
    exact decide_eq_false (Nat.not_lt.mpr hmem.1)

theorem valuesBetween_eq (values : List (Value D X)) (low high : Nat) :
    valuesBetween values low high = (present values low high).map (valueAt values) := by
  rw [valuesBetween, filter_map]
  rfl

theorem not_null_of_present {low high row : Nat} (h : row ∈ present values low high) :
    (valueAt values row).isNull = false := by
  simpa using (mem_filter.mp h).2

theorem settleAll_compared (hlib : OrderedDoubles lib) (low high : Nat) :
    (∃ deque, settleAll (keepsRow lib minimum values) (present values low high) [] = some deque) ↔
      Compared (valuesBetween values low high) := by
  rw [valuesBetween_eq]
  have hnull : ∀ row ∈ present values low high, (valueAt values row).isNull = false :=
    fun _ h => not_null_of_present h
  generalize present values low high = rows at hnull ⊢
  constructor
  · rintro ⟨deque, h⟩
    refine or_iff_not_imp_left.mpr fun hlong v hv => ?_
    rw [length_map] at hlong
    obtain ⟨row, hrow, rfl⟩ := mem_map.mp hv
    -- each row has a neighbour that it is compared with
    obtain ⟨front, a, b, back, rfl, hab⟩ : ∃ front a b back, rows = front ++ a :: b :: back ∧
        (row = a ∨ row = b) := by
      obtain ⟨front, back, rfl⟩ := append_of_mem hrow
      cases back with
      | cons b back => exact ⟨front, row, b, back, rfl, .inl rfl⟩
      | nil =>
        rcases eq_nil_or_concat front with rfl | ⟨front, a, rfl⟩
        · exact absurd (Nat.le_refl 1) hlong
        · exact ⟨front, a, row, [], by simp, .inr rfl⟩
    have hkeep := keeps_of_settleAll h
    rw [keepsRow, keepsValue_eq hlib (.inr (hnull b (by simp)))] at hkeep
    by_contra hother
    refine hkeep (if_pos ?_)
    rw [Bool.not_eq_false] at hother
    rcases hab with rfl | rfl <;> simp [hother]
  · rintro (hshort | hscalars)
    · rw [length_map] at hshort
      match rows, hshort with
      | [], _ => exact ⟨[], rfl⟩
      | [row], _ => exact ⟨[row], rfl⟩
    · refine exists_settleAll fun a ha b hb => ?_
      rw [nil_append] at ha
      rw [keepsRow, keepsValue_eq hlib (.inr (hnull b hb)),
        hscalars _ (mem_map_of_mem ha), hscalars _ (mem_map_of_mem hb)]
      exact Option.some_ne_none _

/-- The value at the front of the deque: a newer value takes the place of an older one unless the
older one is better. -/
def frontValue (lib : ValueLib D X) (minimum : Bool) : List (Value D X) → Value D X
  | [] => .nul
  | v :: vals => lastBest (outranks lib minimum) v vals

theorem frontValue_eq (hlib : OrderedDoubles lib) {low high : Nat} {s : ChoiceState}
    (hs : Candidates lib minimum values low high s) :
    frontValue lib minimum (valuesBetween values low high) =
      (s.candidates.getLast?.map (valueAt values)).getD .nul := by
  have hscan := scan_of_settleAll (fun a b c => keepsValue_trans hlib minimum (valueAt values a)
    (valueAt values b) (valueAt values c)) hs.eq
  have hvals : scan (keepsValue lib minimum) (valuesBetween values low high) =
      some (s.candidates.getLast?.map (valueAt values)) := by
    rw [valuesBetween_eq, scan_map, ← Option.map_some]
    exact congrArg (Option.map _) hscan
  have hcompared := (settleAll_compared hlib low high).mp ⟨_, hs.eq⟩
  have hnull : ∀ v ∈ valuesBetween values low high, v.isNull = false := by
    intro v hv
    simpa using (mem_filter.mp hv).2
  generalize valuesBetween values low high = vals at hvals hcompared hnull
  cases vals with
  | nil =>
    rw [← Option.some.inj hvals]
    rfl
  | cons v vals =>
    rcases hcompared with hshort | hscalars
    · obtain rfl := length_eq_zero_iff.mp (Nat.le_zero.mp (Nat.le_of_succ_le_succ hshort))
      rw [← Option.some.inj hvals]
      rfl
    · have hkeeps : ∀ a ∈ v :: vals, ∀ b ∈ v :: vals,
          keepsValue lib minimum a b = some (outranks lib minimum a b) := by
        intro a ha b hb
        rw [keepsValue_eq hlib (.inr (hnull b hb)), hscalars a ha, hscalars b hb]
        rfl
      rw [scan_lastBest hkeeps] at hvals
      rw [← Option.some.inj hvals]
      rfl

/-- **The front is right exactly if a least value stays.** -/
theorem frontValue_isChoice_iff (vals : List (Value D X)) :
    IsChoice lib minimum vals (frontValue lib minimum vals) ↔ LastStays lib minimum vals := by
  cases vals with
  | nil => exact iff_of_true (.inl ⟨rfl, rfl⟩) (.inl rfl)
  | cons v vals =>
    constructor
    · rintro (⟨h, -⟩ | h)
      · cases h
      · obtain ⟨front, back, heq, hback⟩ := @lastBest_split _ (outranks lib minimum) v vals
        exact .inr ⟨front, _, back, heq, h, hback⟩
    · rintro (h | ⟨front, w, back, heq, hw, hback⟩)
      · cases h
      · have hfront : frontValue lib minimum (v :: vals) = w := lastBest_eq heq hw.unbeaten hback
        exact .inr (hfront ▸ hw)

theorem exists_map_iff {α β : Type} {g : α → β} {x : Option α} :
    (∃ b, x.map g = some b) ↔ ∃ a, x = some a := by
  cases x <;> simp

theorem slidingChoice_eq (hlib : OrderedDoubles lib) (hmono : MonotoneFrames frames)
    {out : List (Value D X)} (h : slidingChoice lib minimum values frames = some out) :
    out = frames.map fun f => frontValue lib minimum (frameValues values f) := by
  rw [slidingChoice, chosenRows] at h
  have hrun : frames.mapM
      (fun f => some (frontValue lib minimum (frameValues values f))) = some out :=
    slide_run candidates_reset candidates_advance
      (fun hs => congrArg some (frontValue_eq hlib hs)) (fun p hp => by cases hp) hmono
      ((slide_map _).trans h)
  exact Option.some.inj (hrun.symm.trans mapM_pure)

theorem exists_slidingChoice_iff (hlib : OrderedDoubles lib) (hmono : MonotoneFrames frames) :
    (∃ out, slidingChoice lib minimum values frames = some out) ↔
      ∀ e ∈ fromPrevious 0 0 frames, Compared (valuesBetween values e.1 e.2.stop) := by
  have hready : ∀ {low high : Nat} {s : ChoiceState} {f : FrameRow}, low ≤ high → high ≤ f.stop →
      Candidates lib minimum values low high s →
        ((∃ s', advanceChoice lib minimum values s f = some s') ↔
          Compared (valuesBetween values low f.stop)) := by
    intro low high s f hlow hhigh hs
    rw [← @settleAll_compared _ _ lib minimum values hlib, ← present_append hlow hhigh,
      settleAll_append, hs.eq, Option.bind_some, advanceChoice, foldlM_enterRow, hs.highEq]
    exact exists_map_iff
  have hslide : (∃ chosen, chosenRows lib minimum values frames = some chosen) ↔
      ∀ e ∈ fromPrevious 0 0 frames, Compared (valuesBetween values e.1 e.2.stop) :=
    slide_some_iff candidates_reset candidates_advance hready (fun p hp => by cases hp) hmono
  rw [← hslide]
  exact exists_map_iff

end Choices

/-! ## 6. Every row -/

/-- Doubles that hold their values exactly. -/
def binaryLib : ValueLib Binary64 Nat where
  lt := Binary64.ltb
  zero := .finite 0
  add a b := match a, b with
    | .finite x, .finite y => .finite (x + y)
    | _, _ => .nan
  divNat a n := match a with
    | .finite x => .finite (x / n)
    | _ => .nan
  ofInt := Binary64.ofInt
  toInt _ := 0
  toFloat d := d
  keyBytes _ := []
  doubleText _ := []
  otherText _ := []
  accepts _ _ := true
  utf8 _ := true

/-- Rows of one partition with frames that start at `start` and end before `stop`. -/
def framesOf (bounds : List (Nat × Nat)) : List FrameRow :=
  bounds.map fun b => ⟨0, b.1, b.1 + b.2, Nat.zero_le _, Nat.le_add_right _ _⟩

/-- 7, null, 3, 5 and 4. -/
def someIntegers : List (Value Binary64 Nat) := [.int 7, .nul, .int 3, .int 5, .int 4]

theorem someIntegers_typed :
    true = true → ∀ v ∈ someIntegers, v.isNull = true ∨ v.isInt = true := by
  intro _ v hv
  simp only [someIntegers, mem_cons, not_mem_nil, or_false] at hv
  rcases hv with rfl | rfl | rfl | rfl | rfl
  · exact .inr rfl
  · exact .inl rfl
  · exact .inr rfl
  · exact .inr rfl
  · exact .inr rfl

def integerColumn : Argument Binary64 Nat := ⟨true, someIntegers, someIntegers_typed⟩

/-- 7, null, NaN, 3 and 4: the NaN stands before the least value. -/
def nanBefore : List (Value Binary64 Nat) := [.int 7, .nul, .double .nan, .int 3, .int 4]

/-- Frames of one to four rows, and an empty one. -/
def someFrames : List FrameRow := framesOf [(0, 1), (0, 4), (2, 2), (3, 2), (5, 0)]

theorem someFrames_monotone : MonotoneFrames someFrames :=
  ⟨.inl rfl, .inr ⟨_, rfl, rfl, by decide, by decide⟩, .inr ⟨_, rfl, rfl, by decide, by decide⟩,
    .inr ⟨_, rfl, rfl, by decide, by decide⟩, .inr ⟨_, rfl, rfl, by decide, by decide⟩, trivial⟩

theorem nanBefore_leastStays : LeastStays binaryLib true nanBefore someFrames where
  compared e he := by
    refine .inr fun v hv => ?_
    obtain ⟨row, -, rfl⟩ := mem_map.mp (mem_filter.mp hv).1
    rcases row with _ | _ | _ | _ | _ | row <;> rfl
  stays f hf := by
    simp only [someFrames, framesOf, map_cons, map_nil, mem_cons, not_mem_nil,
      or_false] at hf
    rcases hf with rfl | rfl | rfl | rfl | rfl
    · exact .inr ⟨[], .int 7, [], rfl, ⟨by decide, by decide, False.elim⟩, by decide⟩
    · exact .inr ⟨[.int 7, .double .nan], .int 3, [], rfl, ⟨by decide, by decide, False.elim⟩,
        by decide⟩
    · exact .inr ⟨[.double .nan], .int 3, [], rfl, ⟨by decide, by decide, False.elim⟩, by decide⟩
    · exact .inr ⟨[], .int 3, [.int 4], rfl, ⟨by decide, by decide, False.elim⟩, by decide⟩
    · exact .inl rfl

/-- 5, NaN and 7. -/
def nanBehind : List (Value Binary64 Nat) :=
  [.double (.finite 5), .double .nan, .double (.finite 7)]

/-- Every row has all three. -/
def threeRows : List FrameRow := framesOf [(0, 3), (0, 3), (0, 3)]

end MldpDriver.Query.Window
