/-
# The aggregate functions

An accumulator holds the state of one aggregate for every group (`Accumulator`): counts for COUNT,
sums for SUM and AVG, the chosen value for MIN, MAX, FIRST and LAST.  Two things it holds once for
all of its groups: the type of the column it reads, and whether a double came by.  Both only matter
for the TYPE of the column it builds in the end (`Accumulator.finish`).  -/
import MldpDriver.Query.AggregateValue

namespace MldpDriver.Query.Aggregate

variable {D X : Type}

/-! ## 1. Functions -/

/-- `ChoiceAccumulator::Mode` -/
inductive ChoiceMode
  | min
  | max
  | first
  | last

/-- The functions of the registry; AVG is a SUM that is divided in the end. -/
inductive AggregateFunction
  | count
  | sum (average : Bool)
  | choice (mode : ChoiceMode)

/-- An aggregate of a query: COUNT(*) has no argument. -/
structure AggregateCall where
  function : AggregateFunction
  hasArgument : Bool := true
  distinct : Bool := false

/-! ## 2. Groups -/

/-- The state of one group. -/
structure GroupState (D X : Type) where
  count : Nat := 0
  seen : List (List UInt8) := []
  integerSum : Int := 0
  doubleSum : D
  chosen : Value D X := .nul

def GroupState.empty (lib : ValueLib D X) : GroupState D X := { doubleSum := lib.zero }

instance lawfulBEq_key : LawfulBEq (List UInt8) := inferInstance

/-- `CountAccumulator::consume` for one row; without an argument every row counts. -/
def GroupState.countValue (lib : ValueLib D X) (call : AggregateCall) (value : Value D X)
    (g : GroupState D X) : GroupState D X :=
  if call.hasArgument = false then { g with count := g.count + 1 }
  else if value.isNull then g
  else if call.distinct = false then { g with count := g.count + 1 }
  else if appendValueKey lib value ∈ g.seen then g
  else { g with seen := appendValueKey lib value :: g.seen, count := g.count + 1 }

/-- `SumAccumulator::consume` for one row; `none` for a value that is no number. -/
def GroupState.sumValue (lib : ValueLib D X) (value : Value D X) (g : GroupState D X) :
    Option (GroupState D X) :=
  match value with
  | .nul => some g
  | .int n => some { g with
      integerSum := (g.integerSum + n).bmod (2 ^ 64)
      doubleSum := lib.add g.doubleSum (lib.ofInt n)
      count := g.count + 1 }
  | .double d => some { g with doubleSum := lib.add g.doubleSum d, count := g.count + 1 }
  | _ => none

/-- `ChoiceAccumulator::offer` -/
def GroupState.offer (lib : ValueLib D X) (mode : ChoiceMode) (value : Value D X)
    (g : GroupState D X) : Option (GroupState D X) :=
  if value.isNull then some g
  else if g.chosen.isNull then some { g with chosen := value }
  else
    match mode with
    | .first => some g
    | .last => some { g with chosen := value }
    | .min => (compareValues lib value g.chosen).map fun order =>
        if order < 0 then { g with chosen := value } else g
    | .max => (compareValues lib value g.chosen).map fun order =>
        if 0 < order then { g with chosen := value } else g

/-- A row of the group. -/
def GroupState.consume (lib : ValueLib D X) (call : AggregateCall) (g : GroupState D X)
    (value : Value D X) : Option (GroupState D X) :=
  match call.function with
  | .count => some (g.countValue lib call value)
  | .sum _ => g.sumValue lib value
  | .choice mode => g.offer lib mode value

/-! ## 3. Accumulators -/

/-- An accumulator; groups that no row reached yet have the empty state. -/
structure Accumulator (D X : Type) where
  type : Option ArrowType
  floating : Bool := false
  groups : Nat → GroupState D X

/-- `makeAccumulator` with the type of the first batch; COUNT and SUM have no use for it. -/
def makeAccumulator (lib : ValueLib D X) (call : AggregateCall) (type : Option ArrowType) :
    Accumulator D X where
  type := match call.function with
    | .choice _ => type.bind preservedType
    | _ => none
  groups _ := .empty lib

/-- A double makes a SUM floating. -/
def AggregateCall.floats (call : AggregateCall) (value : Value D X) : Bool :=
  match call.function with
  | .sum _ => value.isDouble
  | _ => false

/-- `consume` for one row with the id of its group; `none` says that it throws. -/
def Accumulator.consumeRow (lib : ValueLib D X) (call : AggregateCall) (a : Accumulator D X)
    (row : Nat × Value D X) : Option (Accumulator D X) :=
  ((a.groups row.1).consume lib call row.2).map fun g =>
    { a with
      floating := a.floating || call.floats row.2
      groups := Function.update a.groups row.1 g }

/-- `consume`: the rows of a batch with the ids of their groups. -/
def Accumulator.consume (lib : ValueLib D X) (call : AggregateCall) (a : Accumulator D X)
    (rows : List (Nat × Value D X)) : Option (Accumulator D X) :=
  rows.foldlM (fun a row => a.consumeRow lib call row) a

/-- The column a SUM or AVG builds. -/
def sumCell (lib : ValueLib D X) (average floating : Bool) (g : GroupState D X) : Cell D X :=
  if g.count = 0 then .null
  else if average then .real (lib.divNat g.doubleSum g.count)
  else if floating then .real g.doubleSum
  else .int g.integerSum

/-- `finish`: the column for so many groups. -/
def Accumulator.finish (lib : ValueLib D X) (call : AggregateCall) (groupCount : Nat)
    (a : Accumulator D X) : Option (Column D X) :=
  let groups := (List.range groupCount).map a.groups
  match call.function with
  | .count => some ⟨.int64, groups.map fun g => .int g.count⟩
  | .sum average => some ⟨if average || a.floating then .double else .int64,
      groups.map (sumCell lib average a.floating)⟩
  | .choice _ => buildValueColumn lib (groups.map (·.chosen)) a.type

end MldpDriver.Query.Aggregate
