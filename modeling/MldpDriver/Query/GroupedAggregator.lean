/-
# GROUP BY with spilling

Rows arrive in batches, keys and aggregate arguments already evaluated.  While the groups fit in
memory every row is folded into the group of its key (`InMemoryGroups`).  Past the budget the
groups are FROZEN: rows of their keys are still folded in, all others go to spill partitions by a
hash of their key, and each partition is aggregated in the end like the input was
(`EvaluatedAggregator`).  -/
import Mathlib.Data.Fintype.Pi
import MldpDriver.Query.AggregateRegistry

namespace MldpDriver.Query.Aggregate

variable {D X : Type} {m n : Nat}

/-! ## 1. Batches -/

/-- The types of the key columns and of the aggregate arguments. -/
structure BatchTypes (m n : Nat) where
  keys : Fin m → ArrowType
  arguments : Fin n → ArrowType
  deriving DecidableEq

/-- The keys and arguments of a row; COUNT(*) reads no argument. -/
structure EvaluatedRow (D X : Type) (m n : Nat) where
  keys : Fin m → Value D X
  arguments : Fin n → Value D X

structure EvaluatedBatch (D X : Type) (m n : Nat) where
  types : BatchTypes m n
  rows : List (EvaluatedRow D X m n)

/-- The encoded key of a row. -/
def EvaluatedRow.key (lib : ValueLib D X) (row : EvaluatedRow D X m n) : List UInt8 :=
  (List.ofFn row.keys).flatMap (appendValueKey lib)

/-- All of them, or none. -/
def allSome {α : Type} (f : Fin n → Option α) : Option (Fin n → α) :=
  if h : ∀ i, (f i).isSome = true then some fun i => (f i).get (h i) else none

/-! ## 2. Groups in memory -/

/-- `GroupKeyTable`: the encoded keys by group id, the keys of the first row of each group, and the
types of the key columns. -/
structure GroupKeyTable (D X : Type) (m : Nat) where
  index : List (List UInt8) := []
  values : List (Fin m → Value D X) := []
  types : Fin m → Option ArrowType := fun _ => none

/-- Find or insert the key of a row. -/
def GroupKeyTable.assignRow (lib : ValueLib D X) (t : GroupKeyTable D X m)
    (row : EvaluatedRow D X m n) : GroupKeyTable D X m :=
  if row.key lib ∈ t.index then t
  else { t with index := t.index ++ [row.key lib], values := t.values ++ [row.keys] }

/-- `assign`; without keys there is one group and nothing to do. -/
def GroupKeyTable.assign (lib : ValueLib D X) (t : GroupKeyTable D X m)
    (batch : EvaluatedBatch D X m n) : GroupKeyTable D X m :=
  if m = 0 then t
  else batch.rows.foldl (fun t row => t.assignRow lib row)
    { t with types := fun j => (t.types j).or (preservedType (batch.types.keys j)) }

/-- The id of the group of a row. -/
def GroupKeyTable.groupId (lib : ValueLib D X) (t : GroupKeyTable D X m)
    (row : EvaluatedRow D X m n) : Nat :=
  if m = 0 then 0 else t.index.idxOf (row.key lib)

/-- `InMemoryGroups`; an accumulator is made when its first batch arrives. -/
structure InMemoryGroups (D X : Type) (m n : Nat) where
  keys : GroupKeyTable D X m := {}
  accumulators : Fin n → Option (Accumulator D X) := fun _ => none

/-- The type an accumulator is made with. -/
def argumentType (calls : Fin n → AggregateCall) (types : BatchTypes m n) (j : Fin n) :
    Option ArrowType :=
  if (calls j).hasArgument then some (types.arguments j) else none

/-- `InMemoryGroups::consume`; `none` says that it throws. -/
def InMemoryGroups.consume (lib : ValueLib D X) (calls : Fin n → AggregateCall)
    (g : InMemoryGroups D X m n) (batch : EvaluatedBatch D X m n) :
    Option (InMemoryGroups D X m n) :=
  let keys := g.keys.assign lib batch
  let accumulators := allSome fun j =>
    ((g.accumulators j).getD (makeAccumulator lib (calls j) (argumentType calls batch.types j))).consume
      lib (calls j) (batch.rows.map fun row => (keys.groupId lib row, row.arguments j))
  accumulators.map fun accumulators => { keys, accumulators := fun j => some (accumulators j) }

def InMemoryGroups.groupCount (g : InMemoryGroups D X m n) : Nat :=
  if m = 0 then 1 else g.keys.index.length

/-- An output batch: key columns, then aggregate columns. -/
structure OutputBatch (D X : Type) (m n : Nat) where
  keyColumns : Fin m → Column D X
  aggregateColumns : Fin n → Column D X
  rowCount : Nat

/-- `InMemoryGroups::finish` -/
def InMemoryGroups.finish (lib : ValueLib D X) (calls : Fin n → AggregateCall)
    (g : InMemoryGroups D X m n) : Option (OutputBatch D X m n) := do
  let keyColumns ← allSome fun j =>
    buildValueColumn lib (g.keys.values.map fun keys => keys j) (g.keys.types j)
  let aggregateColumns ← allSome fun j =>
    ((g.accumulators j).getD (makeAccumulator lib (calls j) none)).finish lib (calls j) g.groupCount
  return { keyColumns, aggregateColumns, rowCount := g.groupCount }

/-- The types of the columns of an output batch. -/
def OutputBatch.types (o : OutputBatch D X m n) : BatchTypes m n :=
  ⟨fun j => (o.keyColumns j).type, fun j => (o.aggregateColumns j).type⟩

/-- The rows of an output batch: the slots of the key columns and of the aggregate columns. -/
def OutputBatch.rows (o : OutputBatch D X m n) :
    List ((Fin m → Cell D X) × (Fin n → Cell D X)) :=
  (List.range o.rowCount).map fun i =>
    (fun j => (o.keyColumns j).cells.getD i .null, fun j => (o.aggregateColumns j).cells.getD i .null)

/-! ## 3. Spilling

The control of this, when to freeze and which row goes where, looks at nothing of the groups but
which keys they have and how much memory they take.  It is stated over any kind of groups
(`GroupStore`): on `InMemoryGroups` it is the operator, and on bare lists of rows it says which
rows are aggregated together.  A batch carries the types of its columns; a partition takes batches
of one schema only. -/

/-- What the control of the spilling needs of groups of some kind. -/
structure GroupStore (G D X : Type) (m n : Nat) where
  empty : G
  consume : G → EvaluatedBatch D X m n → Option G
  contains : G → List UInt8 → Bool
  overBudget : G → Bool

/-- The parameters of the spilling: `std::hash`, the number of partitions, and whether there is a
spill manager. -/
structure SpillSettings where
  hash : List UInt8 → Nat
  spillPartitions : Nat
  canSpill : Bool

/-- The number of partitions. -/
def SpillSettings.partitionCount (settings : SpillSettings) : Nat := max 2 settings.spillPartitions

def kMaxDepth : Nat := 4

/-- `hashKey`, modulo the number of partitions. -/
def SpillSettings.partition (settings : SpillSettings) (depth : Nat) (key : List UInt8) : Nat :=
  (settings.hash key ^^^ (0x9e3779b97f4a7c15 * (depth + 1) % 2 ^ 64)) % settings.partitionCount

/-- `EvaluatedAggregator`; a partition without batches has no writer. -/
structure EvaluatedAggregator (G D X : Type) (m n : Nat) where
  groups : G
  frozen : Bool := false
  writers : Nat → List (EvaluatedBatch D X m n) := fun _ => []

variable {G : Type}

/-- The rows of a partition. -/
def selected (lib : ValueLib D X) (settings : SpillSettings) (depth : Nat)
    (rows : List (EvaluatedRow D X m n)) (index : Nat) : List (EvaluatedRow D X m n) :=
  rows.filter fun row => settings.partition depth (row.key lib) == index

/-- A writer takes a batch of the schema it was opened with. -/
def sameSchema (types : BatchTypes m n) (batches : List (EvaluatedBatch D X m n)) : Bool :=
  match batches with
  | [] => true
  | first :: _ => first.types == types

/-- `EvaluatedAggregator::spill`; `none` says that a writer refuses its batch. -/
def EvaluatedAggregator.spill (lib : ValueLib D X) (settings : SpillSettings) (depth : Nat)
    (a : EvaluatedAggregator G D X m n) (batch : EvaluatedBatch D X m n) :
    Option (EvaluatedAggregator G D X m n) :=
  if (List.range settings.partitionCount).all fun index =>
      (selected lib settings depth batch.rows index).isEmpty ||
        sameSchema batch.types (a.writers index) then
    some { a with writers := fun index =>
      let rows := selected lib settings depth batch.rows index
      if rows.isEmpty then a.writers index else a.writers index ++ [{ batch with rows }] }
  else none

/-- `classify`: the rows of keys that have a group. -/
def GroupStore.hits (lib : ValueLib D X) (store : GroupStore G D X m n) (g : G)
    (batch : EvaluatedBatch D X m n) : List (EvaluatedRow D X m n) :=
  batch.rows.filter fun row => store.contains g (row.key lib)

/-- `classify`: the other rows. -/
def GroupStore.misses (lib : ValueLib D X) (store : GroupStore G D X m n) (g : G)
    (batch : EvaluatedBatch D X m n) : List (EvaluatedRow D X m n) :=
  batch.rows.filter fun row => !store.contains g (row.key lib)

def GroupStore.consumeHits (lib : ValueLib D X) (store : GroupStore G D X m n) (g : G)
    (batch : EvaluatedBatch D X m n) : Option G :=
  if (store.hits lib g batch).isEmpty then some g
  else store.consume g { batch with rows := store.hits lib g batch }

/-- `EvaluatedAggregator::consume`; `mayFreeze` holds with keys, a spill manager and below the
greatest depth. -/
def EvaluatedAggregator.consume (lib : ValueLib D X) (settings : SpillSettings) (depth : Nat)
    (mayFreeze : Bool) (store : GroupStore G D X m n) (a : EvaluatedAggregator G D X m n)
    (batch : EvaluatedBatch D X m n) : Option (EvaluatedAggregator G D X m n) :=
  if a.frozen = false then
    (store.consume a.groups batch).map fun groups =>
      { a with groups, frozen := mayFreeze && store.overBudget groups }
  else
    (store.consumeHits lib a.groups batch).bind fun groups =>
      if (store.misses lib a.groups batch).isEmpty then some { a with groups }
      else EvaluatedAggregator.spill lib settings depth { a with groups }
        { batch with rows := store.misses lib a.groups batch }

/-- The aggregation of a list of batches `remaining` levels above the greatest depth: the groups
kept in memory, then those of each partition. -/
def aggregateBatches (lib : ValueLib D X) (settings : SpillSettings) (store : GroupStore G D X m n) :
    Nat → List (EvaluatedBatch D X m n) → Option (List G)
  | 0, batches => do
    let a ← batches.foldlM
      (EvaluatedAggregator.consume lib settings kMaxDepth false store) { groups := store.empty }
    return [a.groups]
  | remaining + 1, batches => do
    let depth := kMaxDepth - (remaining + 1)
    let mayFreeze := decide (0 < m) && settings.canSpill
    let a ← batches.foldlM
      (EvaluatedAggregator.consume lib settings depth mayFreeze store) { groups := store.empty }
    let parts ← (List.range settings.partitionCount).mapM fun index =>
      if (a.writers index).isEmpty then some []
      else aggregateBatches lib settings store remaining (a.writers index)
    return a.groups :: parts.flatten

/-- The groups in memory, with the rows they consumed; the memory they take is any function of these
rows. -/
def inMemoryStore (lib : ValueLib D X) (calls : Fin n → AggregateCall)
    (overBudget : List (BatchTypes m n × EvaluatedRow D X m n) → Bool) :
    GroupStore (InMemoryGroups D X m n × List (BatchTypes m n × EvaluatedRow D X m n)) D X m n where
  empty := ({}, [])
  consume g batch := (g.1.consume lib calls batch).map fun groups =>
    (groups, g.2 ++ batch.rows.map fun row => (batch.types, row))
  contains g key := g.1.keys.index.contains key
  overBudget g := overBudget g.2

/-- `GroupedAggregator`: batches without rows are skipped; the output batches of the groups in
memory, then of each partition. -/
def aggregate (lib : ValueLib D X) (settings : SpillSettings) (calls : Fin n → AggregateCall)
    (overBudget : List (BatchTypes m n × EvaluatedRow D X m n) → Bool)
    (batches : List (EvaluatedBatch D X m n)) : Option (List (OutputBatch D X m n)) := do
  let groups ← aggregateBatches lib settings (inMemoryStore lib calls overBudget) kMaxDepth
    (batches.filter fun batch => !batch.rows.isEmpty)
  groups.mapM fun g => g.1.finish lib calls

end MldpDriver.Query.Aggregate
