/-
# The input buffer of a processor

A processor keeps what arrived last of each source (its SLOT), the sources that were updated since
the last snapshot (FRESH), and, if it was configured without sources, the sources it has SEEN.  The
maps and sets are lists, in the order in which the source's containers happen to iterate.
-/
import Mathlib.Algebra.Group.Nat.Defs
import MldpDriver.Bus.DataBatch
import MldpDriver.Lib.Directory

namespace MldpDriver.Processor

open Bus Lib.Directory

variable {V : Type}

/-! ## 1. Policies -/

inductive TriggerPolicy
  | anyUpdate
  | allUpdated
  | interval
  deriving DecidableEq

inductive AlignmentPolicy
  | latestValue
  | allUpdated
  | interpolate
  deriving DecidableEq

/-! ## 2. Values -/

/-- `values.size()`. -/
def valueCount : ColumnValues V → Nat
  | .scalar _ values => values.length
  | .bytes values => values.length
  | .array _ values => values.length

/-- `values.clear()`. -/
def clearValues : ColumnValues V → ColumnValues V
  | .scalar kind _ => .scalar kind []
  | .bytes _ => .bytes []
  | .array kind _ => .array kind []

/-- The values without the first ones. -/
def dropValues (n : Nat) : ColumnValues V → ColumnValues V
  | .scalar kind values => .scalar kind (values.drop n)
  | .bytes values => .bytes (values.drop n)
  | .array kind values => .array kind (values.drop n)

/-- Values of the same type are appended; others take the place of the old ones. -/
def appendValues : ColumnValues V → ColumnValues V → ColumnValues V
  | .scalar kind values, .scalar kind' incoming =>
    if kind = kind' then .scalar kind (values ++ incoming) else .scalar kind' incoming
  | .bytes values, .bytes incoming => .bytes (values ++ incoming)
  | .array kind values, .array kind' incoming =>
    if kind = kind' then .array kind (values ++ incoming) else .array kind' incoming
  | _, incoming => incoming

/-- `trimOldestSamples`; a column with too few values empties the batch. -/
def trimOldestSamples (maxDepth : Nat) (batch : DataBatch V) : DataBatch V :=
  if maxDepth = 0 ∨ batch.timestamps.length ≤ maxDepth then batch
  else
    let dropCount := batch.timestamps.length - maxDepth
    if batch.columns.any fun c => decide (valueCount c.values ≤ dropCount) then
      { batch with
        timestamps := []
        columns := batch.columns.map fun c => { c with values := clearValues c.values } }
    else
      { batch with
        timestamps := batch.timestamps.drop dropCount
        columns := batch.columns.map fun c => { c with values := dropValues dropCount c.values } }

/-! ## 3. The buffer -/

structure InputBuffer (V : Type) where
  slots : List (String × DataBatch V) := []
  fresh : List String := []
  requiredSources : List String
  seenSources : List String := []
  alignment : AlignmentPolicy
  maxDepth : Nat := 0

/-- The batch of a source, a new one if it has none: `slots_[source]`. -/
def InputBuffer.slot (b : InputBuffer V) (source : String) : DataBatch V :=
  (b.slots.lookup source).getD { timestamps := [] }

/-- The columns of a slot after a frame; a frame with another number of columns leaves them. -/
def appendColumns (old incoming : List (DataColumn V)) : List (DataColumn V) :=
  if old.isEmpty then incoming
  else if old.length = incoming.length then
    List.zipWith (fun c d => { c with values := appendValues c.values d.values }) old incoming
  else old

/-- A frame at the end of the slot of its source. -/
def InputBuffer.addFrame (b : InputBuffer V) (source : String) (frame : DataBatch V) :
    InputBuffer V :=
  let slot := b.slot source
  let slot :=
    { slot with
      columns := appendColumns slot.columns frame.columns
      timestamps := slot.timestamps ++ frame.timestamps }
  { b with slots := put b.slots source (trimOldestSamples b.maxDepth slot) }

/-- `ingest`. -/
def InputBuffer.ingest (b : InputBuffer V) (source : String) (payload : TimeSeriesPayload V) :
    InputBuffer V :=
  if !b.requiredSources.isEmpty && !b.requiredSources.contains source then b
  else
    let b :=
      if b.requiredSources.isEmpty then { b with seenSources := b.seenSources.insert source } else b
    match payload.frames.getLast? with
    | none => b
    | some last =>
      let b :=
        match b.alignment with
        | .latestValue => { b with slots := put b.slots source (trimOldestSamples b.maxDepth last) }
        | .allUpdated | .interpolate =>
          payload.frames.foldl (fun b frame => b.addFrame source frame) b
      { b with fresh := b.fresh.insert source }

/-! ## 4. Snapshots -/

/-- `AlignedSnapshot`. -/
structure AlignedSnapshot (V : Type) where
  channels : List (String × DataBatch V)
  referenceTime : TimestampEntry

/-- `timestampToNanoseconds`, in 64 bits. -/
def timestampToNanoseconds (ts : TimestampEntry) : Nat :=
  (ts.epochSeconds * 1000000000 + ts.nanoseconds) % 2 ^ 64

/-- `maxReferenceTime`: the last of the latest timestamps that is not below the best before it. -/
def maxReferenceTime (slots : List (String × DataBatch V)) : TimestampEntry :=
  (slots.foldl (fun best slot =>
      match slot.2.timestamps.getLast? with
      | none => best
      | some latest =>
        let value := timestampToNanoseconds latest
        if best.1 ≤ value then (value, latest) else best)
    (0, ⟨0, 0⟩)).2

/-- `trySnapshot`. -/
def InputBuffer.trySnapshot (b : InputBuffer V) (trigger : TriggerPolicy) :
    Option (AlignedSnapshot V) :=
  let needed :=
    if b.requiredSources.isEmpty then b.seenSources.length else b.requiredSources.length
  if trigger = .allUpdated ∧ b.fresh.length ≠ needed then none
  else some { channels := b.slots, referenceTime := maxReferenceTime b.slots }

def InputBuffer.resetFreshFlags (b : InputBuffer V) : InputBuffer V := { b with fresh := [] }

/-- `clear`. -/
def InputBuffer.clear (b : InputBuffer V) : InputBuffer V :=
  { b with slots := [], fresh := [], seenSources := [] }

/-- Nothing is buffered. -/
structure InputBuffer.Empty (b : InputBuffer V) : Prop where
  slots : b.slots = []
  fresh : b.fresh = []
  seenSources : b.seenSources = []

theorem InputBuffer.empty_clear (b : InputBuffer V) : b.clear.Empty := ⟨rfl, rfl, rfl⟩

end MldpDriver.Processor
