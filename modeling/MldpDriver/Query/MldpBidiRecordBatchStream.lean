/-
# Decoding data buckets

`decodeDataBucketsToBatch` turns the buckets of a query answer into rows of PV, time, value and
column metadata.  A bucket holds its timestamps (a list, or a clock) and one column; the decoder
handles a column of data values and the scalar and enum columns, and refuses every other kind.  The
metadata of a row is that of a column of data values; of a typed column it is left empty.

The protobuf columns are those the ingestion side builds (`FrameColumn`, `EnumFrameColumn`).  The
two predicate checks on a bucket are a parameter.
-/
import MldpDriver.Writer.MLDPWriter

namespace MldpDriver.Query

open Bus Writer

variable {V : Type}

/-! ## 1. Buckets -/

/-- `dp::service::common::ColumnMetadata`; the provenance is its source and its process. -/
structure ColumnMetadata where
  tags : List String := []
  attributes : List (String × String) := []
  source : String := ""
  process : String := ""
  deriving DecidableEq

/-- `dp::service::common::DataValue`.  An array is its elements, a structure or an image its
bytes. -/
inductive DataValue (V : Type)
  | scalar (kind : ScalarKind) (value : V)
  | intValue (value : Int)
  | bytes (value : List V)
  | array (kind : ArrayKind) (values : List V)
  deriving DecidableEq

inductive DataTimestamps
  | timestampList (timestamps : List TimestampEntry)
  | samplingClock (startTime : Option TimestampEntry) (count : Nat) (periodNanos : Nat)
  | notSet

/-- The column of a bucket. -/
inductive DataValues (V : Type)
  | dataColumn (values : List (DataValue V)) (metadata : ColumnMetadata)
  | typedColumn (column : FrameColumn V)
  | enumColumn (column : EnumFrameColumn)

structure DataBucket (V : Type) where
  pvName : String
  dataTimestamps : Option DataTimestamps
  dataValues : Option (DataValues V)

/-! ## 2. Decoding -/

/-- An `int64_t` result.  Overflow is undefined in C++; it wraps here. -/
def wrap64 (n : Int) : Int := n.bmod (2 ^ 64)

def timestampToNanoseconds (ts : TimestampEntry) : Int :=
  wrap64 (wrap64 ts.epochSeconds * 1000000000 + wrap64 ts.nanoseconds)

def bucketTimestamps : Option DataTimestamps → Except String (List Int)
  | none => .error "MLDP queryDataBidiStream bucket has no timestamps"
  | some (.timestampList timestamps) => .ok (timestamps.map timestampToNanoseconds)
  | some (.samplingClock none _ _) =>
    .error "MLDP queryDataBidiStream sampling clock has no start time"
  | some (.samplingClock (some start) count period) =>
    .ok ((List.range count).map fun index =>
      wrap64 (timestampToNanoseconds start + wrap64 (index * wrap64 period)))
  | some .notSet => .error "MLDP queryDataBidiStream bucket has unsupported timestamps"

/-- The values of a bucket, and the metadata its rows get. -/
def decodeValues : DataValues V → Except String (List (DataValue V) × ColumnMetadata)
  | .dataColumn values metadata => .ok (values, metadata)
  | .typedColumn ⟨_, _, _, .scalar kind values⟩ => .ok (values.map (.scalar kind), {})
  | .typedColumn _ => .error "MLDP bucket query has unsupported serialized values"
  | .enumColumn column => .ok (column.values.map .intValue, {})

structure DecodedRow (V : Type) where
  pv : String
  timestamp : Int
  value : DataValue V
  metadata : ColumnMetadata

/-- The checks of a bucket against the column predicates. -/
abbrev BucketCheck (V : Type) :=
  String → ColumnMetadata → List (DataValue V) → Except String Bool

/-- One turn of the loop over the buckets. -/
def decodeBucket (check : BucketCheck V) (bucket : DataBucket V) :
    Except String (List (DecodedRow V)) := do
  if bucket.pvName = "" then .error "MLDP bucket query has no PV name"
  let timestamps ← bucketTimestamps bucket.dataTimestamps
  match bucket.dataValues with
  | none => .error "MLDP bucket query has no values"
  | some values => do
    let (decoded, metadata) ← decodeValues values
    if timestamps.length ≠ decoded.length then
      .error ("MLDP bucket query timestamp/value cardinality mismatch for '" ++ bucket.pvName ++ "'")
    else do
      let kept ← check bucket.pvName metadata decoded
      if kept then
        .ok ((timestamps.zip decoded).map fun tv => ⟨bucket.pvName, tv.1, tv.2, metadata⟩)
      else .ok []

/-- `decodeDataBucketsToBatch`: the rows of the batch, in order. -/
def decodeDataBucketsToBatch (check : BucketCheck V) (buckets : List (DataBucket V)) :
    Except String (List (DecodedRow V)) := do
  let rows ← buckets.mapM (decodeBucket check)
  .ok rows.flatten

/-! ## 3. What is decoded -/

/-- The kinds of columns the decoder reads. -/
def DataValues.Readable : DataValues V → Prop
  | .typedColumn column => ∃ kind values, column.values = .scalar kind values
  | _ => True

theorem decodeValues_isOk (values : DataValues V) :
    (∃ out, decodeValues values = .ok out) ↔ values.Readable := by
  cases values with
  | dataColumn => simp [decodeValues, DataValues.Readable]
  | enumColumn => simp [decodeValues, DataValues.Readable]
  | typedColumn c =>
    obtain ⟨name, source, attributes, values⟩ := c
    cases values <;> simp [decodeValues, DataValues.Readable]

/-- **When a bucket decodes**, and to what: it has a name, timestamps and a readable column, and as
many timestamps as values. -/
theorem decodeBucket_ok_iff {bucket : DataBucket V} {rows : List (DecodedRow V)} :
    decodeBucket (fun _ _ _ => .ok true) bucket = .ok rows ↔
      bucket.pvName ≠ "" ∧ ∃ timestamps, bucketTimestamps bucket.dataTimestamps = .ok timestamps ∧
        ∃ values, bucket.dataValues = some values ∧ ∃ decoded metadata,
          decodeValues values = .ok (decoded, metadata) ∧ timestamps.length = decoded.length ∧
            rows = (timestamps.zip decoded).map fun tv => ⟨bucket.pvName, tv.1, tv.2, metadata⟩ := by
  by_cases hname : bucket.pvName = ""
  · simp [decodeBucket, hname, bind, Except.bind]
  cases htime : bucketTimestamps bucket.dataTimestamps with
  | error e => simp [decodeBucket, hname, htime, bind, Except.bind]
  | ok timestamps =>
    cases hvalues : bucket.dataValues with
    | none => simp [decodeBucket, hname, htime, hvalues, bind, Except.bind]
    | some values =>
      cases hdecoded : decodeValues values with
      | error e =>
        simp [decodeBucket, hname, htime, hvalues, hdecoded, bind, Except.bind]
      | ok out =>
        obtain ⟨decoded, metadata⟩ := out
        by_cases hlen : timestamps.length = decoded.length
        · simp [decodeBucket, hname, htime, hvalues, hdecoded, hlen, bind, Except.bind,
            eq_comm]
        · simp [decodeBucket, hname, htime, hvalues, hdecoded, hlen, bind, Except.bind]

/-- The nanoseconds of a timestamp, without wrapping. -/
def nanosecondsOf (ts : TimestampEntry) : Int := ts.epochSeconds * 1000000000 + ts.nanoseconds

/-- **A timestamp is decoded as it was written exactly when its nanoseconds fit 63 bits.** -/
theorem timestampToNanoseconds_eq_iff (ts : TimestampEntry) :
    timestampToNanoseconds ts = nanosecondsOf ts ↔ nanosecondsOf ts < 2 ^ 63 := by
  have hwrap : timestampToNanoseconds ts = wrap64 (nanosecondsOf ts) := by
    simp only [timestampToNanoseconds, nanosecondsOf, wrap64, Int.add_bmod_bmod]
    rw [← Int.bmod_add_bmod, Int.bmod_mul_bmod, Int.bmod_add_bmod]
  have hpos : 0 ≤ nanosecondsOf ts := by
    unfold nanosecondsOf
    omega
  rw [hwrap, wrap64]
  constructor
  · intro h
    have := Int.bmod_lt (x := nanosecondsOf ts) (m := 2 ^ 64) (by decide)
    omega
  · intro h
    exact Int.bmod_eq_of_le (by omega) (by omega)

end MldpDriver.Query
