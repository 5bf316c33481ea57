/-
# From a column through the archive and back

The MLDP writer turns a column of an accepted batch into an ingestion data frame
(`toSingleColumnDataFrame`); the query decoder turns the stored bucket back into rows
(`decodeDataBucketsToBatch`).  With an archive that returns what it was given, the two should be
inverse to each other.

They are on the VALUES of scalar and enum columns.  Columns of byte strings and of arrays are
stored and cannot be read.  The metadata is lost for every column: the writer fills the metadata of
the typed columns, at least with the root source, and the decoder reads that of data-value columns
only, which the writer never sends.
-/
import MldpDriver.Query.MldpBidiRecordBatchStream

namespace MldpDriver.Query

open Bus Writer

variable {V : Type}

/-! ## 1. Columns the writer accepts -/

/-- A column of a frame. -/
inductive ColumnOf (frame : DataBatch V)
  | regular (index : Nat) (col : DataColumn V) (h : frame.columns[index]? = some col)
  | enum (index : Nat) (col : EnumDataColumn) (h : frame.enumColumns[index]? = some col)

/-- A column of a frame of an accepted batch. -/
structure AcceptedColumn (V : Type) where
  batch : EventBatch V
  item : QueueItem V
  item_mem : item ∈ toItems batch
  frame : DataBatch V
  frame_mem : frame ∈ item.frames
  column : ColumnOf frame

namespace AcceptedColumn

variable (c : AcceptedColumn V)

/-- The data frame of the column. -/
def dataFrame : DataFrame V :=
  match c.column with
  | .regular index _ _ =>
    toSingleColumnDataFrame {} c.frame index false c.item.rootSource c.item.metadata
  | .enum index _ _ =>
    toSingleColumnDataFrame {} c.frame index true c.item.rootSource c.item.metadata

def name : String :=
  match c.column with
  | .regular _ col _ => col.name
  | .enum _ col _ => col.name

/-- The values of the column, one by one. -/
def values : List (DataValue V) :=
  match c.column with
  | .regular _ col _ =>
    match col.values with
    | .scalar kind values => values.map (.scalar kind)
    | .bytes values => values.map .bytes
    | .array kind values => values.map (.array kind)
  | .enum _ col _ => col.values.map .intValue

/-- The metadata of the column: of the batch and of the column itself, from the root source. -/
def metadata : ColumnMetadata :=
  match c.column with
  | .regular _ col _ => { attributes := c.item.metadata ++ col.metadata, source := c.item.rootSource }
  | .enum _ _ _ => { attributes := c.item.metadata, source := c.item.rootSource }

/-- The rows of the column: PV, nanoseconds and value. -/
def samples : List (String × Int × DataValue V) :=
  ((c.frame.timestamps.map nanosecondsOf).zip c.values).map fun tv => (c.name, tv.1, tv.2)

/-- The values are single ones: scalars or enum numbers. -/
def IsScalar : Prop :=
  match c.column with
  | .regular _ col _ => ∃ kind values, col.values = .scalar kind values
  | .enum _ _ _ => True

end AcceptedColumn

/-- The buckets of a data frame: each column with the timestamps of the frame. -/
def frameBuckets (f : DataFrame V) : List (DataBucket V) :=
  f.columns.map (fun c => ⟨c.name, some (.timestampList f.timestamps), some (.typedColumn c)⟩) ++
    f.enumColumns.map fun c => ⟨c.name, some (.timestampList f.timestamps), some (.enumColumn c)⟩

namespace AcceptedColumn

variable (c : AcceptedColumn V)

/-- What the decoder makes of the stored column, without predicates. -/
def decoded : Except String (List (DecodedRow V)) :=
  decodeDataBucketsToBatch (fun _ _ _ => .ok true) (frameBuckets c.dataFrame)

/-- The rows come back, in order. -/
def RowsReturn : Prop :=
  ∃ rows, c.decoded = .ok rows ∧ rows.map (fun r => (r.pv, r.timestamp, r.value)) = c.samples

/-- The rows come back with the attributes of the metadata. -/
def AttributesReturn : Prop :=
  ∃ rows, c.decoded = .ok rows ∧ rows.map (fun r => (r.pv, r.timestamp, r.value)) = c.samples ∧
    ∀ r ∈ rows, r.metadata.attributes = c.metadata.attributes

/-- **The round trip**: the rows come back with all of the metadata. -/
def RoundTrips : Prop :=
  ∃ rows, c.decoded = .ok rows ∧ rows.map (fun r => (r.pv, r.timestamp, r.value)) = c.samples ∧
    ∀ r ∈ rows, r.metadata = c.metadata

/-- A column that can be read back. -/
structure Readable : Prop where
  named : c.name ≠ ""
  scalar : c.IsScalar
  length : c.frame.timestamps.length = c.values.length
  times : ∀ ts ∈ c.frame.timestamps, nanosecondsOf ts < 2 ^ 63

/-! ## 2. The stored bucket -/

theorem accepted : c.frame.timestamps ≠ [] ∧ c.item.rootSource ≠ "" := by
  have hmem := c.item_mem
  unfold toItems at hmem
  split at hmem
  · rename_i ts _
    split at hmem
    · simp at hmem
    · split at hmem
      · simp at hmem
      · rename_i hsource
        split at hmem
        · simp at hmem
        · rename_i frame frames hfilter
          have hitem := List.mem_singleton.mp hmem
          have hframe : c.frame ∈ frame :: frames := by
            have := c.frame_mem
            rwa [hitem] at this
          rw [← hfilter] at hframe
          refine ⟨by simpa using (List.mem_filter.mp hframe).2, ?_⟩
          rw [hitem]
          exact fun h => hsource (Or.inl h)
  · simp at hmem

/-- The protobuf column of the bucket. -/
def bucketValues : DataValues V :=
  match c.column with
  | .regular _ col _ => .typedColumn
      ⟨col.name, c.item.rootSource, c.item.metadata ++ col.metadata, frameValues c.frame col⟩
  | .enum _ col _ => .enumColumn
      ⟨col.name, c.item.rootSource, c.item.metadata, col.enumId, col.values⟩

/-- **One bucket is stored**, under the column's name with the frame's timestamps. -/
theorem frameBuckets_dataFrame : frameBuckets c.dataFrame =
    [⟨c.name, some (.timestampList c.frame.timestamps), some c.bucketValues⟩] := by
  cases hc : c.column with
  | regular index col h =>
    simp [dataFrame, name, bucketValues, hc, toSingleColumnDataFrame, h, frameBuckets]
  | enum index col h =>
    simp [dataFrame, name, bucketValues, hc, toSingleColumnDataFrame, h, frameBuckets]

/-- The decoder reads the values of a scalar column back, and none of its metadata. -/
theorem decodeValues_bucketValues (h : c.IsScalar) :
    decodeValues c.bucketValues = .ok (c.values, {}) := by
  cases hc : c.column with
  | regular index col hcol =>
    simp only [IsScalar, hc] at h
    obtain ⟨kind, values, hvalues⟩ := h
    simp [bucketValues, AcceptedColumn.values, hc, frameValues, hvalues, decodeValues]
  | enum index col hcol => simp [bucketValues, AcceptedColumn.values, hc, decodeValues]

theorem isScalar_of_decodeValues {out : List (DataValue V) × ColumnMetadata}
    (h : decodeValues c.bucketValues = .ok out) : c.IsScalar := by
  cases hc : c.column with
  | regular index col hcol =>
    have hreadable := (decodeValues_isOk _).mp ⟨out, h⟩
    simp only [bucketValues, hc, DataValues.Readable, frameValues] at hreadable
    obtain ⟨kind, values, hvalues⟩ := hreadable
    simp only [IsScalar, hc]
    split at hvalues
    · rename_i kind' values' hcol'
      exact ⟨kind', values', hcol'⟩
    · cases hvalues
    · cases hvalues
  | enum index col hcol => simp only [IsScalar, hc]

/-- **What the decoder makes of a stored column.** -/
theorem decoded_ok_iff {rows : List (DecodedRow V)} : c.decoded = .ok rows ↔
    c.name ≠ "" ∧ c.IsScalar ∧ c.frame.timestamps.length = c.values.length ∧
      rows = ((c.frame.timestamps.map timestampToNanoseconds).zip c.values).map
        fun tv => ⟨c.name, tv.1, tv.2, {}⟩ := by
  have hone : c.decoded = decodeBucket (fun _ _ _ => .ok true)
      ⟨c.name, some (.timestampList c.frame.timestamps), some c.bucketValues⟩ := by
    rw [decoded, frameBuckets_dataFrame, decodeDataBucketsToBatch, List.mapM_cons]
    cases decodeBucket (V := V) (fun _ _ _ => .ok true)
      ⟨c.name, some (.timestampList c.frame.timestamps), some c.bucketValues⟩ <;>
      simp [bind, Except.bind, pure, Except.pure]
  rw [hone, decodeBucket_ok_iff]
  constructor
  · rintro ⟨hname, times, htimes, values, hvalues, out, metadata, hdecoded, hlen, rfl⟩
    obtain rfl := Except.ok.inj htimes
    obtain rfl := Option.some.inj hvalues
    have hscalar := c.isScalar_of_decodeValues hdecoded
    rw [c.decodeValues_bucketValues hscalar] at hdecoded
    obtain ⟨rfl, rfl⟩ := Prod.mk.inj (Except.ok.inj hdecoded)
    exact ⟨hname, hscalar, by simpa using hlen, rfl⟩
  · rintro ⟨hname, hscalar, hlen, rfl⟩
    exact ⟨hname, _, rfl, _, rfl, _, _, c.decodeValues_bucketValues hscalar, by simpa using hlen, rfl⟩

/-! ## 3. The round trip -/

theorem zip_left_injective {α β : Type} {a a' : List α} {b : List β} (h : a.length = b.length)
    (h' : a'.length = b.length) (heq : a.zip b = a'.zip b) : a = a' := by
  have hfst := congrArg (List.map Prod.fst) heq
  rwa [List.map_fst_zip (Nat.le_of_eq h), List.map_fst_zip (Nat.le_of_eq h')] at hfst

theorem map_timestamps_eq_iff {l : List TimestampEntry} :
    l.map timestampToNanoseconds = l.map nanosecondsOf ↔ ∀ ts ∈ l, nanosecondsOf ts < 2 ^ 63 := by
  rw [List.map_inj_left]
  exact forall₂_congr fun ts _ => timestampToNanoseconds_eq_iff ts

/-- **The rows come back exactly for readable columns.** -/
theorem rowsReturn_iff : c.RowsReturn ↔ c.Readable := by
  have hkey : ∀ times : List Int, (((times.zip c.values).map fun tv =>
      (⟨c.name, tv.1, tv.2, {}⟩ : DecodedRow V)).map fun r => (r.pv, r.timestamp, r.value)) =
      (times.zip c.values).map fun tv => (c.name, tv.1, tv.2) := fun times => by
    simp [Function.comp_def]
  have hinj : Function.Injective fun tv : Int × DataValue V => (c.name, tv.1, tv.2) := by
    rintro ⟨t, v⟩ ⟨t', v'⟩ h
    simpa using h
  constructor
  · rintro ⟨rows, hrows, hsamples⟩
    obtain ⟨hname, hscalar, hlen, rfl⟩ := c.decoded_ok_iff.mp hrows
    rw [hkey, samples] at hsamples
    have hzip := List.map_injective_iff.mpr hinj hsamples
    exact ⟨hname, hscalar, hlen, map_timestamps_eq_iff.mp
      (zip_left_injective (by simpa using hlen) (by simpa using hlen) hzip)⟩
  · intro h
    refine ⟨_, c.decoded_ok_iff.mpr ⟨h.named, h.scalar, h.length, rfl⟩, ?_⟩
    rw [hkey, samples, map_timestamps_eq_iff.mpr h.times]

theorem decoded_ne_nil {rows : List (DecodedRow V)} (h : c.decoded = .ok rows) :
    ∃ r ∈ rows, r.metadata = {} := by
  obtain ⟨-, -, hlen, rfl⟩ := c.decoded_ok_iff.mp h
  obtain ⟨ts, times, hts⟩ := List.exists_cons_of_ne_nil c.accepted.1
  cases hv : c.values with
  | nil => simp [hts, hv] at hlen
  | cons v vs =>
    rw [hts, List.map_cons, List.zip_cons_cons, List.map_cons]
    exact ⟨_, List.mem_cons_self, rfl⟩

theorem attributesReturn_iff :
    c.AttributesReturn ↔ c.Readable ∧ c.metadata.attributes = [] := by
  constructor
  · rintro ⟨rows, hrows, hsamples, hattributes⟩
    obtain ⟨r, hr, hempty⟩ := c.decoded_ne_nil hrows
    refine ⟨c.rowsReturn_iff.mp ⟨rows, hrows, hsamples⟩, ?_⟩
    rw [← hattributes r hr, hempty]
  · rintro ⟨hreadable, hempty⟩
    obtain ⟨rows, hrows, hsamples⟩ := c.rowsReturn_iff.mpr hreadable
    refine ⟨rows, hrows, hsamples, fun r hr => ?_⟩
    obtain ⟨-, -, -, rfl⟩ := c.decoded_ok_iff.mp hrows
    obtain ⟨tv, -, rfl⟩ := List.mem_map.mp hr
    exact hempty.symm

theorem source_ne : c.metadata.source ≠ "" := by
  have hsource := c.accepted.2
  cases hc : c.column <;> simpa [metadata, hc] using hsource

theorem not_roundTrips : ¬ c.RoundTrips := by
  rintro ⟨rows, hrows, -, hmetadata⟩
  obtain ⟨r, hr, hempty⟩ := c.decoded_ne_nil hrows
  have hsource := c.source_ne
  rw [← hmetadata r hr, hempty] at hsource
  exact hsource rfl

end AcceptedColumn

/-- **No accepted column makes the round trip**: its metadata never comes back.  Leaving the
provenance aside it does so exactly when it can be read and has no attributes, and its rows alone
come back exactly when it can be read. -/
theorem column_roundTrip (c : AcceptedColumn V) :
    ¬ c.RoundTrips ∧ (c.AttributesReturn ↔ c.Readable ∧ c.metadata.attributes = []) ∧
      (c.RowsReturn ↔ c.Readable) :=
  ⟨c.not_roundTrips, c.attributesReturn_iff, c.rowsReturn_iff⟩

/-! ## 4. A column of arrays -/

/-- A frame with one timestamp and one column `W` that holds the array `[1, 2]`. -/
def waveformFrame : DataBatch Nat where
  timestamps := [⟨1, 0⟩]
  columns := [{ name := "W", values := .array .double [[1, 2]] }]

def waveformBatch : EventBatch Nat := { payload := .timeSeries ⟨"W", [waveformFrame], false, false⟩ }

def waveformColumn : AcceptedColumn Nat where
  batch := waveformBatch
  item := ⟨"W", [], [waveformFrame]⟩
  item_mem := by decide
  frame := waveformFrame
  frame_mem := by decide
  column := .regular 0 { name := "W", values := .array .double [[1, 2]] } rfl

/-- **A stored waveform cannot be read**: the decoder refuses the bucket, so neither its row nor its
metadata comes back. -/
theorem waveform_unreadable :
    waveformColumn.decoded = .error "MLDP bucket query has unsupported serialized values" ∧
      ¬ waveformColumn.RoundTrips :=
  ⟨rfl, waveformColumn.not_roundTrips⟩

end MldpDriver.Query
