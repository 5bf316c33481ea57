/-
# The HDF5 writer, for tables

A tabular batch carries columns of a table whose rows are keyed by timestamps.  The columns arrive
in several frames, so the writer keeps a buffer for each source: the open ROUND, which is the
timestamps of the frame that opened it and what arrived of each column since.  A frame with another
first timestamp flushes the round and opens the next; an end-of-batch marker flushes it too.  The
first flush locks the columns.

A flush appends one row for each timestamp of the round to the group of the source: to
`secondsPastEpoch` and `nanoseconds`, and to the dataset of every column.

What the queue in front of the writer loses is not looked at here: `supplied` is what the worker was
handed.  Names that HDF5 would resolve as paths are outside the model.
-/
import MldpDriver.Writer.HDF5Writer

namespace MldpDriver.Writer

open Bus Lib.AppendTable

variable {V : Type}

/-! ## 1. Cells -/

/-- `FieldType`: the types of tabular columns. -/
inductive FieldType
  | float64
  | float32
  | int32
  | int64
  | bool
  deriving DecidableEq

/-- A value as a frame supplies it. -/
inductive SuppliedValue (V : Type)
  | scalar (value : V)
  | array (values : List V)
  | enum (index : Int)
  deriving DecidableEq

/-- A supplied value and the timestamp it was sampled at. -/
structure Sample (V : Type) where
  time : Option TimestampEntry
  value : SuppliedValue V
  deriving DecidableEq

/-- A cell of a dataset with the sample it stores; times and fill values store none. -/
structure TabularCell (V : Type) where
  value : V
  sample : Option (Sample V) := none
  deriving DecidableEq

abbrev TabularGroup (V : Type) := Table String FieldType (TabularCell V)

/-- What the writer relies on of the HDF5 library and of the representation of values. -/
structure TabularHdf5 (V : Type) where
  /-- A 64-bit integer as a stored value. -/
  int64 : Int → V
  /-- A boolean as a byte. -/
  uint8 : V → V
  /-- `fillValue`. -/
  fillValue : FieldType → V
  /-- A write into a dataset of another type: what it leaves, and whether it succeeds. -/
  mismatch : Dataset FieldType (TabularCell V) → Chunk String FieldType (TabularCell V) →
    Dataset FieldType (TabularCell V) × Bool

/-- The type of the tabular column for values; none for the types the tabular path skips. -/
def fieldType : ColumnValues V → Option FieldType
  | .scalar .double _ => some .float64
  | .scalar .float _ => some .float32
  | .scalar .int32 _ => some .int32
  | .scalar .int64 _ => some .int64
  | .scalar .bool _ => some .bool
  | .scalar .string _ => none
  | .bytes _ => none
  | .array _ _ => none

/-- The values of a column as supplied. -/
def suppliedValues : ColumnValues V → List (SuppliedValue V)
  | .scalar _ values => values.map .scalar
  | .bytes values => values.map .array
  | .array _ values => values.map .array

/-- The values of a scalar column. -/
def scalarValues : ColumnValues V → List V
  | .scalar _ values => values
  | .bytes _ => []
  | .array _ _ => []

/-- What is stored of a scalar. -/
def storedValue (lib : TabularHdf5 V) : FieldType → V → V
  | .bool, value => lib.uint8 value
  | _, value => value

/-- Values with their timestamps; value `k` of a frame is at timestamp `k`. -/
def samplesOf (timestamps : List TimestampEntry) (values : List (SuppliedValue V)) :
    List (Sample V) :=
  values.zipIdx.map fun value => ⟨timestamps[value.2]?, value.1⟩

/-- The cells that store a scalar column. -/
def cellsOf (lib : TabularHdf5 V) (type : FieldType) (timestamps : List TimestampEntry)
    (values : List V) : List (TabularCell V) :=
  values.zipIdx.map fun value =>
    ⟨storedValue lib type value.1, some ⟨timestamps[value.2]?, .scalar value.1⟩⟩

/-! ## 2. The buffer of a source -/

/-- A column of the buffer; its name, its type and what arrived in the open round. -/
structure TabularColumn (V : Type) where
  name : String
  type : FieldType
  cells : List (TabularCell V) := []

/-- `TabularBuffer`. -/
structure TabularBuffer (V : Type) where
  schemaFixed : Bool := false
  columns : List (TabularColumn V) := []
  times : List TimestampEntry := []
  rowCount : Nat := 0
  roundFirstTs : Int := -1

/-- Fill values. -/
def fillCells (lib : TabularHdf5 V) (type : FieldType) (n : Nat) : List (TabularCell V) :=
  List.replicate n ⟨lib.fillValue type, none⟩

/-- Fill in front up to the row count, then append. -/
def TabularColumn.push (lib : TabularHdf5 V) (rowCount : Nat) (cells : List (TabularCell V))
    (c : TabularColumn V) : TabularColumn V :=
  { c with cells :=
      c.cells ++ fillCells lib c.type (rowCount - (c.cells.length + cells.length)) ++ cells }

def TabularBuffer.hasColumn (buf : TabularBuffer V) (name : String) : Bool :=
  buf.columns.any fun c => c.name == name

/-- One column of a frame; `false` says that it threw. -/
def TabularBuffer.accumulateColumn (lib : TabularHdf5 V) (timestamps : List TimestampEntry)
    (buf : TabularBuffer V) (col : DataColumn V) : TabularBuffer V × Bool :=
  if col.name = "" then (buf, true)
  -- an unknown column after the schema is locked: skipped with a warning
  else if buf.schemaFixed && !buf.hasColumn col.name then (buf, true)
  else
    match fieldType col.values with
    -- a type the tabular path does not support: skipped with a warning
    | none => (buf, true)
    | some type =>
      if (scalarValues col.values).isEmpty then (buf, true)
      else
        let columns := if buf.hasColumn col.name then buf.columns
          else buf.columns ++ [{ name := col.name, type := type }]
        let cells := cellsOf lib type timestamps (scalarValues col.values)
        -- `std::get` of another alternative throws
        if columns.all (fun c => c.name != col.name || c.type == type) then
          ({ buf with columns := columns.map fun c =>
              if c.name = col.name then c.push lib buf.rowCount cells else c }, true)
        else (buf, false)

/-- The columns of a frame, up to one that throws. -/
def TabularBuffer.accumulateColumns (lib : TabularHdf5 V) (timestamps : List TimestampEntry) :
    List (DataColumn V) → TabularBuffer V → TabularBuffer V × Bool
  | [], buf => (buf, true)
  | col :: cols, buf =>
    match buf.accumulateColumn lib timestamps col with
    | (buf, true) => accumulateColumns lib timestamps cols buf
    | (buf, false) => (buf, false)

/-- The first timestamp of a frame in nanoseconds, -1 without one. -/
def frameFirstTs (frame : DataBatch V) : Int :=
  match frame.timestamps with
  | [] => -1
  | ts :: _ => frameNanoseconds ts

/-- The frame ends the open round. -/
def TabularBuffer.closesRound (buf : TabularBuffer V) (frame : DataBatch V) : Bool :=
  0 < buf.rowCount && frameFirstTs frame != -1 && frameFirstTs frame != buf.roundFirstTs

/-- Open a round with the timestamps of a frame, unless one is open. -/
def TabularBuffer.openRound (buf : TabularBuffer V) (frame : DataBatch V) : TabularBuffer V :=
  if buf.rowCount = 0 ∧ frame.timestamps ≠ [] then
    { buf with
      times := buf.times ++ frame.timestamps
      rowCount := frame.timestamps.length
      roundFirstTs := frameFirstTs frame }
  else buf

/-! ## 3. The flush -/

/-- The time datasets. -/
def secondsChunk (lib : TabularHdf5 V) (times : List TimestampEntry) :
    Chunk String FieldType (TabularCell V) :=
  ⟨"secondsPastEpoch", .int64, times.map fun ts =>
    ⟨lib.int64 ((ts.epochSeconds : Int).bmod (2 ^ 64)), none⟩⟩

def nanosecondsChunk (lib : TabularHdf5 V) (times : List TimestampEntry) :
    Chunk String FieldType (TabularCell V) :=
  ⟨"nanoseconds", .int64, times.map fun ts =>
    ⟨lib.int64 ((ts.nanoseconds : Int).bmod (2 ^ 64)), none⟩⟩

/-- Fill up to the row count. -/
def TabularColumn.fill (lib : TabularHdf5 V) (nRows : Nat) (c : TabularColumn V) :
    TabularColumn V :=
  { c with cells := c.cells ++ fillCells lib c.type (nRows - c.cells.length) }

/-- The rows of a column that are appended. -/
def TabularColumn.chunk (nRows : Nat) (c : TabularColumn V) :
    Chunk String FieldType (TabularCell V) :=
  ⟨c.name, c.type, c.cells.take nRows⟩

/-- The loop over the columns, up to a write that fails. -/
def flushColumns (lib : TabularHdf5 V) (nRows : Nat) (group : TabularGroup V) :
    List (TabularColumn V) → TabularGroup V × List (TabularColumn V) × Bool
  | [] => (group, [], true)
  | c :: cs =>
    let c := c.fill lib nRows
    match appendChunk lib.mismatch group (c.chunk nRows) with
    | (group, true) =>
      let (group, cs, ok) := flushColumns lib nRows group cs
      (group, c :: cs, ok)
    | (group, false) => (group, c :: cs, false)

/-- `std::vector::resize` of the times. -/
def resizeTimes (times : List TimestampEntry) (nRows : Nat) : List TimestampEntry :=
  (times ++ List.replicate (nRows - times.length) (TimestampEntry.mk 0 0)).take nRows

/-- `flushTabularBuffer`; `false` says that it threw. -/
def TabularBuffer.flush (lib : TabularHdf5 V) (buf : TabularBuffer V) (group : TabularGroup V) :
    TabularGroup V × TabularBuffer V × Bool :=
  if buf.rowCount = 0 then (group, buf, true)
  else if buf.columns.isEmpty then (group, { buf with schemaFixed := true, rowCount := 0 }, true)
  else
    let times := resizeTimes buf.times buf.rowCount
    match appendAll lib.mismatch group [secondsChunk lib times, nanosecondsChunk lib times] with
    | (group, false) => (group, { buf with schemaFixed := true, times }, false)
    | (group, true) =>
      match flushColumns lib buf.rowCount group buf.columns with
      | (group, columns, false) => (group, { buf with schemaFixed := true, times, columns }, false)
      | (group, columns, true) =>
        (group,
          { schemaFixed := true, columns := columns.map fun c => { c with cells := [] } }, true)

/-! ## 4. The writer -/

/-- A value handed to the worker: source, column and sample. -/
structure Supplied (V : Type) where
  source : String
  column : String
  sample : Sample V

/-- The writer: its files, the buffers of the sources, the frames left of the batch at work, and
everything the worker was handed so far. -/
structure TabularWriter (V : Type) where
  files : H5Files FieldType (TabularCell V) := {}
  tabularBuffers : String → TabularBuffer V := fun _ => {}
  work : List (String × DataBatch V) := []
  supplied : List (Supplied V) := []
  stopped : Bool := false

/-- The values of a frame. -/
def frameSupplied (source : String) (frame : DataBatch V) : List (Supplied V) :=
  (frame.columns.flatMap fun c =>
    (samplesOf frame.timestamps (suppliedValues c.values)).map fun s => ⟨source, c.name, s⟩) ++
  frame.enumColumns.flatMap fun c =>
    (samplesOf frame.timestamps (c.values.map .enum)).map fun s => ⟨source, c.name, s⟩

/-- The names of the groups and datasets a flush writes to are links. -/
def TabularBuffer.plain (source : String) (buf : TabularBuffer V) : Bool :=
  plainName source && buf.columns.all fun c => plainName c.name

/-- `flushTabularBufferImpl`: the file may be rotated first (`due`). -/
def TabularWriter.flush (lib : TabularHdf5 V) (mode : HDF5Mode) (source : String) (due : Bool)
    (w : TabularWriter V) : Option (TabularWriter V × Bool) :=
  let files := if due then w.files.rotate mode source else w.files
  let buf := w.tabularBuffers source
  if buf.plain source then
    let (group, buf, ok) := buf.flush lib (files.current source)
    some ({ w with
      files := { files with current := Function.update files.current source group }
      tabularBuffers := Function.update w.tabularBuffers source buf }, ok)
  else none

/-- The part of `accumulateTabularFrame` after the flush. -/
def TabularWriter.accumulate (lib : TabularHdf5 V) (source : String) (frame : DataBatch V)
    (w : TabularWriter V) : TabularWriter V × Bool :=
  let (buf, ok) := ((w.tabularBuffers source).openRound frame).accumulateColumns lib
    frame.timestamps frame.columns
  ({ w with tabularBuffers := Function.update w.tabularBuffers source buf }, ok)

/-- `accumulateTabularFrame`. -/
def TabularWriter.accumulateTabularFrame (lib : TabularHdf5 V) (mode : HDF5Mode) (source : String)
    (frame : DataBatch V) (due : Bool) (w : TabularWriter V) :
    Option (TabularWriter V × Bool) :=
  if (w.tabularBuffers source).closesRound frame then
    match w.flush lib mode source due with
    | none => none
    | some (w, false) => some (w, false)
    | some (w, true) => some (w.accumulate lib source frame)
  else some (w.accumulate lib source frame)

inductive TabularAction (V : Type)
  /-- The worker takes a tabular batch. -/
  | batch (source : String) (frames : List (DataBatch V))
  /-- It accumulates the next frame of its batch. -/
  | frame (due : Bool)
  /-- It takes an end-of-batch marker, whose frames it ignores. -/
  | endOfBatch (source : String) (frames : List (DataBatch V)) (due : Bool)
  /-- `doFlushAll` of the flush thread: HDF5 writes its own buffers to disk. -/
  | flushAll
  /-- `onHDF5Stop`, after the worker has ended. -/
  | stop

/-- One step of the writer. -/
def TabularWriter.step (lib : TabularHdf5 V) (mode : HDF5Mode) (w : TabularWriter V) :
    TabularAction V → Option (TabularWriter V)
  | .batch source frames =>
    if w.stopped || !w.work.isEmpty then none
    else some { w with
      work := frames.map fun frame => (source, frame)
      supplied := w.supplied ++ frames.flatMap (frameSupplied source) }
  | .frame due =>
    match w.work with
    | [] => none
    | (source, frame) :: rest =>
      match w.accumulateTabularFrame lib mode source frame due with
      | none => none
      -- an exception ends the batch
      | some (w, false) => some { w with work := [] }
      | some (w, true) => some { w with work := rest }
  | .endOfBatch source frames due =>
    if w.stopped || !w.work.isEmpty then none
    else
      let w := { w with supplied := w.supplied ++ frames.flatMap (frameSupplied source) }
      if 0 < (w.tabularBuffers source).rowCount then (w.flush lib mode source due).map Prod.fst
      else some w
  | .flushAll => some w
  | .stop => if w.stopped || !w.work.isEmpty then none else some { w with stopped := true }

end MldpDriver.Writer
