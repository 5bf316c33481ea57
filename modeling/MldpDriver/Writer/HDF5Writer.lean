/-
# The HDF5 writer, for time series

The HDF5 writer appends the frames of a batch to datasets: one group a source, in it a dataset
`timestamps` and one dataset a column.  With one file per source the group is the root of the
source's file; a merged file has one group a source.  Before a frame is appended the file may be
ROTATED: closed, and a new one opened.

The timestamps of a batch are written ONCE per source (`lastTsBatchSeq_`): a batch may be split into
several frames that hold different columns of the same samples.  The columns are written frame by
frame.
-/
import Mathlib.Algebra.Group.Int.Defs
import Mathlib.Algebra.Group.Nat.Defs
import MldpDriver.Bus.DataBatch
import MldpDriver.Lib.AppendTable

namespace MldpDriver.Writer

open Bus Lib.AppendTable

variable {V : Type}

/-! ## 1. Datasets

The HDF5 library is a parameter (`Hdf5`) as far as it matters: what a write into a dataset of
another type does, and what it reads from a buffer of booleans.  Names that HDF5 would resolve as
paths and arrays that end before the buffer does are outside the model (`Written.undefined`). -/

/-- One stored row: a value, or a row of a two-dimensional dataset. -/
inductive StoredCell (V : Type)
  | one (value : V)
  | row (values : List V)
  deriving DecidableEq

/-- The type of a dataset; an array dataset is as wide as its first array. -/
inductive H5Type
  | scalar (kind : ScalarKind)
  | uint8Array (width : Nat)
  | array (kind : ArrayKind) (width : Nat)
  deriving DecidableEq

/-- A row with where it comes from: the sampled value, and the timestamp it was sampled at. -/
structure StoredRow (V : Type) where
  cell : StoredCell V
  sampled : StoredCell V
  time : Option TimestampEntry

abbrev H5Dataset (V : Type) := Dataset H5Type (StoredRow V)

abbrev H5Chunk (V : Type) := Chunk String H5Type (StoredRow V)

/-- A group: its datasets by name. -/
abbrev H5Group (V : Type) := Table String H5Type (StoredRow V)

/-- What the writer relies on of the HDF5 library. -/
structure Hdf5 (V : Type) where
  /-- A 64-bit integer as a stored value. -/
  int64 : Int → V
  /-- What is read as booleans from a buffer of `unsigned int`s. -/
  hbool : List V → List V
  hbool_length : ∀ values, (hbool values).length = values.length
  /-- A write into a dataset of another type: what it leaves, and whether it succeeds. -/
  mismatch : H5Dataset V → H5Chunk V → H5Dataset V × Bool

/-! ## 2. The columns of a frame -/

/-- A name that is one link of a path. -/
def plainName (name : String) : Bool := name != "" && !name.toList.contains '/' && name != "."

/-- The rows of an array column: the flattened values cut at the width of the first array; `none`
when that reads past the buffer. -/
def arrayRows (type : Nat → H5Type) (store : List V → List V) (values : List (List V)) :
    Option (Option (H5Type × List (StoredCell V))) :=
  match values with
  | [] => some none
  | first :: _ =>
    if first.isEmpty then some none
    else
      let flat := store values.flatten
      if values.length * first.length ≤ flat.length then
        some (some (type first.length, (List.range values.length).map fun k =>
          .row ((flat.drop (k * first.length)).take first.length)))
      else none

/-- The visit of a column in `writeColumnsImpl`: the type of its dataset and its rows, nothing for a
column without values. -/
def columnRows (lib : Hdf5 V) : ColumnValues V → Option (Option (H5Type × List (StoredCell V)))
  | .scalar kind values =>
    if values.isEmpty then some none
    else some (some (.scalar kind, ((if kind = .bool then lib.hbool values else values).map .one)))
  | .bytes values => arrayRows .uint8Array id values
  | .array kind values =>
    arrayRows (.array kind) (if kind = .bool then lib.hbool else id) values

/-- The sampled values of a column, one for each timestamp. -/
def sampledCells : ColumnValues V → List (StoredCell V)
  | .scalar _ values => values.map .one
  | .bytes values => values.map .row
  | .array _ values => values.map .row

/-- The rows with their samples; sample `k` of a frame is at timestamp `k`. -/
def traceRows (timestamps : List TimestampEntry) (cells sampled : List (StoredCell V)) :
    List (StoredRow V) :=
  (cells.zip sampled).zipIdx.map fun row => ⟨row.1.1, row.1.2, timestamps[row.2]?⟩

/-- The chunk of a column; none for a column without name or values. -/
def columnChunk (lib : Hdf5 V) (timestamps : List TimestampEntry) (col : DataColumn V) :
    Option (List (H5Chunk V)) :=
  if col.name = "" then some []
  else if plainName col.name then
    (columnRows lib col.values).map fun written =>
      match written with
      | none => []
      | some (type, cells) =>
        [⟨col.name, type, traceRows timestamps cells (sampledCells col.values)⟩]
  else none

/-- `writeColumnsImpl`: the chunks of a frame's columns; enum columns are not written. -/
def frameChunks (lib : Hdf5 V) (frame : DataBatch V) : Option (List (H5Chunk V)) :=
  (frame.columns.mapM (columnChunk lib frame.timestamps)).map List.flatten

/-- The nanoseconds the `timestamps` dataset holds. -/
def frameNanoseconds (ts : TimestampEntry) : Int :=
  ((ts.epochSeconds : Int) * 1000000000 + ts.nanoseconds).bmod (2 ^ 64)

/-- The chunk of the `timestamps` dataset. -/
def timestampChunk (lib : Hdf5 V) (timestamps : List TimestampEntry) : H5Chunk V :=
  ⟨"timestamps", .scalar .int64, timestamps.map fun ts =>
    ⟨.one (lib.int64 (frameNanoseconds ts)), .one (lib.int64 (frameNanoseconds ts)), some ts⟩⟩

/-! ## 3. The files -/

inductive HDF5Mode
  | perSource
  | merge
  deriving DecidableEq

/-- The files of a writer: what is open now, and the closed files.  A file has a group for each
source. -/
structure H5Files (T R : Type) where
  current : String → Table String T R := fun _ _ => none
  closed : List (String → Table String T R) := []

/-- Close the file of a source and open a new one: its own, or the merged file of all sources. -/
def H5Files.rotate {T R : Type} (s : H5Files T R) (mode : HDF5Mode) (source : String) :
    H5Files T R :=
  match mode with
  | .perSource =>
    { current := Function.update s.current source fun _ => none
      closed := s.closed ++ [Function.update (fun _ _ => none) source (s.current source)] }
  | .merge => { current := fun _ _ => none, closed := s.closed ++ [s.current] }

/-- A file of time series: its groups by source. -/
abbrev H5File (V : Type) := String → H5Group V

/-- The files of the writer, and the batch whose timestamps a source wrote last. -/
structure HDF5Files (V : Type) extends H5Files H5Type (StoredRow V) where
  lastTsBatchSeq : String → Option Nat := fun _ => none

def HDF5Files.rotate (s : HDF5Files V) (mode : HDF5Mode) (source : String) : HDF5Files V :=
  { s with toH5Files := s.toH5Files.rotate mode source }

/-- The outcome of a write; after an exception the rest of the batch is dropped. -/
inductive Written (σ : Type)
  | done (s : σ)
  | threw (s : σ)
  | undefined

/-- `appendFrame` and `appendFrameMerge`, from the look at `lastTsBatchSeq_` on. -/
def HDF5Files.append (lib : Hdf5 V) (source : String) (batchSeq : Nat) (frame : DataBatch V)
    (s : HDF5Files V) : Written (HDF5Files V) :=
  match frameChunks lib frame with
  | none => .undefined
  | some chunks =>
    let times := if s.lastTsBatchSeq source = some batchSeq then []
      else [timestampChunk lib frame.timestamps]
    match appendAll lib.mismatch (s.current source) times with
    | (group, false) => .threw { s with current := Function.update s.current source group }
    | (group, true) =>
      let lastTsBatchSeq := Function.update s.lastTsBatchSeq source (some batchSeq)
      match appendAll lib.mismatch group chunks with
      | (group, true) =>
        .done { s with current := Function.update s.current source group, lastTsBatchSeq }
      | (group, false) =>
        .threw { s with current := Function.update s.current source group, lastTsBatchSeq }

/-- A frame is looked at and its file is due for rotation.  With a file per source the rotation
comes before the check for timestamps, with a merged file after it. -/
def rotates (mode : HDF5Mode) (frame : DataBatch V) (due : Bool) : Bool :=
  due && (mode == .perSource || !frame.timestamps.isEmpty)

/-- `writeFrameImpl`; `due` says that the file is old or large enough to be rotated. -/
def HDF5Files.writeFrame (lib : Hdf5 V) (mode : HDF5Mode) (source : String) (batchSeq : Nat)
    (frame : DataBatch V) (due : Bool) (s : HDF5Files V) : Written (HDF5Files V) :=
  let s := if rotates mode frame due then s.rotate mode source else s
  if frame.timestamps.isEmpty then .done s
  -- the group of a merged file is named after the source
  else if mode = .merge ∧ plainName source = false then .undefined
  else s.append lib source batchSeq frame

/-- The loop of `processItem` over the frames of a batch. -/
def HDF5Files.writeFrames (lib : Hdf5 V) (mode : HDF5Mode) (source : String) (batchSeq : Nat) :
    List (DataBatch V × Bool) → HDF5Files V → Written (HDF5Files V)
  | [], s => .done s
  | (frame, due) :: rest, s =>
    match s.writeFrame lib mode source batchSeq frame due with
    | .done s => s.writeFrames lib mode source batchSeq rest
    | .threw s => .threw s
    | .undefined => .undefined

/-! ## 4. The writer -/

/-- `HDF5QueueItem`, for a batch that is not tabular. -/
structure HDF5QueueItem (V : Type) where
  batchSeq : Nat
  source : String
  frames : List (DataBatch V)

/-- The writer: its files, the queue and the next batch number. -/
structure HDF5Writer (V : Type) where
  files : HDF5Files V := {}
  queue : List (HDF5QueueItem V) := []
  nextBatchSeq : Nat := 0

inductive HDF5Action (V : Type)
  /-- A batch is pushed; it gets its number. -/
  | push (source : String) (frames : List (DataBatch V))
  /-- The worker takes the item at a position and writes its frames; `due` holds for each frame
  whether the file is due for rotation. -/
  | process (position : Nat) (due : List Bool)
  /-- An item is not written: the queue was full, the writer was stopped by force, or the batch is
  an end marker, whose frames are ignored. -/
  | drop (position : Nat)

/-- One step of the writer. -/
def HDF5Writer.step (lib : Hdf5 V) (mode : HDF5Mode) (w : HDF5Writer V) :
    HDF5Action V → Option (HDF5Writer V)
  | .push source frames =>
    some { w with
      queue := w.queue ++ [⟨w.nextBatchSeq, source, frames⟩], nextBatchSeq := w.nextBatchSeq + 1 }
  | .process position due => do
    let item ← w.queue[position]?
    if due.length = item.frames.length then
      match w.files.writeFrames lib mode item.source item.batchSeq (item.frames.zip due) with
      | .done files => some { w with files, queue := w.queue.eraseIdx position }
      | .threw files => some { w with files, queue := w.queue.eraseIdx position }
      | .undefined => none
    else none
  | .drop position => if position < w.queue.length then
      some { w with queue := w.queue.eraseIdx position } else none

end MldpDriver.Writer
