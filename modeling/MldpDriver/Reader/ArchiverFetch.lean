/-
# A fetch of the archiver reader

A worker of the archiver reader fetches the samples of a PV as a stream of lines.  The first line
of a CHUNK is its header, the lines up to an empty line are its samples.  A sample goes into the
pending batch of the PV named in the header, or, where no batch size is configured, into the events
of the chunk, which are pushed when the chunk ends.  -/
import Mathlib.Algebra.Group.Nat.Defs
import MldpDriver.Bus.DataBatch
import MldpDriver.Lib.Directory
import MldpDriver.Lib.Lines
import MldpDriver.Reader.PbHttpLine

namespace MldpDriver.Reader.Archiver

open Bus Lib.Directory Lib.Lines

variable {H V : Type}

/-! ## 1. Samples and configuration

What the generated protobuf classes and `parseSample` do is a parameter, `Protobuf`.  A fetch that
throws leaves the worker as it was when it threw, so its result is a worker with or without an
error.  The HTTP client and the bus are always there. -/

/-- `ParsedSample`, whose batch has the timestamp that `makeBaseSample` gives it. -/
structure ParsedSample (V : Type) where
  epochSeconds : Nat
  nanoseconds : Nat
  columns : List (DataColumn V) := []
  enumColumns : List EnumDataColumn := []
  arrayDims : List (String × List Nat) := []

def ParsedSample.timestamp (p : ParsedSample V) : TimestampEntry := ⟨p.epochSeconds, p.nanoseconds⟩

def ParsedSample.batch (p : ParsedSample V) : DataBatch V where
  timestamps := [p.timestamp]
  columns := p.columns
  enumColumns := p.enumColumns
  arrayDims := p.arrayDims

/-- Reading a `PayloadInfo`, its `pvname`, and reading a sample under it. -/
structure Protobuf (H V : Type) where
  parsePayloadInfo : List UInt8 → Option H
  pvname : H → String
  parseSample : H → List UInt8 → Except String (ParsedSample V)

/-- `FetchMode`. -/
inductive FetchMode
  | historicalOnce
  | periodicTail
  deriving DecidableEq

/-- `EpicsArchiverReaderConfig`; a PV with its metadata. -/
structure ReaderConfig where
  name : String
  fetchMode : FetchMode
  pvSamplesPerBatch : Nat := 0
  maxBatchSpanSec : Nat := 86400
  staticMetadata : List (String × String) := []
  pvs : List (String × List (String × String)) := []

/-- The static metadata, with those of the PV over them. -/
def ReaderConfig.mergedMetadata (cfg : ReaderConfig) (pv : String) : List (String × String) :=
  ((cfg.pvs.lookup pv).getD []).foldl (fun merged kv => put merged kv.1 kv.2) cfg.staticMetadata

/-- The PV, or the reader if it has no name. -/
def ReaderConfig.rootName (cfg : ReaderConfig) (pv : String) : String :=
  if pv.isEmpty then cfg.name else pv

/-! ## 2. Batches -/

/-- `hasTimestamps`. -/
def hasTimestamps (batch : DataBatch V) : Bool := !batch.timestamps.isEmpty

/-- Values are appended to values of their type. -/
def appendValues : ColumnValues V → ColumnValues V → ColumnValues V
  | .scalar kind dst, .scalar kind' src =>
    if kind = kind' then .scalar kind (dst ++ src) else .scalar kind dst
  | .bytes dst, .bytes src => .bytes (dst ++ src)
  | .array kind dst, .array kind' src =>
    if kind = kind' then .array kind (dst ++ src) else .array kind dst
  | dst, _ => dst

/-- The columns of a batch, with those at the same places appended. -/
def appendColumns : List (DataColumn V) → List (DataColumn V) → List (DataColumn V)
  | d :: dst, s :: src => { d with values := appendValues d.values s.values } :: appendColumns dst src
  | dst, [] => dst
  | [], _ => []

def appendEnumColumns : List EnumDataColumn → List EnumDataColumn → List EnumDataColumn
  | d :: dst, s :: src => { d with values := d.values ++ s.values } :: appendEnumColumns dst src
  | dst, [] => dst
  | [], _ => []

/-- `appendToBatch`. -/
def appendToBatch (dst src : DataBatch V) : DataBatch V where
  timestamps := dst.timestamps ++ src.timestamps
  columns := if dst.columns.isEmpty then src.columns else appendColumns dst.columns src.columns
  enumColumns :=
    if dst.enumColumns.isEmpty then src.enumColumns
    else appendEnumColumns dst.enumColumns src.enumColumns
  arrayDims := if dst.arrayDims.isEmpty then src.arrayDims else dst.arrayDims

/-- `spanNanos`, in 64 bits. -/
def spanNanos (first : TimestampEntry) (epoch nano : Nat) : Nat :=
  let a := (first.epochSeconds * 1000000000 + first.nanoseconds) % 2 ^ 64
  let b := (epoch * 1000000000 + nano) % 2 ^ 64
  if b < a then a - b else b - a

/-- `sampleTimeLessThan`. -/
def sampleTimeLessThan (lhs rhs : Nat × Nat) : Bool :=
  decide (lhs.1 < rhs.1) || (decide (lhs.1 = rhs.1) && decide (lhs.2 < rhs.2))

/-! ## 3. The worker -/

/-- `PendingPvBatch`. -/
structure PendingPvBatch (V : Type) where
  accumulated : DataBatch V := { timestamps := [] }
  metadata : List (String × String) := []
  rootSourceName : String := ""

/-- A worker: whether the reader runs, the context of the worker, and what it has done, that is the
messages it has parsed with their headers and the batches it has pushed. -/
structure Worker (H V : Type) where
  running : Bool := true
  pendingPvBatches : List (String × PendingPvBatch V) := []
  lastPublished : List (String × (Nat × Nat)) := []
  parsed : List (H × List UInt8) := []
  pushed : List (EventBatch V) := []

/-- `PbChunkState`. -/
structure PbChunkState (H V : Type) where
  header : Option H := none
  events : List (DataBatch V) := []

/-- A time series of one source. -/
def timeSeries (metadata : List (String × String)) (rootSourceName : String)
    (frames : List (DataBatch V)) : EventBatch V where
  metadata := metadata
  payload := .timeSeries { rootSourceName := rootSourceName, frames := frames }

/-- `pushBatch`. -/
def pushBatch (w : Worker H V) (batch : EventBatch V) : Worker H V :=
  if w.running then { w with pushed := w.pushed ++ [batch] } else w

/-- `submitPendingBatch`; a pending batch without timestamps stays. -/
def submitPendingBatch (w : Worker H V) (pv : String) : Worker H V :=
  match w.pendingPvBatches.lookup pv with
  | none => w
  | some pending =>
    if hasTimestamps pending.accumulated then
      pushBatch { w with pendingPvBatches := remove w.pendingPvBatches pv }
        (timeSeries pending.metadata pending.rootSourceName [pending.accumulated])
    else w

/-- `flushAllPendingBatches`. -/
def flushAllPendingBatches (w : Worker H V) : Worker H V :=
  ((w.pendingPvBatches.filter fun kv => hasTimestamps kv.2.accumulated).map (·.1)).foldl
    submitPendingBatch w

/-- `flushChunk`, for a chunk with a header. -/
def flushChunk (pb : Protobuf H V) (cfg : ReaderConfig) (w : Worker H V) (header : H)
    (events : List (DataBatch V)) : Worker H V :=
  let frames := events.filter hasTimestamps
  if frames.isEmpty then w
  else
    pushBatch w (timeSeries (cfg.mergedMetadata (pb.pvname header))
      (cfg.rootName (pb.pvname header)) frames)

/-- `finalizeChunk`. -/
def finalizeChunk (pb : Protobuf H V) (cfg : ReaderConfig)
    (s : Worker H V × PbChunkState H V) : Worker H V × PbChunkState H V :=
  match s.2.header with
  | none => s
  | some header => (flushChunk pb cfg s.1 header s.2.events, {})

/-! ## 4. A line -/

/-- The sample is not newer than the watermark of its PV. -/
def notNewer (w : Worker H V) (pv : String) (p : ParsedSample V) : Bool :=
  match w.lastPublished.lookup pv with
  | some watermark => !sampleTimeLessThan watermark (p.epochSeconds, p.nanoseconds)
  | none => false

/-- The sample would make the span of the pending batch too long. -/
def reachesSpan (cfg : ReaderConfig) (w : Worker H V) (pv : String) (p : ParsedSample V) : Bool :=
  match w.pendingPvBatches.lookup pv with
  | some pending =>
    match pending.accumulated.timestamps with
    | first :: _ =>
      decide (cfg.maxBatchSpanSec * 1000000000 % 2 ^ 64 ≤
        spanNanos first p.epochSeconds p.nanoseconds)
    | [] => false
  | none => false

/-- A pending batch that would span too long is submitted first. -/
def makeRoom (cfg : ReaderConfig) (w : Worker H V) (pv : String) (p : ParsedSample V) :
    Worker H V :=
  if reachesSpan cfg w pv p then submitPendingBatch w pv else w

/-- The pending batch of the PV, which gets its metadata with its first sample. -/
def openPending (cfg : ReaderConfig) (w : Worker H V) (pv : String) : PendingPvBatch V :=
  let pending := (w.pendingPvBatches.lookup pv).getD {}
  if hasTimestamps pending.accumulated then pending
  else { pending with metadata := cfg.mergedMetadata pv, rootSourceName := cfg.rootName pv }

/-- The sample is appended to the pending batch of the PV. -/
def growPending (cfg : ReaderConfig) (w : Worker H V) (pv : String) (p : ParsedSample V) :
    PendingPvBatch V :=
  let pending := openPending cfg w pv
  { pending with accumulated := appendToBatch pending.accumulated p.batch }

/-- The sample is added to the pending batch of the PV, which is submitted when it is full. -/
def addPending (cfg : ReaderConfig) (w : Worker H V) (pv : String) (p : ParsedSample V) :
    Worker H V :=
  let w := makeRoom cfg w pv p
  let pending := growPending cfg w pv p
  let w := { w with pendingPvBatches := put w.pendingPvBatches pv pending }
  if cfg.pvSamplesPerBatch ≤ pending.accumulated.timestamps.length then submitPendingBatch w pv
  else w

/-- A sample goes into the pending batch or into the events of the chunk. -/
def batchSample (cfg : ReaderConfig) (pv : String) (p : ParsedSample V)
    (s : Worker H V × PbChunkState H V) : Worker H V × PbChunkState H V :=
  if 0 < cfg.pvSamplesPerBatch then (addPending cfg s.1 pv p, s.2)
  else (s.1, { s.2 with events := s.2.events ++ [p.batch] })

/-- A parsed sample: in periodic mode it must be newer than the watermark, which it moves. -/
def takeSample (pb : Protobuf H V) (cfg : ReaderConfig) (header : H) (msg : List UInt8)
    (p : ParsedSample V) (s : Worker H V × PbChunkState H V) : Worker H V × PbChunkState H V :=
  let pv := pb.pvname header
  let w := { s.1 with parsed := s.1.parsed ++ [(header, msg)] }
  if cfg.fetchMode = .periodicTail then
    if notNewer w pv p then (w, s.2)
    else
      batchSample cfg pv p
        ({ w with lastPublished := put w.lastPublished pv (p.epochSeconds, p.nanoseconds) }, s.2)
  else batchSample cfg pv p (w, s.2)

/-- What a line does, with an error as it is thrown. -/
abbrev LineResult (H V : Type) : Type :=
  Except (Worker H V × String) (Worker H V × PbChunkState H V)

/-- `parsePbHttpLineIntoState`. -/
def parsePbHttpLineIntoState (pb : Protobuf H V) (cfg : ReaderConfig)
    (s : Worker H V × PbChunkState H V) (line : List UInt8) : LineResult H V :=
  match unescapePbHttpLine line with
  | .error what => .error (s.1, what)
  | .ok msg =>
    match s.2.header with
    | none =>
      match pb.parsePayloadInfo msg with
      | some header => .ok (s.1, { s.2 with header := some header })
      | none => .error (s.1, "failed to parse PB/HTTP PayloadInfo")
    | some header =>
      match pb.parseSample header msg with
      | .ok p => .ok (takeSample pb cfg header msg p s)
      | .error what => .error (s.1, what)

/-! ## 5. The stream -/

/-- What the callback does with a line; an empty one ends the chunk. -/
def onLine (pb : Protobuf H V) (cfg : ReaderConfig) (pv : String)
    (s : Worker H V × PbChunkState H V) (line : List UInt8) : LineResult H V :=
  if line.isEmpty then .ok (finalizeChunk pb cfg s)
  else
    (parsePbHttpLineIntoState pb cfg s line).mapError fun e =>
      (e.1, e.2 ++ " (pv='" ++ pv ++ "', line_bytes=" ++ toString line.length ++ ")")

/-- After the stream: a last line without newline, and the end of the chunk. -/
def endOfStream (pb : Protobuf H V) (cfg : ReaderConfig) (pv : String)
    (s : (Worker H V × PbChunkState H V) × List UInt8) : Except (Worker H V × String) (Worker H V) :=
  (if s.2.isEmpty then .ok s.1 else onLine pb cfg pv s.1 s.2).map fun s =>
    (finalizeChunk pb cfg s).1

/-- `fetchSinglePV`: the pieces of the stream that come, and then an error of the client or the HTTP
status. -/
def fetchSinglePV (pb : Protobuf H V) (cfg : ReaderConfig) (pv : String) (w : Worker H V)
    (pieces : List (List UInt8)) (response : Except String Nat) :
    Except (Worker H V × String) (Worker H V) := do
  let s ← readPieces newline (onLine pb cfg pv) ((w, {}), []) pieces
  match response with
  | .error what => .error (s.1.1, what)
  | .ok httpStatus =>
    let w ← endOfStream pb cfg pv s
    if httpStatus = 200 then .ok (flushAllPendingBatches w)
    else
      .error (w, "archiver HTTP GET returned status " ++ toString httpStatus ++ " for PV " ++ pv)

/-- `fetchPvSafely`: while the reader runs a fetch that throws pushes what is pending. -/
def fetchPvSafely (pb : Protobuf H V) (cfg : ReaderConfig) (pv : String) (w : Worker H V)
    (pieces : List (List UInt8)) (response : Except String Nat) :
    Except (Worker H V × String) (Worker H V) :=
  match fetchSinglePV pb cfg pv w pieces response with
  | .ok w => .ok w
  | .error (w, what) => if w.running then .ok (flushAllPendingBatches w) else .error (w, what)

end MldpDriver.Reader.Archiver
