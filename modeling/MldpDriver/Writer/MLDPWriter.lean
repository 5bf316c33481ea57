/-
# The MLDP writer: one gRPC stream per worker

`MLDPWriter` turns an accepted batch into one queue item and lets each worker of the queued writer
send the frames of its items over a stream of its own, which it opens and closes by age, size and
number of frames.  An open stream holds a connection of the pool; a closed one goes to the closing
task, which gives the connection back when the server has finished the call.

The writer is a transition system over the queued writer's: a worker that processes an item goes
through `processItem` in steps, and inside `ensureStream` it may have to wait for a connection.  A
step SEES what the outside gives it: a clock reading, whether a stream could be opened, whether a
write succeeded.  The clock readings that only feed metrics are left out.
-/
import MldpDriver.Bus.DataBatch
import MldpDriver.Writer.BaseQueuedWriter
import MldpDriver.Writer.MLDPWriterConfig

namespace MldpDriver.Writer

open Bus Pool

variable {V : Type}

/-! ## 1. From a batch to an item -/

/-- `MLDPWriter::QueueItem`. -/
structure QueueItem (V : Type) where
  rootSource : String
  metadata : List (String × String)
  frames : List (DataBatch V)
  deriving DecidableEq

/-- `MLDPWriter::toItems`: one item with the frames that have timestamps. -/
def toItems (batch : EventBatch V) : List (QueueItem V) :=
  match batch.payload with
  | .timeSeries ts =>
    if ts.endOfBatchGroup then []
    else if ts.rootSourceName = "" ∨ ts.frames.isEmpty then []
    else
      match ts.frames.filter (!·.timestamps.isEmpty) with
      | [] => []
      | frame :: frames => [⟨ts.rootSourceName, batch.metadata, frame :: frames⟩]
  | _ => []

/-! ## 2. From a frame to a request -/

/-- The values of a protobuf column: arrays are flattened. -/
inductive FrameValues (V : Type)
  | scalar (kind : ScalarKind) (values : List V)
  | struct (schemaId : String) (values : List (List V))
  | array (kind : ArrayKind) (values : List V) (dims : List Nat)

/-- A protobuf column, whichever repeated field of the data frame it is added to. -/
structure FrameColumn (V : Type) where
  name : String
  source : String
  attributes : List (String × String)
  values : FrameValues V

/-- A protobuf enum column. -/
structure EnumFrameColumn where
  name : String
  source : String
  attributes : List (String × String)
  enumId : String
  values : List Int

/-- `dp::service::common::DataFrame`. -/
structure DataFrame (V : Type) where
  timestamps : List TimestampEntry := []
  columns : List (FrameColumn V) := []
  enumColumns : List EnumFrameColumn := []

/-- The dimensions given for a column. -/
def dimsOf (batch : DataBatch V) (name : String) : List Nat :=
  ((batch.arrayDims.find? (·.1 = name)).map (·.2)).getD []

/-- The visit of the column's values in `toSingleColumnDataFrame`. -/
def frameValues (batch : DataBatch V) (col : DataColumn V) : FrameValues V :=
  match col.values with
  | .scalar kind values => .scalar kind values
  | .bytes values => .struct "" values
  | .array kind values => .array kind values.flatten (dimsOf batch col.name)

/-- `toSingleColumnDataFrame`. -/
def toSingleColumnDataFrame (out : DataFrame V) (batch : DataBatch V) (colIndex : Nat)
    (isEnum : Bool) (rootSource : String) (metadata : List (String × String)) : DataFrame V :=
  -- the timestamps are set by the first column
  let out := if out.timestamps.isEmpty then { out with timestamps := batch.timestamps } else out
  if isEnum then
    match batch.enumColumns[colIndex]? with
    | some ecol =>
      { out with enumColumns := out.enumColumns ++
          [⟨ecol.name, rootSource, metadata, ecol.enumId, ecol.values⟩] }
    | none => out
  else
    match batch.columns[colIndex]? with
    | some col =>
      { out with columns := out.columns ++
          [⟨col.name, rootSource, metadata ++ col.metadata, frameValues batch col⟩] }
    | none => out

/-- The number of regular and enum columns of a frame. -/
def columnCount (frame : DataBatch V) : Nat := frame.columns.length + frame.enumColumns.length

/-- The loop over all columns of a frame. -/
def toDataFrame (frame : DataBatch V) (rootSource : String) (metadata : List (String × String)) :
    DataFrame V :=
  (List.range (columnCount frame)).foldl (fun out i =>
    let isEnum := decide (frame.columns.length ≤ i)
    toSingleColumnDataFrame out frame (if isEnum then i - frame.columns.length else i) isEnum
      rootSource metadata) {}

def hasTimestampList (f : DataFrame V) : Bool := !f.timestamps.isEmpty

def hasAnyColumn (f : DataFrame V) : Bool := !f.columns.isEmpty || !f.enumColumns.isEmpty

/-- `IngestDataRequest`. -/
structure IngestDataRequest (V : Type) where
  providerId : String
  clientRequestId : String
  ingestionDataFrame : DataFrame V

/-! ## 3. The writer after doStart() -/

/-- A writer that has started: its pool could be created and the provider is registered.
`byteSize` is protobuf's `ByteSizeLong`. -/
structure MLDPWriter (V : Type) where
  cfg : MLDPWriterConfig
  pool : PoolLimits
  pool_eq : PoolLimits.of cfg.poolConfig.minConnections cfg.poolConfig.maxConnections = .ok pool
  providerId : String
  registered : providerId ≠ ""
  byteSize : IngestDataRequest V → Nat

/-- The queued writer under it.  `itemRoutingKey` is not overridden, so the items go round robin and
no hash is taken. -/
def MLDPWriter.setup (W : MLDPWriter V) : Setup (QueueItem V) where
  cfg :=
    { queueCapacity := W.cfg.queueCapacity.val
      workerCount := W.cfg.threadPoolSize.val
      pushTimeoutMs := 0
      idleCheckMs := W.cfg.streamMaxAge.val }
  itemRoutingKey := fun _ => ""
  hash := fun _ => 0

/-! ## 4. States -/

/-- `StreamState`; a stream is named by its number among those of its worker, a handle by the
connection it holds. -/
structure StreamState where
  handle : Option Nat := none
  writer : Option Nat := none
  streamStart : Int := 0
  streamPayloadBytes : Nat := 0
  requestCounter : Nat := 0
  framesWritten : Nat := 0

/-- `ClosingStreamState`, with the reason the closing task reports. -/
structure ClosingStreamState where
  stream : Nat
  handle : Option Nat
  requestCounter : Nat
  reason : String

/-- The place of a frame: its item and its number there. -/
structure Place where
  push : Nat
  index : Nat
  frame : Nat

/-- A call on a gRPC stream; `none` is a null `writer`. -/
inductive Call (V : Type)
  | opened (stream : Nat)
  | write (stream : Option Nat) (place : Place) (request : IngestDataRequest V) (ok : Bool)
  | writesDone (stream : Nat)

/-- Where `processItem` stands. -/
inductive Point (V : Type)
  | entered
  | checkAge
  | frame (i : Nat)
  | write (i : Nat) (request : IngestDataRequest V)
  | finished
  | returning

/-- `acquiring` is inside the pool's `acquire()`, `opening` before `ingestDataStream`; `next` is
where `processItem` goes on once `ensureStream` has returned true. -/
inductive ProcessAt (V : Type)
  | going (point : Point V)
  | acquiring (next : Point V)
  | opening (next : Point V)

/-- A worker's part of the writer: its stream state, and the calls it has made. -/
structure WorkerState (V : Type) where
  pc : ProcessAt V := .going .entered
  stream : StreamState := {}
  opened : Nat := 0
  calls : List (Call V) := []

/-- The writer: its queue and threads, the workers' streams, the pool and the closing task. -/
structure MLDPState (V : Type) where
  base : State (EventBatch V) (QueueItem V)
  workerStates : List (WorkerState V)
  items : List Bool
  closing : List ClosingStreamState := []

/-- The state when `start()` has returned. -/
def MLDPWriter.started (W : MLDPWriter V) : MLDPState V where
  base := Writer.started W.setup.cfg
  workerStates := List.replicate W.setup.cfg.channelCount {}
  items := W.pool.items

/-! ## 5. Steps of processItem -/

/-- The outcome of `ingestDataStream`. -/
inductive OpenOutcome
  | opened
  | null
  | threw
  deriving DecidableEq

/-- What a step sees of the outside: `steady_clock::now()` in nanoseconds, and the outcomes. -/
structure Seen where
  now : Int
  opened : OpenOutcome
  written : Bool

/-- The stream has reached its maximal age. -/
def MLDPWriter.aged (W : MLDPWriter V) (now : Int) (stream : StreamState) : Prop :=
  (W.cfg.streamMaxAge.val : Int) * 1000000 ≤ now - stream.streamStart

instance (W : MLDPWriter V) (now : Int) (stream : StreamState) : Decidable (W.aged now stream) :=
  inferInstanceAs (Decidable (_ ≤ _))

/-- `closeStream`: the worker's part, and what goes to the closing task. -/
def closeStream (reason : String) (ws : WorkerState V) :
    WorkerState V × List ClosingStreamState :=
  match ws.stream.writer with
  | none => (ws, [])
  | some k =>
    ({ ws with
        stream := { ws.stream with
          handle := none, writer := none, streamPayloadBytes := 0, requestCounter := 0,
          framesWritten := 0 }
        calls := ws.calls ++ [.writesDone k] },
      [⟨k, ws.stream.handle, ws.stream.requestCounter, reason⟩])

def WorkerState.goto (ws : WorkerState V) (pc : ProcessAt V) : WorkerState V := { ws with pc := pc }

/-- `rotateStream`, up to the wait for a connection. -/
def rotateStream (reason : String) (next : Point V) (ws : WorkerState V) :
    WorkerState V × List ClosingStreamState :=
  ((closeStream reason ws).1.goto (.acquiring next), (closeStream reason ws).2)

/-- Giving a connection back. -/
def releaseHandle (items : List Bool) : Option Nat → List Bool
  | none => items
  | some c => release items c

/-- The request for a frame, if it is sent at all. -/
def MLDPWriter.toRequest (W : MLDPWriter V) (item : QueueItem V) (stream : StreamState)
    (frame : DataBatch V) : Option (IngestDataRequest V) :=
  if columnCount frame = 0 then none
  else
    let request : IngestDataRequest V :=
      { providerId := W.providerId
        clientRequestId := "pv_stream_" ++ toString stream.streamStart ++ "_" ++ item.rootSource ++
          "_" ++ toString stream.requestCounter
        ingestionDataFrame := toDataFrame frame item.rootSource item.metadata }
    if !hasAnyColumn request.ingestionDataFrame then none
    else if !hasTimestampList request.ingestionDataFrame then none
    else some request

/-- The request does not fit on the stream any more. -/
def MLDPWriter.full (W : MLDPWriter V) (stream : StreamState) (request : IngestDataRequest V) :
    Prop :=
  W.cfg.streamMaxBytes.val < (stream.streamPayloadBytes + W.byteSize request) % sizeRange ∧
    0 < stream.streamPayloadBytes

instance (W : MLDPWriter V) (stream : StreamState) (request : IngestDataRequest V) :
    Decidable (W.full stream request) := inferInstanceAs (Decidable (_ ∧ _))

/-- The counters after a successful write. -/
def MLDPWriter.count (W : MLDPWriter V) (request : IngestDataRequest V) (stream : StreamState) :
    StreamState :=
  { stream with
    requestCounter := stream.requestCounter + 1
    framesWritten := stream.framesWritten + 1
    streamPayloadBytes := (stream.streamPayloadBytes + W.byteSize request) % sizeRange }

/-- The steps of `processItem` that need no connection. -/
def MLDPWriter.pointNext (W : MLDPWriter V) (t : Ticket (QueueItem V)) (seen : Seen)
    (ws : WorkerState V) : Point V → WorkerState V × List ClosingStreamState
  | .entered =>
    if ws.stream.writer.isSome then (ws.goto (.going .checkAge), [])
    else (ws.goto (.acquiring .checkAge), [])
  | .checkAge =>
    if W.aged seen.now ws.stream then rotateStream "stream age exceeded" (.frame 0) ws
    else (ws.goto (.going (.frame 0)), [])
  | .frame i =>
    match t.item.frames[i]? with
    | none => (ws.goto (.going .finished), [])
    | some frame =>
      match W.toRequest t.item ws.stream frame with
      | none => (ws.goto (.going (.frame (i + 1))), [])
      | some request =>
        if W.full ws.stream request then rotateStream "max bytes exceeded" (.write i request) ws
        else (ws.goto (.going (.write i request)), [])
  | .write i request =>
    let called : WorkerState V := { ws with
      calls := ws.calls ++ [.write ws.stream.writer ⟨t.push, t.index, i⟩ request seen.written] }
    if seen.written then
      let counted : WorkerState V := { called with stream := W.count request ws.stream }
      if W.cfg.maxFramesPerStream.val ≤ counted.stream.framesWritten then
        rotateStream "max frames per stream reached" (.frame (i + 1)) counted
      else (counted.goto (.going (.frame (i + 1))), [])
    else
      ((closeStream "write failed" called).1.goto (.going .returning),
        (closeStream "write failed" called).2)
  | .finished =>
    if ws.stream.writer.isSome ∧
        (W.aged seen.now ws.stream ∨ W.cfg.streamMaxBytes.val ≤ ws.stream.streamPayloadBytes) then
      ((closeStream "threshold reached" ws).1.goto (.going .returning),
        (closeStream "threshold reached" ws).2)
    else (ws.goto (.going .returning), [])
  | .returning => (ws, [])

/-- The worker's state once `ingestDataStream` has given it a stream. -/
def WorkerState.openStream (ws : WorkerState V) (now : Int) (next : Point V) : WorkerState V :=
  { ws with
    pc := .going next
    stream := { ws.stream with
      writer := some ws.opened, streamStart := now, streamPayloadBytes := 0 }
    opened := ws.opened + 1
    calls := ws.calls ++ [.opened ws.opened] }

/-- The next step of `processItem`, with the pool's items and what goes to the closing task. -/
def MLDPWriter.processNext (W : MLDPWriter V) (t : Ticket (QueueItem V)) (seen : Seen)
    (items : List Bool) (ws : WorkerState V) :
    Option (WorkerState V × List Bool × List ClosingStreamState) :=
  match ws.pc with
  | .going point =>
    some ((W.pointNext t seen ws point).1, items, (W.pointNext t seen ws point).2)
  | .acquiring next =>
    if creates W.pool.maxConnections items ∧ seen.opened = .threw then
      some (ws.goto (.going .returning), items, [])
    else
      match acquire W.pool.maxConnections items with
      | none => none
      | some (c, items') =>
        some ({ ws with pc := .opening next, stream := { ws.stream with handle := some c } },
          items', [])
  | .opening next =>
    match seen.opened with
    | .opened => some (ws.openStream seen.now next, items, [])
    | .null | .threw =>
      some ({ ws with pc := .going .returning, stream := { ws.stream with handle := none } },
        releaseHandle items ws.stream.handle, [])

/-- `onWorkerIdle`. -/
def MLDPWriter.onWorkerIdle (W : MLDPWriter V) (now : Int) (ws : WorkerState V) :
    WorkerState V × List ClosingStreamState :=
  if ws.stream.writer.isSome ∧ W.aged now ws.stream then
    closeStream "stream age exceeded (idle)" ws
  else (ws, [])

/-! ## 6. Steps of the writer -/

/-- An action: those of the queued writer, with `toItems` as its conversion, and the closing task's
next step, which is the end of a `Finish()`. -/
inductive MLDPAction (V : Type)
  | enter (batch : EventBatch V)
  | prepare (p : Nat) (enrichers : List (EventBatch V → Enriched (EventBatch V)))
  | timeout (p : Nat)
  | push (p : Nat)
  | worker (w : Nat) (seen : Seen)
  | stop
  | forceStop
  | finish

/-- The worker's wait runs out with nothing in its channel. -/
def idles (s : State (EventBatch V) (QueueItem V)) (w : Nat) : Bool :=
  match s.channels[w]? with
  | some ch => ch.items.isEmpty && !ch.shutdown && !s.forceQuit
  | none => false

/-- A step of the queued writer that calls none of the hooks. -/
def MLDPWriter.baseStep (W : MLDPWriter V) (s : MLDPState V)
    (a : Action (EventBatch V) (QueueItem V)) : Option (MLDPState V) :=
  (Writer.step W.setup s.base a).map fun base => { s with base := base }

/-- The next step of worker `w`, which is at `x` and has the stream state `ws`. -/
def MLDPWriter.workerStep (W : MLDPWriter V) (s : MLDPState V) (w : Nat) (seen : Seen)
    (ws : WorkerState V) : Worker (QueueItem V) → Option (MLDPState V)
  | .processing t =>
    match ws.pc with
    | .going .returning =>
      (Writer.step W.setup s.base (.worker w)).map fun base =>
        { s with
          base := base
          workerStates := s.workerStates.set w (ws.goto (.going .entered)) }
    | _ =>
      (W.processNext t seen s.items ws).map fun r =>
        { s with
          workerStates := s.workerStates.set w r.1
          items := r.2.1
          closing := s.closing ++ r.2.2 }
  | .waiting =>
    if idles s.base w then
      some { s with
        workerStates := s.workerStates.set w (W.onWorkerIdle seen.now ws).1
        closing := s.closing ++ (W.onWorkerIdle seen.now ws).2 }
    else W.baseStep s (.worker w)
  | _ => W.baseStep s (.worker w)

/-- `doStop`: the streams are closed, then the closing task is waited for. -/
def MLDPWriter.doStop (W : MLDPWriter V) (s : MLDPState V) : Option (MLDPState V) :=
  if s.workerStates.any (·.stream.writer.isSome) then
    some { s with
      workerStates := s.workerStates.map fun ws => (closeStream "writer stopping" ws).1
      closing := s.closing ++
        s.workerStates.flatMap fun ws => (closeStream "writer stopping" ws).2 }
  else if s.closing.isEmpty then W.baseStep s .stop
  else none

/-- One step of the writer. -/
def MLDPWriter.step (W : MLDPWriter V) (s : MLDPState V) (a : MLDPAction V) :
    Option (MLDPState V) :=
  if s.base.fault.isSome then none
  else
    match a with
    | .enter batch => W.baseStep s (.enter batch)
    | .prepare p enrichers =>
      W.baseStep s (.prepare p enrichers fun batch => some (toItems batch))
    | .timeout p => W.baseStep s (.timeout p)
    | .push p => W.baseStep s (.push p)
    | .worker w seen =>
      match s.base.workers[w]?, s.workerStates[w]? with
      | some x, some ws => W.workerStep s w seen ws x
      | _, _ => none
    | .stop => if s.base.stopper = .cleared then W.doStop s else W.baseStep s .stop
    | .forceStop => W.baseStep s .forceStop
    | .finish =>
      match s.closing with
      | [] => none
      | c :: rest => some { s with closing := rest, items := releaseHandle s.items c.handle }

end MldpDriver.Writer
