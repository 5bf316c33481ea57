/-
# The PV metadata writer: fetch, merge, save

`MLDPPVMetadataWriter` is a queued writer whose items are metadata updates of one PV each.  A worker
fetches the record of the PV, merges the update into it and saves the result.  The three are steps
of their own against a service that all workers share, and the writer sets no routing key: two
updates of one PV go to two workers.
-/
import MldpDriver.Writer.QueuedItems

namespace MldpDriver.Writer.PvMetadata

open Lib.Run

/-! ## 1. Records and the merge rule

`merge` is the writer's merge rule; `applied` applies it update after update. -/

/-- `SourceMetadataEntry`; the attributes in the order the map is gone through. -/
structure SourceMetadataEntry where
  aliases : Option (List String) := none
  tags : Option (List String) := none
  attributes : List (String × String) := []
  description : Option String := none
  modifiedBy : Option String := none
  deriving DecidableEq

/-- A record of the service, and the request that saves it. -/
structure Record where
  aliases : List String := []
  tags : List String := []
  attributes : List (String × String) := []
  description : Option String := none
  modifiedBy : Option String := none
  deriving DecidableEq

/-- `WorkItem`: a PV and an update. -/
abbrev WorkItem := String × SourceMetadataEntry

/-- The payloads of a batch. -/
inductive BatchPayload
  | sourceMetadata (sources : List WorkItem)
  | other
  deriving DecidableEq

/-- `toItems`. -/
def toItems : BatchPayload → Option (List WorkItem)
  | .sourceMetadata sources => some sources
  | .other => some []

/-- What the writer is configured with and runs against. -/
structure Env where
  threadPool : Int
  hash : String → Nat
  /-- The order in which a map filled in this order is gone through. -/
  iterate : List (String × String) → List (String × String)
  /-- `getPvMetadata`, which takes a name or an alias. -/
  getPvMetadata : List (String × Record) → String → Option Record

/-- `merged[k] = v`. -/
def assign (merged : List (String × String)) (kv : String × String) : List (String × String) :=
  if merged.any (fun x => decide (x.1 = kv.1)) then
    merged.map fun x => if x.1 = kv.1 then kv else x
  else merged ++ [kv]

/-- The attributes of a request: an empty value removes. -/
def nonEmpty (attributes : List (String × String)) : List (String × String) :=
  attributes.filter fun kv => decide (kv.2 ≠ "")

/-- The request `saveSourceMetadata` builds. -/
def merge (env : Env) (existing : Option Record) (entry : SourceMetadataEntry) : Record :=
  match existing with
  | some existing =>
    { aliases := entry.aliases.getD existing.aliases
      tags := entry.tags.getD existing.tags
      attributes := nonEmpty (env.iterate
        (entry.attributes.foldl assign (existing.attributes.foldl assign [])))
      description := some (entry.description.getD (existing.description.getD ""))
      modifiedBy := some (entry.modifiedBy.getD (existing.modifiedBy.getD "")) }
  | none =>
    { aliases := entry.aliases.getD []
      tags := entry.tags.getD []
      attributes := nonEmpty entry.attributes
      description := entry.description
      modifiedBy := entry.modifiedBy }

/-- **The updates one after another.** -/
def applied (env : Env) (record : Option Record) (entries : List SourceMetadataEntry) :
    Option Record :=
  entries.foldl (fun r e => some (merge env r e)) record

/-! ## 2. The system

`step` runs the queue of `BaseQueuedWriter` and the three steps of every worker together. -/

/-- The queue, with the values that the constructor passes and no routing key. -/
def setup (env : Env) : Setup WorkItem where
  cfg := { queueCapacity := 1000, workerCount := max 1 env.threadPool, pushTimeoutMs := 0 }
  itemRoutingKey := fun _ => ""
  hash := env.hash

/-- The writer, what each worker has fetched for its update, and the records of the service. -/
structure State where
  writer : Writer.State BatchPayload WorkItem
  fetched : List (Option (Option Record))
  store : List (String × Record)
  deriving DecidableEq

/-- The state when `start()` has returned. -/
def started (env : Env) (store : List (String × Record)) : State where
  writer := Writer.started (setup env).cfg
  fetched := List.replicate (setup env).cfg.channelCount none
  store := store

/-- The service saves a record under its PV. -/
def savePvMetadata (store : List (String × Record)) (pv : String) (r : Record) :
    List (String × Record) :=
  (pv, r) :: store.filter fun x => decide (x.1 ≠ pv)

/-- `fetchExistingPvMetadata`: an error is taken for "no record". -/
def fetchExisting (env : Env) (store : List (String × Record)) (pv : String) (answered : Bool) :
    Option Record :=
  if answered then env.getPvMetadata store pv else none

/-- A step of the queue, a fetch that was answered or not, a save that was stored or not. -/
inductive Action
  | writer (a : Writer.Action BatchPayload WorkItem)
  | fetch (w : Nat) (answered : Bool)
  | save (w : Nat) (stored : Bool)

/-- The worker is inside `processItem`. -/
def inProcess (s : State) : Writer.Action BatchPayload WorkItem → Bool
  | .worker w => (s.writer.workers[w]? matches some (.processing _))
  | _ => false

/-- One step of the system; with the save `processItem` returns. -/
def step (env : Env) (s : State) : Action → Option State
  | .writer a =>
    if inProcess s a then none
    else (Writer.step (setup env) s.writer a).map fun writer => { s with writer := writer }
  | .fetch w answered =>
    match s.writer.workers[w]?, s.fetched[w]? with
    | some (.processing t), some none =>
      some { s with
        fetched := s.fetched.set w (some (fetchExisting env s.store t.item.1 answered)) }
    | _, _ => none
  | .save w stored =>
    match s.writer.workers[w]?, s.fetched[w]? with
    | some (.processing t), some (some existing) =>
      (Writer.step (setup env) s.writer (.worker w)).map fun writer =>
        { writer := writer
          fetched := s.fetched.set w none
          store :=
            if stored then savePvMetadata s.store t.item.1 (merge env existing t.item.2)
            else s.store }
    | _, _ => none

/-! ## 3. What the service ends up with

`Serial` says that the service ends up with `applied`; section 4 is the condition under which it
does, `inTurn`. -/

/-- The updates of a PV in an observation, in order. -/
def updatesOf (pv : String) (l : List (Nat × Ticket WorkItem)) : List (Ticket WorkItem) :=
  (l.map (·.2)).filter fun t => decide (t.item.1 = pv)

/-- The updates of a PV in the order they were accepted. -/
def accepted (s : State) (pv : String) : List (Ticket WorkItem) :=
  updatesOf pv (enqueued s.writer.history)

/-- The updates of a PV that were saved, in order. -/
def saved (s : State) (pv : String) : List (Ticket WorkItem) :=
  updatesOf pv (processed s.writer.history)

/-- No update of the PV is in a queue or with a worker. -/
def Settled (s : State) (pv : String) : Prop :=
  ∀ c, ∀ t ∈ hand s.writer.workers[c]? ++ queued s.writer.channels c, t.item.1 ≠ pv

/-- **The record of each PV is what its updates make of it, in the order of their acceptance.** It
is asked of a PV without updates under way; a lost update shows in `applied`, which has them
all. -/
def Serial (env : Env) (store : List (String × Record)) (s : State) : Prop :=
  ∀ pv, Settled s pv →
    s.store.lookup pv = applied env (store.lookup pv) ((accepted s pv).map (·.item.2))

/-! ## 4. The condition -/

/-- A step that keeps the updates of a PV apart: a fetch brings what is stored, for the first
update of the PV that is not saved yet; a save is stored; `stop()` destroys empty queues. -/
def inTurn (env : Env) (s : State) : Action → Bool
  | .writer .stop => !clearing s.writer || s.writer.channels.all (·.items.isEmpty)
  | .writer _ => true
  | .fetch w answered =>
    match s.writer.workers[w]? with
    | some (.processing t) =>
      decide (fetchExisting env s.store t.item.1 answered = s.store.lookup t.item.1) &&
        decide ((accepted s t.item.1).find? (fun x => decide (x ∉ saved s t.item.1)) = some t)
    | _ => true
  | .save _ stored => stored

end MldpDriver.Writer.PvMetadata
