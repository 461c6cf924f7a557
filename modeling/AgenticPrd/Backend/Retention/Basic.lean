import AgenticPrd.Backend.RunStore
import AgenticPrd.Lib.Least
import Mathlib.Data.Prod.Lex

/-!
The run store and the event store over all runs (`run_store.py`, `event_store.py`), with the
functions of the run manager that add and remove runs. No lock is held across a task switch here
either, so that each of the functions runs as one step. The database is taken to do what it is asked
to, except where a run is stored for the first time.
-/

namespace AgenticPrd

-- `Settings`; the time to live is in microseconds.
structure RetentionSettings where
  maxConcurrentRuns : Nat
  maxRetainedRuns : Nat
  runTtl : Int
  eventBufferSize : Nat
  concurrent_range : 1 ≤ maxConcurrentRuns ∧ maxConcurrentRuns ≤ 32
  retained_range : 1 ≤ maxRetainedRuns ∧ maxRetainedRuns ≤ 10000
  buffer_range : 10 ≤ eventBufferSize ∧ eventBufferSize ≤ 100000

inductive AdmissionError where
  | shuttingDown
  | invalidProviderSelection
  | runCapacity
  | storeCapacity
  | runExists
  | streamExists
  | databaseError
  deriving DecidableEq, Repr

/--
`runs` and `locks` are the dictionaries of the run store, `streams` those of the event store, and
`runRows` and `eventRows` the tables.
-/
structure Registry where
  settings : RetentionSettings
  accepting : Bool
  runs : List (RunId × RunSnapshot)
  locks : List (RunId × Unit)
  streams : List (RunId × EventStore)
  runRows : List (RunId × RunSnapshot)
  eventRows : List RunEvent

/--
What `create_run` reads elsewhere: `resolved` tells whether the catalog knows the provider and the
model of the request, `runId` is that of `uuid4()`, and `persistRaises` tells whether the database
refuses the new row.
-/
structure Admission where
  env : Env
  request : CreateRunRequest
  outputLanguage : String
  resolved : Bool
  runId : RunId
  now : Timestamp
  persistRaises : Bool

def Admission.snapshot (a : Admission) : RunSnapshot :=
  RunManager.createSnapshot a.env a.runId a.request a.outputLanguage a.now

namespace Registry

open Least

def isActive (entry : RunId × RunSnapshot) : Bool :=
  !entry.2.status.isTerminal

-- `active_count`
def activeCount (r : Registry) : Nat :=
  r.runs.countP isActive

def age (entry : RunId × RunSnapshot) : Timestamp ×ₗ RunId :=
  toLex (entry.2.updatedAt, entry.1)

-- `_evictable_run_ids`
def evictableRunIds (r : Registry) (needed : Nat) : List RunId :=
  (least needed ((r.runs.filter fun entry => entry.2.status.isTerminal).map age)).map fun a =>
    (ofLex a).2

def deleteRuns (gone : List RunId) (r : Registry) : Registry :=
  {
    r with
    runs := Record.eraseAll r.runs gone
    locks := Record.eraseAll r.locks gone
  }

-- `_delete_rows`
def deleteRows (gone : List RunId) (r : Registry) : Registry :=
  { r with runRows := Record.eraseAll r.runRows gone }

-- `make_room`
def makeRoom (incoming : Nat) (r : Registry) : List RunId × Registry :=
  let overflow := r.runs.length + incoming - r.settings.maxRetainedRuns
  if overflow = 0 then
    ([], r)
  else
    let evicted := r.evictableRunIds overflow
    (evicted, (r.deleteRuns evicted).deleteRows evicted)

-- `cleanup_expired`
def cleanupExpired (now : Timestamp) (r : Registry) : List RunId × Registry :=
  let expired := Record.keys (r.runs.filter fun entry =>
    entry.2.status.isTerminal && decide (r.settings.runTtl ≤ now - entry.2.updatedAt))
  (expired, (r.deleteRuns expired).deleteRows expired)

-- `remove_run` of the event store, for each of the runs
def removeStreams (gone : List RunId) (r : Registry) : Registry :=
  {
    r with
    streams := Record.eraseAll r.streams gone
    eventRows := r.eventRows.filter fun e => e.runId ∉ gone
  }

-- `_release_run_resources`, for each of the runs
def releaseRunResources (gone : List RunId) (r : Registry) : Registry :=
  r.removeStreams gone

-- `cleanup_once`
def cleanupOnce (now : Timestamp) (r : Registry) : Registry :=
  let (expired, r) := r.cleanupExpired now
  r.releaseRunResources expired

-- `_persist`
def persist (snapshot : RunSnapshot) (r : Registry) : Registry :=
  { r with runRows := Record.set r.runRows snapshot.runId snapshot }

-- `create` of the run store
def create (snapshot : RunSnapshot) (persistRaises : Bool) : Prog Registry AdmissionError Unit := do
  let r ← get
  if snapshot.runId ∈ Record.keys r.runs then
    throw .runExists
  else if r.settings.maxRetainedRuns ≤ r.runs.length then
    throw .storeCapacity
  else
    set {
      r with
      runs := Record.set r.runs snapshot.runId snapshot
      locks := Record.set r.locks snapshot.runId ()
    }
    if persistRaises then
      modify (deleteRuns [snapshot.runId])
      throw .databaseError
    else
      modify (persist snapshot)

-- `create_run` of the event store
def createStream (runId : RunId) : Prog Registry AdmissionError Unit := do
  let r ← get
  if runId ∈ Record.keys r.streams then
    throw .streamExists
  else
    set {
      r with
      streams := Record.set r.streams runId (EventStore.createRun r.settings.eventBufferSize)
    }

-- The task that `start_run` creates has not run yet when `create_run` returns.
def createRun (a : Admission) : Prog Registry AdmissionError RunSnapshot := do
  let r ← get
  if !r.accepting then
    throw .shuttingDown
  else if !a.resolved then
    throw .invalidProviderSelection
  else if r.settings.maxConcurrentRuns ≤ r.activeCount then
    throw .runCapacity
  else
    let (evicted, r) := r.makeRoom 1
    set (r.releaseRunResources evicted)
    create a.snapshot a.persistRaises
    createStream a.runId
    return a.snapshot

-- `ORDER BY updated_at DESC`
def newestFirst (rows : List (RunId × RunSnapshot)) : List RunSnapshot :=
  (rows.map Prod.snd).insertionSort fun a b => b.updatedAt ≤ a.updatedAt

def interrupted (rows loaded : List RunSnapshot) : List RunSnapshot :=
  ((rows.zip loaded).filter fun pair => !pair.1.status.isTerminal).map Prod.snd

-- `_load_snapshots`, up to the retention
def loadSnapshots (settings : RetentionSettings) (utc : Nat → Timestamp) (r : Registry) : Registry :=
  let rows := newestFirst r.runRows
  let loaded := SQLiteRunStore.loadRows utc 0 rows
  let r' := (interrupted rows loaded).foldl (fun r snapshot => r.persist snapshot) r
  {
    r' with
    settings
    accepting := true
    runs := Record.update [] (loaded.map fun snapshot => (snapshot.runId, snapshot))
    locks := Record.update [] (loaded.map fun snapshot => (snapshot.runId, ()))
    streams := []
  }

-- `_enforce_retention_on_load`
def enforceRetentionOnLoad (r : Registry) : Registry :=
  let overflow := r.runs.length - r.settings.maxRetainedRuns
  if overflow = 0 then
    r
  else
    let evicted := r.evictableRunIds overflow
    (r.deleteRuns evicted).deleteRows evicted

def rowsOf (r : Registry) (runId : RunId) : List RunEvent :=
  r.eventRows.filter fun e => e.runId = runId

def adopted (r : Registry) (runId : RunId) (snapshot : RunSnapshot) : SQLiteEventStore :=
  SQLiteEventStore.adopt r.settings.eventBufferSize snapshot.latestEventSequence (r.rowsOf runId)

-- `_adopt_retained_runs`
def adoptRetainedRuns (r : Registry) : Registry :=
  {
    r with
    streams := r.runs.map fun (runId, snapshot) => (runId, (r.adopted runId snapshot).toEventStore)
    eventRows := r.eventRows.filter fun e => e.runId ∈ Record.keys r.runs
  }

-- A new process on the database of the one before.
def restart (settings : RetentionSettings) (utc : Nat → Timestamp) (r : Registry) : Registry :=
  (r.loadSnapshots settings utc).enforceRetentionOnLoad.adoptRetainedRuns

-- The event store of one run.
def storeOf (r : Registry) (runId : RunId) : Option SQLiteEventStore :=
  (Record.get? r.streams runId).map fun stream => { stream with rows := r.rowsOf runId }

def withStore (runId : RunId) (envelope : RunEvent) (store : SQLiteEventStore) (r : Registry) :
    Registry :=
  {
    r with
    streams := Record.set r.streams runId store.toEventStore
    eventRows := if envelope.isDurable then r.eventRows ++ [envelope] else r.eventRows
  }

end Registry

/--
`commit` is what a step of a run leaves of its snapshot, and `saved` tells whether it is stored too.
-/
inductive RegistryOp where
  | createRun (a : Admission)
  | cleanupOnce (now : Timestamp)
  | append (runId : RunId) (event : RunEventType) (iteration : Nat) (payload : Payload)
    (timestamp : Timestamp)
  | commit (runId : RunId) (snapshot : RunSnapshot) (saved : Bool)
  | shutdown
  | restart (settings : RetentionSettings) (utc : Nat → Timestamp)

namespace Registry

-- A run keeps its id, and one that has ended stays so. Its snapshot never is ahead of its stream.
def Follows (old new : RunSnapshot) (stream : EventStore) : Prop :=
  new.runId = old.runId
    ∧
  (old.status.isTerminal = true → new.status.isTerminal = true)
    ∧
  new.latestEventSequence ≤ stream.sequence

instance (old new : RunSnapshot) (stream : EventStore) : Decidable (Follows old new stream) :=
  inferInstanceAs (Decidable (_ ∧ (_ → _) ∧ _))

-- `uuid4` does not return the id of a run again, and the first event of a run is durable.
def step (r : Registry) : RegistryOp → Option Registry
  | .createRun a =>
    if a.runId ∈ Record.keys r.runs then
      none
    else
      some ((createRun a).run r).2
  | .cleanupOnce now => some (r.cleanupOnce now)
  | .append runId event iteration payload timestamp =>
    match r.storeOf runId with
    | none => none
    | some store =>
      if store.sequence = 0 ∧ event.isTransient then
        none
      else
        match (SQLiteEventStore.append runId event iteration payload timestamp false).run store with
        | (.ok envelope, store) => some (r.withStore runId envelope store)
        | (.error _, _) => none
  | .commit runId snapshot saved =>
    match Record.get? r.runs runId, Record.get? r.streams runId with
    | some old, some stream =>
      if Follows old snapshot stream then
        let r' := { r with runs := Record.set r.runs runId snapshot }
        some (if saved then r'.persist snapshot else r')
      else
        none
    | _, _ => none
  | .shutdown => some { r with accepting := false }
  | .restart settings utc => some (r.restart settings utc)

-- The database is empty.
def init (settings : RetentionSettings) : Registry :=
  {
    settings
    accepting := true
    runs := []
    locks := []
    streams := []
    runRows := []
    eventRows := []
  }

end Registry

end AgenticPrd
