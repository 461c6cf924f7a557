import AgenticPrd.Backend.StateMachine
import AgenticPrd.Lib.Program
import AgenticPrd.Lib.Suffix

/-!
The event streams of one run (`event_store.py`): the bounded hot buffer of `EventStore` and the
durable rows of `SQLiteEventStore`. Rows of other runs are not modelled.
-/

namespace AgenticPrd

-- `TRANSIENT_EVENT_TYPES`
def RunEventType.isTransient : RunEventType → Bool
  | prdDelta => true
  | _ => false

-- The status that a run ends in when its event stream ends with this event.
def RunEventType.ending : RunEventType → Option RunStatus
  | runCompleted => some .completed
  | maxIterationsReached => some .maxIterationsReached
  | runCancelled => some .cancelled
  | runFailed => some .failed
  | _ => none

theorem RunEventType.isTerminal_of_ending {event : RunEventType} {target : RunStatus}
    (h : event.ending = some target) : target.isTerminal = true := by
  cases event <;> simp_all [ending]
  all_goals
    subst h
    rfl

theorem RunEventType.isTransient_of_ending {event : RunEventType} {target : RunStatus}
    (h : event.ending = some target) : event.isTransient = false := by
  cases event <;> simp_all [ending, isTransient]

def RunEvent.isDurable (e : RunEvent) : Bool :=
  !e.event.isTransient

structure EventStore where
  bufferSize : Nat
  events : List RunEvent
  sequence : Nat

-- `rows` is the table `run_events`.
structure SQLiteEventStore extends EventStore where
  rows : List RunEvent

def EventStore.createRun (bufferSize : Nat) : EventStore :=
  {
    bufferSize
    events := []
    sequence := 0
  }

-- `deque(maxlen=bufferSize)` drops its oldest element when it is full.
def EventStore.push (store : EventStore) (envelope : RunEvent) : EventStore :=
  {
    store with
    events := (store.events ++ [envelope]).rtake store.bufferSize
    sequence := envelope.sequence
  }

def EventStore.append (runId : RunId) (event : RunEventType) (iteration : Nat) (payload : Payload)
    (timestamp : Timestamp) : Prog EventStore Exn RunEvent := do
  let store ← get
  let sequence := store.sequence + 1
  match RunEvent.validate? runId sequence event timestamp iteration payload with
  | none => throw .validationError
  | some envelope =>
    set (store.push envelope)
    return envelope

namespace SQLiteEventStore

def createRun (bufferSize : Nat) : SQLiteEventStore :=
  {
    EventStore.createRun bufferSize with
    rows := []
  }

def withBase (base : EventStore) (store : SQLiteEventStore) : SQLiteEventStore :=
  { store with toEventStore := base }

def insertRow (envelope : RunEvent) (insertRaises : Bool) : Prog SQLiteEventStore Exn Unit := do
  let store ← get
  -- `PRIMARY KEY (run_id, sequence)`
  if insertRaises ∨ ∃ row ∈ store.rows, row.sequence = envelope.sequence then
    throw .databaseError
  else
    set { store with rows := store.rows ++ [envelope] }

/--
`insertRaises` tells whether the database raises at the INSERT of this call.
-/
def append (runId : RunId) (event : RunEventType) (iteration : Nat) (payload : Payload)
    (timestamp : Timestamp) (insertRaises : Bool) : Prog SQLiteEventStore Exn RunEvent := do
  let envelope ← Prog.zoom toEventStore withBase
    (EventStore.append runId event iteration payload timestamp)
  if event.isTransient then
    return envelope
  else
    insertRow envelope insertRaises
    return envelope

-- `ORDER BY sequence`
def orderBySequence (rows : List RunEvent) : List RunEvent :=
  rows.insertionSort fun a b => a.sequence ≤ b.sequence

-- `SELECT MIN(sequence)`
def minSequence (rows : List RunEvent) : Option Nat :=
  (rows.map RunEvent.sequence).min?

/--
What a new process holds after `_adopt_retained_runs` and `_warm_cache`. The rows are all that is
left of the store before it.
-/
def adopt (bufferSize initialSequence : Nat) (rows : List RunEvent) : SQLiteEventStore :=
  let newest := (orderBySequence rows).rtake bufferSize
  {
    bufferSize
    events := newest
    sequence := newest.foldl (fun sequence e => max sequence e.sequence) initialSequence
    rows
  }

def replayRows (store : SQLiteEventStore) (afterSequence : Nat) : Except Exn (List RunEvent) :=
  match minSequence store.rows with
  | some oldest =>
    if afterSequence + 1 < oldest then
      throw (.eventExpired oldest)
    else
      return orderBySequence (store.rows.filter fun e => afterSequence < e.sequence)
  | none => return []

def replay (store : SQLiteEventStore) (afterSequence : Nat) : Except Exn (List RunEvent) :=
  match store.events with
  | first :: _ =>
    if first.sequence ≤ afterSequence + 1 then
      return store.events.filter fun e => afterSequence < e.sequence
    else
      store.replayRows afterSequence
  | [] => store.replayRows afterSequence

end SQLiteEventStore

end AgenticPrd
