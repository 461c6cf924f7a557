import AgenticPrd.Backend.RunManager.Basic
import AgenticPrd.Backend.Serialization

/-!
What a new process makes of the snapshots in the database (`run_store.py`).
-/

namespace AgenticPrd

namespace SQLiteRunStore

def interrupted (now : Timestamp) (snapshot : RunSnapshot) : RunSnapshot :=
  {
    snapshot with
    status := .failed
    nodeStatuses := match snapshot.activeNode with
      | none => snapshot.nodeStatuses
      | some node => Function.update snapshot.nodeStatuses node .failed
    error := some {
      code := "RUN_INTERRUPTED"
      message := "The backend restarted before the run completed."
      retryable := true
    }
    activeNode := none
    completedAt := some now
    updatedAt := now
  }

-- `_load_snapshots`, for one row
def loadSnapshot (now : Timestamp) (snapshot : RunSnapshot) : RunSnapshot :=
  if snapshot.status.isTerminal then
    snapshot
  else
    interrupted now snapshot

/--
`_load_snapshots`: the rows are read one after the other, and the clock is read for a run that was
interrupted. `none` where the validators raise.
-/
def loadSnapshots (datetime : Codec String Timestamp) (utc : Nat → Timestamp) :
    Nat → List Json → Option (List RunSnapshot)
  | _, [] => some []
  | ticks, row :: rows => do
    let snapshot ← RunSnapshot.validateJson? datetime row
    let ticks' := if snapshot.status.isTerminal then ticks else ticks + 1
    let loaded ← loadSnapshots datetime utc ticks' rows
    return loadSnapshot (utc ticks) snapshot :: loaded

-- What `loadSnapshots` makes of rows that the validators accept.
def loadRows (utc : Nat → Timestamp) : Nat → List RunSnapshot → List RunSnapshot
  | _, [] => []
  | ticks, row :: rows =>
    let ticks' := if row.status.isTerminal then ticks else ticks + 1
    loadSnapshot (utc ticks) row :: loadRows utc ticks' rows

theorem loadSnapshots_dumpJson (datetime : Codec String Timestamp) (utc : Nat → Timestamp)
    (ticks : Nat) {rows : List RunSnapshot} (h : ∀ row ∈ rows, row.Valid) :
    loadSnapshots datetime utc ticks (rows.map (RunSnapshot.dumpJson datetime))
      =
    some (loadRows utc ticks rows) := by
  induction rows generalizing ticks with
  | nil => rfl
  | cons row rows ih =>
    rw [List.forall_mem_cons] at h
    rw [List.map_cons]
    unfold loadSnapshots
    rw [RunSnapshot.validateJson?_dumpJson h.1]
    simp only [Option.bind_eq_bind, Option.bind_some, ih _ h.2]
    rfl

theorem loadSnapshot_status (now : Timestamp) (snapshot : RunSnapshot) :
    (loadSnapshot now snapshot).status
      =
    if snapshot.status.isTerminal then snapshot.status else .failed := by
  unfold loadSnapshot
  split <;> rfl

-- The reloaded run has the status of every terminal event in its log.
def Agrees (db : Database) : Prop :=
  ∀ now, ∀ row ∈ db.rows, ∀ status, row.event.ending = some status →
    (loadSnapshot now db.runRow).status = status

end SQLiteRunStore

-- The write is the INSERT of an event that ends the run other than by a failure.
def DiskWrite.endsRun : DiskWrite → Prop
  | insertEvent e => ∃ status, e.event.ending = some status ∧ status ≠ .failed
  | saveSnapshot => False

end AgenticPrd
