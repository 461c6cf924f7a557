import AgenticPrd.Backend.Workflow.Run

/-!
What a process that is killed at some point of a run leaves to the next one. An event and the
snapshot after it are written by two transactions, and the loader reads the snapshot alone.
-/

namespace AgenticPrd

namespace Workflow

open RunManager SQLiteRunStore

variable {env : WorkflowEnv} {runId : RunId} {request : CreateRunRequest} {outputLanguage : String}
  {bufferSize : Nat} {c : Config} {db : Database}

-- A crash ahead of the last save: the run is reloaded as interrupted, with its end still to be
-- replayed to a subscriber that starts from the snapshot.
structure Interrupted (db : Database) (snapshot : RunSnapshot) : Prop where
  status : snapshot.status = .failed
  code : ∃ error ∈ snapshot.error, error.code = "RUN_INTERRUPTED"
  replayed :
    ∃ row ∈ db.rows,
      (∃ status, row.event.ending = some status) ∧ snapshot.latestEventSequence < row.sequence

theorem interrupted_of_ahead (h : Ahead db) (now : Timestamp) :
    Interrupted db (loadSnapshot now db.runRow) := by
  obtain ⟨hopen, hrow⟩ := h
  have hload : loadSnapshot now db.runRow = interrupted now db.runRow := by
    unfold loadSnapshot
    rw [hopen]
    rfl
  rw [hload]
  exact {
    status := rfl
    code := ⟨_, rfl, rfl⟩
    replayed := hrow
  }

-- Of every state that the database has gone through: a crash may have come right after.
def CrashConsistent (c : Config) : Prop :=
  ∀ entry ∈ c.world.disk,
    (¬entry.1.endsRun → Agrees entry.2)
      ∧
    (entry.1.endsRun → ∀ now, Interrupted entry.2 (loadSnapshot now entry.2.runRow))

theorem ending_consistent (h : Reachable env runId request outputLanguage bufferSize c) :
    CrashConsistent c := by
  intro entry hentry
  have hconsistent := h.inv.sound.disk entry hentry
  constructor
  . exact hconsistent.2
  . intro hends now
    apply interrupted_of_ahead
    exact hconsistent.1 hends

def endsBesideOpen (entry : DiskWrite × Database) : Bool :=
  entry.2.rows.any fun row =>
    row.event.ending = some .cancelled && !entry.2.runRow.status.isTerminal

theorem not_agrees_of_endsBesideOpen {entry : DiskWrite × Database}
    (h : endsBesideOpen entry = true) : ¬Agrees entry.2 := by
  unfold endsBesideOpen at h
  rw [List.any_eq_true] at h
  obtain ⟨row, hrow, hbeside⟩ := h
  simp only [Bool.and_eq_true, decide_eq_true_eq, Bool.not_eq_true'] at hbeside
  intro hagrees
  have hstatus := agrees_iff.mp hagrees row hrow .cancelled hbeside.1
  rw [hbeside.2] at hstatus
  contradiction

-- A run that is cancelled, and killed between the INSERT of `run_cancelled` and the save.
theorem not_ending_consistent :
    ¬∀ c, Reachable mockWorkflow "run" mockRequest "English" 1000 c →
      ∀ entry ∈ c.world.disk, Agrees entry.2 := by
  intro hclaim
  have hreach : Reachable mockWorkflow "run" mockRequest "English" 1000
      (mockRun [.begin, .cancelRun]) := mockRun_reachable (by rfl)
  have hany : (mockRun [.begin, .cancelRun]).world.disk.any endsBesideOpen = true := by rfl
  rw [List.any_eq_true] at hany
  obtain ⟨entry, hentry, hbeside⟩ := hany
  exact not_agrees_of_endsBesideOpen hbeside (hclaim _ hreach entry hentry)

theorem ending_consistent_cancelled : CrashConsistent (mockRun [.begin, .cancelRun]) :=
  ending_consistent (mockRun_reachable (by rfl))

end Workflow

end AgenticPrd
