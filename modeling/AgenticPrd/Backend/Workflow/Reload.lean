import AgenticPrd.Backend.RunManager.Valid
import AgenticPrd.Backend.Workflow.Safety

/-!
Every snapshot that is stored for a run can be read again by a new process.
-/

namespace AgenticPrd

open RunManager Workflow

namespace SQLiteRunStore

-- What the table `runs` can hold: a row that a run has saved, or one that a new process has read.
inductive Persisted : RunSnapshot → Prop where
  | saved {env : WorkflowEnv} {runId : RunId} {request : CreateRunRequest} {outputLanguage : String}
    {bufferSize : Nat} {c : Config} {row : RunSnapshot}
    (hreach : Reachable env runId request outputLanguage bufferSize c)
    (hrow : row ∈ savedRows c.world) : Persisted row
  | loaded {row : RunSnapshot} (now : Timestamp) (hrow : Persisted row) :
    Persisted (loadSnapshot now row)

-- What becomes of a row. The run that it belongs to has ended, or is ended now.
structure Reloads (row loaded : RunSnapshot) : Prop where
  ended : row.status.isTerminal = true → loaded = row
  interrupted :
    row.status.isTerminal = false →
      ∃ nodeStatuses error completedAt updatedAt,
        loaded
            = {
              row with
              status := .failed
              activeNode := none
              nodeStatuses
              error
              completedAt
              updatedAt
            }
          ∧ ∀ node, row.activeNode ≠ some node → nodeStatuses node = row.nodeStatuses node

variable {row : RunSnapshot} {rows : List RunSnapshot}

theorem reloads_loadSnapshot (now : Timestamp) (row : RunSnapshot) :
    Reloads row (loadSnapshot now row) := by
  constructor
  . intro hended
    exact if_pos hended
  . intro hopen
    have hload : loadSnapshot now row = interrupted now row := by
      unfold loadSnapshot
      rw [hopen]
      rfl
    rw [hload]
    refine ⟨_, _, _, _, rfl, ?_⟩
    intro node hnode
    cases hactive : row.activeNode with
    | none => rfl
    | some active =>
      have hne : node ≠ active := by
        rintro rfl
        contradiction
      exact Function.update_of_ne hne _ _

theorem Persisted.valid (h : Persisted row) : row.Valid := by
  induction h with
  | @saved env runId request outputLanguage bufferSize c row hreach hrow =>
    have hcreated := valid_create env.toEnv runId request outputLanguage (env.utc 0)
    cases hreach.keeps.sound.rows row hrow with
    | inl hinitial =>
      have hrow' : row = createSnapshot env.toEnv runId request outputLanguage (env.utc 0) := by
        simpa [savedRows, Workflow.init, create] using hinitial
      rw [hrow']
      exact hcreated
    | inr hcommit =>
      obtain ⟨commit, hmem, rfl⟩ := hcommit
      obtain ⟨before, _, _, hbefore, _⟩ := hreach.history.through hmem
      exact hbefore.valid hcreated
  | loaded now _ ih => exact valid_loadSnapshot ih now

theorem reloads_loadRows (utc : Nat → Timestamp) (ticks : Nat) (rows : List RunSnapshot) :
    List.Forall₂ Reloads rows (loadRows utc ticks rows) := by
  induction rows generalizing ticks with
  | nil => exact .nil
  | cons row rows ih => exact .cons (reloads_loadSnapshot _ _) (ih _)

/--
The validators accept every row that the table `runs` can hold, so that a new process loads them all:
a run that has ended as it was stored, and any other one as a run that has failed.
-/
theorem snapshots_reload (datetime : Codec String Timestamp) (utc : Nat → Timestamp) (ticks : Nat)
    (h : ∀ row ∈ rows, Persisted row) :
    (∀ row ∈ rows, row.Valid)
      ∧
    ∃ loaded,
      loadSnapshots datetime utc ticks (rows.map (RunSnapshot.dumpJson datetime)) = some loaded
        ∧ List.Forall₂ Reloads rows loaded := by
  have hvalid : ∀ row ∈ rows, row.Valid := fun row hrow => (h row hrow).valid
  refine ⟨hvalid, loadRows utc ticks rows, ?_, reloads_loadRows utc ticks rows⟩
  exact loadSnapshots_dumpJson datetime utc ticks hvalid

-- A timestamp in unary.
def mockDatetime : Codec String Timestamp :=
  {
    encode := fun t => String.ofList (List.replicate t.natAbs (if t < 0 then '-' else '+'))
    decode := fun s => some (if s.toList.head? = some '-' then -s.toList.length else s.toList.length)
    decode_encode := by
      intro (t : Int)
      rw [String.toList_ofList, List.length_replicate, List.head?_replicate, Option.some_inj]
      by_cases h : t < 0
      . have hne : t.natAbs ≠ 0 := by omega
        rw [if_pos h, if_neg hne, if_pos rfl]
        have hsize : -(t.natAbs : Int) = t := by omega
        exact hsize
      . have hsign : (if t.natAbs = 0 then none else some (if t < 0 then '-' else '+')) ≠ some '-' := by
          rw [if_neg h]
          split <;> simp
        rw [if_neg hsign]
        have hsize : (t.natAbs : Int) = t := by omega
        exact hsize
  }

-- A run that is reloaded while its first version streams.
theorem snapshots_reload_generation :
    (∀ row ∈ [(mockRun mockGeneration).world.runRow], row.Valid)
      ∧
    ∃ loaded,
      loadSnapshots mockDatetime (fun _ => 0) 0
          ([(mockRun mockGeneration).world.runRow].map (RunSnapshot.dumpJson mockDatetime))
          = some loaded
        ∧ List.Forall₂ Reloads [(mockRun mockGeneration).world.runRow] loaded := by
  have hreach : Reachable mockWorkflow "run" mockRequest "English" 1000 (mockRun mockGeneration) :=
    mockRun_reachable (by decide +kernel)
  apply snapshots_reload
  intro row hrow
  rw [List.mem_singleton] at hrow
  rw [hrow]
  exact .saved hreach List.mem_cons_self

end SQLiteRunStore

end AgenticPrd
