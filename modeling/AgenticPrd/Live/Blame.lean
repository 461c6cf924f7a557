import AgenticPrd.Backend.Workflow.Blame
import AgenticPrd.Client.Contracts

/-!
The failure of a run, from the answer that is to blame for it to the text that the client shows.
-/

namespace AgenticPrd

namespace Live

open RunManager Workflow Transition

variable {env : WorkflowEnv} {runId : RunId} {request : CreateRunRequest} {outputLanguage : String}
  {bufferSize : Nat} {log : List Exn} {c : Config}

-- The client has a text of its own for the code of every failure.
theorem failure_told (exn : Exn) : (Record.get? Client.errorMessages exn.failure.code).isSome = true := by
  have hunnamed : (Record.get? Client.errorMessages "WORKFLOW_FAILED").isSome = true := by decide
  cases exn with
  | providerError error => cases error <;> decide
  | timeoutError => decide
  | validationError => decide
  | _ => exact hunnamed

-- The code of an exception that the workflow does not name.
theorem failure_unnamed {raised : ProviderExn} (h : raised.toExn.failure.code = "WORKFLOW_FAILED") :
    raised = .otherError := by
  cases raised with
  | providerError error => cases error <;> contradiction
  | timeoutError => contradiction
  | validationError => contradiction
  | otherError => rfl

structure FailuresBlamed (log : List Exn) (c : Config) : Prop where
  blamed :
    ∀ exn, c.pc = .finished (some exn) → exn = .timeoutError ∨ exn = .workflowCancelled ∨ exn ∈ log
  ended :
    ∀ exn, c.pc = .finished (some exn) →
      c.world.snapshot.status = .cancelled ∨ c.world.snapshot.status = .failed
  failed :
    c.world.snapshot.status = .failed →
      ∃ exn, c.pc = .finished (some exn) ∧ (exn = .timeoutError ∨ exn ∈ log)
        ∧ c.world.snapshot.error = some exn.failure
  unnamed :
    c.world.snapshot.status = .failed → ∀ error, c.world.snapshot.error = some error →
      error.code = "WORKFLOW_FAILED" → .otherError ∈ log
  told :
    c.world.snapshot.status = .failed → ∀ error, c.world.snapshot.error = some error →
      (Record.get? Client.errorMessages error.code).isSome = true

theorem failures_blamed (hrun : Traced (step env) always (blamed env)
    (init env.toEnv runId request outputLanguage bufferSize) log c) : FailuresBlamed log c := by
  have h := answerable hrun
  have hblamed : ∀ exn, c.pc = .finished (some exn) →
      exn = .timeoutError ∨ exn = .workflowCancelled ∨ exn ∈ log := by
    intro exn hpc
    have hready := h.ready
    have hlegal := h.inv.pc
    rw [hpc] at hready hlegal
    rcases hready exn rfl with hexn | hexn | ⟨current, target, rfl⟩ | hexn
    . exact .inl hexn
    . exact .inr (.inl hexn)
    . exact absurd rfl (hlegal.2.2 _ rfl current target)
    . exact .inr (.inr hexn)
  have hfailed : c.world.snapshot.status = .failed →
      ∃ exn, c.pc = .finished (some exn) ∧ (exn = .timeoutError ∨ exn ∈ log)
        ∧ c.world.snapshot.error = some exn.failure := by
    intro hstatus
    obtain ⟨outcome, hpc⟩ := h.inv.finished_of_failed hstatus
    have hreported := h.reported outcome hpc
    cases outcome with
    | none => simp [Reported, hstatus] at hreported
    | some exn =>
      rcases hreported with hcancelled | ⟨hraised, _, herror⟩
      . rw [hstatus] at hcancelled
        contradiction
      . refine ⟨exn, hpc, ?_, herror⟩
        rcases hblamed exn hpc with hexn | hexn | hexn
        . exact .inl hexn
        . exact absurd hexn hraised
        . exact .inr hexn
  exact {
    blamed := hblamed
    ended := by
      intro exn hpc
      rcases h.reported _ hpc with hcancelled | ⟨_, hstatus, _⟩
      . exact .inl hcancelled
      . exact .inr hstatus
    failed := hfailed
    unnamed := by
      intro hstatus error herror hcode
      obtain ⟨exn, _, hexn, herror'⟩ := hfailed hstatus
      rw [herror] at herror'
      cases herror'
      rcases hexn with rfl | hexn
      . contradiction
      . obtain ⟨raised, rfl⟩ := blamed_toExn hrun exn hexn
        rw [failure_unnamed hcode] at hexn
        exact hexn
    told := by
      intro hstatus error herror
      obtain ⟨exn, _, _, herror'⟩ := hfailed hstatus
      rw [herror] at herror'
      cases herror'
      exact failure_told exn
  }

-- A stream that ends without the usage of the call, twice.
def unmeteredTwice : List Label :=
  let chunk : ProviderTextEvent :=
    {
      delta := "# PRD\n<!-- PRD_COMPLETE -->\n"
      usage := none
      finishReason := some "stop"
    }
  [
    .begin,
    .enterGenerator,
    .generatorWake (.returned (some chunk)),
    .generatorWake (.returned none),
    .generatorWake (.returned (some chunk)),
    .generatorWake (.returned none)
  ]

theorem failures_blamed_unmetered :
    ∃ log c,
      trace (step mockWorkflow) (blamed mockWorkflow) [] mockInit unmeteredTwice = some (log, c)
        ∧ c.world.snapshot.status = .failed
        ∧ c.world.snapshot.error.map RunError.code = some "PROVIDER_TEMPORARY_ERROR"
        ∧ log = [.providerError .retryable, .providerError .retryable]
        ∧ FailuresBlamed log c := by
  have hshown :
      (trace (step mockWorkflow) (blamed mockWorkflow) [] mockInit unmeteredTwice).map
          (fun shown =>
            (shown.2.world.snapshot.status, shown.2.world.snapshot.error.map RunError.code, shown.1))
        = some (.failed, some "PROVIDER_TEMPORARY_ERROR",
          [.providerError .retryable, .providerError .retryable]) := by decide +kernel
  obtain ⟨⟨log, c⟩, htrace, hall⟩ := Option.map_eq_some_iff.mp hshown
  rw [Prod.mk.injEq, Prod.mk.injEq] at hall
  obtain ⟨hstatus, hcode, hlog⟩ := hall
  exact ⟨log, c, htrace, hstatus, hcode, hlog,
    failures_blamed (Traced.of_trace .refl (allowed_always _) htrace)⟩

end Live

end AgenticPrd
