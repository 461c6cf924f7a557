import AgenticPrd.Backend.Workflow.Course

/-!
Whose fault it is when a run fails: the exceptions that the provider's answers have given cause for,
step by step, and the one that the run has ended with.
-/

namespace AgenticPrd

namespace Workflow

open RunManager Transition

variable {env : WorkflowEnv} {c c' : Config} {label : Label} {log : List Exn}

-- The causes that a step adds to the log.
def blamed (env : WorkflowEnv) (c : Config) (label : Label) (_ : Config) : List Exn :=
  blames env c.pc label

-- The exceptions that the workflow may end with after the log.
def Excused (log : List Exn) (exn : Exn) : Prop :=
  exn = .timeoutError ∨ exn = .workflowCancelled ∨ Illegal exn ∨ exn ∈ log

theorem permits_excused : Permits (Excused log) :=
  {
    timeout := .inl rfl
    cancelled := .inr (.inl rfl)
    illegal := fun _ hillegal => .inr (.inr (.inl hillegal))
  }

theorem Excused.append {exn : Exn} (h : Excused log exn) (more : List Exn) :
    Excused (log ++ more) exn := by
  rcases h with h | h | h | h
  . exact .inl h
  . exact .inr (.inl h)
  . exact .inr (.inr (.inl h))
  . exact .inr (.inr (.inr (List.mem_append_left more h)))

-- What is in the log is an exception that a provider may raise.
theorem blames_toExn {pc : Pc} {exn : Exn} (h : exn ∈ blames env pc label) :
    ∃ raised : ProviderExn, exn = raised.toExn := by
  have hvalidation : ∃ raised : ProviderExn, Exn.validationError = raised.toExn :=
    ⟨.validationError, rfl⟩
  unfold blames at h
  split at h
  . simp only [List.mem_singleton] at h
    exact ⟨_, h⟩
  . split at h
    . next error _ =>
      simp only [List.mem_singleton] at h
      exact ⟨.providerError error, h⟩
    . split at h
      . simp only [List.mem_singleton] at h
        exact ⟨.providerError .retryable, h⟩
      . contradiction
  . simp only [List.mem_singleton] at h
    exact ⟨_, h⟩
  . split at h
    . split at h
      . contradiction
      . simp only [List.mem_singleton] at h
        rw [h]
        exact hvalidation
    . simp only [List.mem_singleton] at h
      rw [h]
      exact hvalidation
    . contradiction
  . simp only [List.mem_singleton] at h
    exact ⟨_, h⟩
  . split at h
    . simp only [List.mem_singleton] at h
      rw [h]
      exact hvalidation
    . contradiction
  . contradiction

-- A request finds a run that has ended as it is.
theorem step_request_ended (hended : c.world.snapshot.status.isTerminal = true)
    (hlabel : label.isRequest = true) (hstep : step env c label = some c') : c' = c := by
  have hserve : ∀ {request : Prog World Exn RunSnapshot},
      Prog.wp request c.world (fun _ w => w = c.world) (fun _ w => w = c.world) →
      serve c request = c := by
    intro request hwp
    have hsame : (request.run c.world).2 = c.world := by
      unfold Prog.wp at hwp
      split at hwp
      . next heq => rw [heq, hwp]
      . next heq => rw [heq, hwp]
    unfold serve
    rw [hsame]
  have hpaused : c.world.snapshot.status ≠ .paused := by
    intro heq
    rw [heq] at hended
    contradiction
  cases label with
  | requestPause =>
    cases hstep
    apply hserve
    unfold requestPause
    rw [Prog.wp_bind, Prog.wp_get, if_pos hended]
    rfl
  | resumeRun userOverride =>
    cases hstep
    apply hserve
    unfold resumeRun
    rw [Prog.wp_bind, Prog.wp_get, if_neg hpaused]
    rfl
  | cancelRun =>
    cases hstep
    apply hserve
    unfold cancelRun
    rw [Prog.wp_bind, Prog.wp_get]
    split
    . rfl
    . rfl
  | _ => contradiction

theorem Reported.isTerminal {snapshot : RunSnapshot} {outcome : Option Exn}
    (h : Reported snapshot outcome) : snapshot.status.isTerminal = true := by
  cases outcome with
  | none =>
    simp only [Reported, List.mem_cons, List.not_mem_nil, or_false] at h
    rcases h with h | h | h <;> rw [h] <;> rfl
  | some exn =>
    rcases h with h | ⟨_, h, _⟩ <;> rw [h] <;> rfl

-- The workflow only waits for what the log excuses, and the end of its task is reported.
structure Answerable (log : List Exn) (c : Config) : Prop where
  inv : Inv c
  ready : Ready (Excused log) c.world.snapshot.plot c.pc
  reported : ∀ outcome, c.pc = .finished outcome → Reported c.world.snapshot outcome

theorem Answerable.step (h : Answerable log c) (hstep : step env c label = some c') :
    Answerable (log ++ blamed env c label c') c' := by
  have hready := h.ready.mono fun exn hexn => hexn.append (blamed env c label c')
  have hobeys : Obeys env (Excused (log ++ blamed env c label c')) c label c' := by
    apply step_obeys h.inv permits_excused hready _ hstep
    intro exn hexn
    exact .inr (.inr (.inr (List.mem_append_right log hexn)))
  refine ⟨(Keeps.step h.inv hstep).inv, hobeys.move.ready hready, ?_⟩
  intro outcome hpc
  cases hlabel : label.isRequest with
  | true =>
    rw [step_request hlabel hstep] at hpc
    have hreported := h.reported outcome hpc
    rw [step_request_ended hreported.isTerminal hlabel hstep]
    exact hreported
  | false => exact hobeys.reported hlabel outcome hpc

variable {runId : RunId} {request : CreateRunRequest} {outputLanguage : String} {bufferSize : Nat}

theorem Answerable.init :
    Answerable [] (init env.toEnv runId request outputLanguage bufferSize) :=
  {
    inv := Inv.init
    ready := trivial
    reported := by
      intro outcome hpc
      contradiction
  }

theorem answerable (hrun : Traced (Workflow.step env) always (blamed env)
    (Workflow.init env.toEnv runId request outputLanguage bufferSize) log c) : Answerable log c := by
  apply hrun.invariant Answerable.init
  intro log c label c' h _ hstep
  exact h.step hstep

theorem blamed_toExn (hrun : Traced (Workflow.step env) always (blamed env)
    (Workflow.init env.toEnv runId request outputLanguage bufferSize) log c) :
    ∀ exn ∈ log, ∃ raised : ProviderExn, exn = raised.toExn := by
  apply hrun.invariant (I := fun log _ => ∀ exn ∈ log, ∃ raised : ProviderExn, exn = raised.toExn)
  . simp
  . intro log c label c' h _ _ exn hexn
    cases List.mem_append.mp hexn with
    | inl hold => exact h exn hold
    | inr hnew => exact blames_toExn hnew

-- Every place of the workflow goes with some statuses, and only the end of its task with FAILED.
theorem Inv.live (hinv : Inv c) :
    ∃ statuses, Live statuses c.world.view
      ∧ (.failed ∈ statuses → ∃ outcome, c.pc = .finished outcome) := by
  have hpc := hinv.pc
  have hplace : ∀ {statuses}, Live statuses c.world.view → .failed ∉ statuses →
      ∃ statuses, Live statuses c.world.view
        ∧ (.failed ∈ statuses → ∃ outcome, c.pc = .finished outcome) := by
    intro statuses hlive hnot
    exact ⟨statuses, hlive, fun hfailed => absurd hfailed hnot⟩
  cases heq : c.pc with
  | finished outcome =>
    rw [heq] at hpc
    exact ⟨_, hpc.2.1, fun _ => ⟨outcome, rfl⟩⟩
  | generating frame =>
    rw [heq] at hpc hplace
    exact hplace hpc.1.live (by simp)
  | aggregatorParked | optimizerParked =>
    rw [heq] at hpc hplace
    exact hplace hpc.2.1 (by simp)
  | routing =>
    rw [heq] at hpc hplace
    rcases hpc with hpc | hpc | hpc <;> exact hplace hpc.2 (by simp)
  | toOptimizer =>
    rw [heq] at hpc hplace
    exact hplace hpc.2 (by simp)
  | _ =>
    rw [heq] at hpc hplace
    exact hplace hpc.2.1 (by simp)

-- The task of a run that has failed is over.
theorem Inv.finished_of_failed (hinv : Inv c) (hfailed : c.world.snapshot.status = .failed) :
    ∃ outcome, c.pc = .finished outcome := by
  obtain ⟨statuses, hlive, hended⟩ := hinv.live
  rw [← World.view_status] at hfailed
  rcases hlive with ⟨_, hcancelled⟩ | ⟨_, hmem⟩
  . rw [hfailed] at hcancelled
    contradiction
  . apply hended
    rw [← hfailed]
    exact hmem

-- A run that has not been cancelled is not being cancelled.
theorem Inv.clear (hinv : Inv c) (hopen : c.world.snapshot.status ≠ .cancelled) :
    c.world.cancelSignal = false := by
  obtain ⟨_, hlive, _⟩ := hinv.live
  rcases hlive with ⟨_, hcancelled⟩ | ⟨hclear, _⟩
  . exact absurd hcancelled hopen
  . exact hclear

end Workflow

end AgenticPrd
