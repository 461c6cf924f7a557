import AgenticPrd.Backend.Workflow.Run
import Mathlib.Tactic.Linarith

/-!
What a run still does after `cancel_run` has stored CANCELLED: every node meets a cancel check before
it commits, except the first commit of the task and the bookkeeping of a failed generator attempt.
-/

namespace AgenticPrd

namespace Workflow

open RunManager Prog Transition

-- The flush of the text that has arrived is due, and so is its cancel check.
def FlushDue (frame : GeneratorFrame) (now : ℚ) : Prop :=
  frame.buffer ≠ "" ∧ (128 ≤ frame.buffer.length ∨ 1 / 20 ≤ now - frame.lastFlush)

def received (frame : GeneratorFrame) (event : ProviderTextEvent) : GeneratorFrame :=
  {
    frame with
    content := frame.content ++ event.delta
    buffer := frame.buffer ++ event.delta
  }

/--
The attempt fails with an exception that is retried, before a cancel check is reached: the wait ends
with such an exception, the stream ends with an incomplete document, or its deadline has passed.
-/
def AttemptFails (env : Env) (w : World) (frame : GeneratorFrame) :
    Await → Answer (Option ProviderTextEvent) → Prop
  | .settling exn, _ => exn.isRetried = true
  | .waiting, .returned none =>
    frame.buffer = ""
      ∧
    match PrdDocument.validateGeneratedPrd frame.content frame.finishReason with
    | .error error => error.isRetryable = true
    | .ok _ => frame.usage = none
  | .waiting, .returned (some event) =>
    ¬FlushDue (received frame event) (env.clock w.ticks)
      ∧ frame.deadline ≤ env.clock (w.ticks + 1)
  | .waiting, .raised exn => exn.toExn.isRetried = true
  | .waiting, .timedOut => True
  | .waiting, .cancelled => False
  | .waiting, .settled => False

-- A step of a cancelled run that commits all the same.
def Late (env : WorkflowEnv) (c : Config) : Label → Prop
  | .begin => c.pc = .created
  | .generatorWake answer =>
    ∃ frame, c.pc = .generating frame ∧ AttemptFails env.toEnv c.world frame frame.await answer
  | _ => False

-- Nothing of the run has changed but the readings of the clock and the record of the attempt.
structure Frozen (w w' : World) : Prop where
  snapshot : w'.snapshot = w.snapshot
  runRow : w'.runRow = w.runRow
  eventStore : w'.eventStore = w.eventStore
  cancelSignal : w'.cancelSignal = w.cancelSignal

theorem Frozen.refl (w : World) : Frozen w w :=
  {
    snapshot := rfl
    runRow := rfl
    eventStore := rfl
    cancelSignal := rfl
  }

theorem Frozen.trans {w w1 w2 : World} (h : Frozen w w1) (h' : Frozen w1 w2) : Frozen w w2 :=
  {
    snapshot := h'.snapshot.trans h.snapshot
    runRow := h'.runRow.trans h.runRow
    eventStore := h'.eventStore.trans h.eventStore
    cancelSignal := h'.cancelSignal.trans h.cancelSignal
  }

variable {env : Env} {w : World}

theorem Frozen.tick (w : World) : Frozen w w.tick :=
  {
    snapshot := rfl
    runRow := rfl
    eventStore := rfl
    cancelSignal := rfl
  }

section Cancelled

variable (hset : w.cancelSignal = true)

include hset

theorem wp_checkCancel_set {Q : Unit → World → Prop} {E : Exn → World → Prop}
    (hE : E .workflowCancelled w) : wp (checkCancel env) w Q E := by
  unfold checkCancel
  rw [wp_bind, wp_get, if_pos hset]
  exact hE

theorem wp_beginAwait_set {call : Option ProviderCall} {Q : Await → World → Prop}
    {E : Exn → World → Prop} (hQ : Q (.settling .workflowCancelled) w) :
    wp (beginAwait env call) w Q E := by
  unfold beginAwait
  rw [wp_tryCatch, wp_bind]
  apply wp_checkCancel_set hset
  exact hQ

theorem wp_commitDelta_set {state : RunSnapshot} {attempt : Nat} {delta : String}
    {Q : RunSnapshot → World → Prop} {E : Exn → World → Prop} (hE : E .workflowCancelled w) :
    wp (commitDelta env state attempt delta) w Q E := by
  unfold commitDelta
  rw [wp_bind]
  exact wp_checkCancel_set hset hE

end Cancelled

theorem wp_awaitResult {α : Type} {await : Await} {answer : Answer α} {Q : α → World → Prop}
    {E : Exn → World → Prop} (hQ : ∀ value, Q value w) (hE : ∀ exn, E exn w) :
    wp (awaitResult await answer) w Q E := by
  cases await with
  | settling exn => exact hE exn
  | waiting =>
    cases answer with
    | returned value => exact hQ value
    | _ => exact hE _

section Generator

variable {frame : GeneratorFrame} {answer : Answer (Option ProviderTextEvent)}

-- An attempt of a cancelled run may raise here, if the loop does not catch it.
def Quits (w : World) (exn : Exn) (w' : World) : Prop :=
  Frozen w w' ∧ exn.isRetried = false

theorem Frozen.set {w' : World} (h : Frozen w w') (hset : w.cancelSignal = true) :
    w'.cancelSignal = true := by
  rw [h.cancelSignal]
  exact hset

theorem wp_endStream_set (hset : w.cancelSignal = true) (hawait : frame.await = .waiting)
    (hlate : ¬AttemptFails env w frame frame.await (.returned none)) :
    wp (endStream env frame) w (fun _ => Frozen w) (Quits w) := by
  rw [hawait] at hlate
  unfold endStream
  dsimp only
  rw [wp_ite]
  by_cases hbuffer : frame.buffer ≠ ""
  . rw [if_pos hbuffer, wp_bind]
    apply wp_commitDelta_set hset
    exact ⟨Frozen.refl w, rfl⟩
  . rw [if_neg hbuffer, wp_bind]
    simp only [ne_eq, not_not] at hbuffer
    unfold AttemptFails at hlate
    unfold validatedPrd
    split
    . next error heq =>
      rw [heq] at hlate
      refine ⟨Frozen.refl w, ?_⟩
      simpa [hbuffer, Exn.isRetried] using hlate
    . next validated heq =>
      rw [heq] at hlate
      cases husage : frame.usage with
      | none =>
        rw [husage] at hlate
        simp [hbuffer] at hlate
      | some usage => exact Frozen.refl w

theorem wp_awaitEvent_set {Q : GeneratorFrame → World → Prop} {E : Exn → World → Prop}
    (hset : w.cancelSignal = true) (hdeadline : env.clock w.ticks < frame.deadline)
    (hQ : ∀ frame', Q frame' w.tick) : wp (awaitEvent env frame) w Q E := by
  have htick : w.tick.cancelSignal = true := hset
  unfold awaitEvent
  rw [wp_bind, wp_monotonic, if_neg (by linarith), wp_bind]
  apply wp_beginAwait_set htick
  exact hQ _

theorem wp_noteUsage_frozen {usage : Option TokenUsage} {Q : GeneratorFrame → World → Prop}
    {E : Exn → World → Prop}
    (hQ : ∀ frame' w', frame'.deadline = frame.deadline → Frozen w w' → w'.ticks = w.ticks →
      Q frame' w') :
    wp (noteUsage usage frame) w Q E := by
  cases usage with
  | none => exact hQ frame w rfl (Frozen.refl w) rfl
  | some usage =>
    apply hQ
    . rfl
    . constructor <;> rfl
    . rfl

-- An event for which a flush is due meets the cancel check of the flush.
theorem wp_consumeEvent_set {event : ProviderTextEvent} {Q : GeneratorFrame → World → Prop}
    {E : Exn → World → Prop} (hset : w.cancelSignal = true)
    (hflush : FlushDue (received frame event) (env.clock w.ticks) → E .workflowCancelled w.tick)
    (hQ : ¬FlushDue (received frame event) (env.clock w.ticks) →
      ∀ frame' w', frame'.deadline = frame.deadline → Frozen w w' → w'.ticks = w.ticks + 1 →
        Q frame' w') :
    wp (consumeEvent env frame event) w Q E := by
  have htick : w.tick.cancelSignal = true := hset
  unfold consumeEvent flush
  dsimp only
  rw [wp_bind, wp_monotonic, wp_bind, wp_ite]
  split
  . next hdue =>
    rw [wp_bind]
    apply wp_commitDelta_set htick
    exact hflush hdue
  . next hdue =>
    rw [wp_pure, wp_bind]
    apply wp_noteUsage_frozen
    intro frame' w' hdeadline hfrozen hticks
    have hfrozen' := (Frozen.tick w).trans hfrozen
    split
    . exact hQ hdue frame' w' hdeadline hfrozen' hticks
    . split
      . exact hQ hdue frame' w' hdeadline hfrozen' hticks
      . exact hQ hdue _ w' hdeadline hfrozen' hticks

theorem wp_resumeStream_set (hset : w.cancelSignal = true)
    (hlate : ¬AttemptFails env w frame frame.await answer) :
    wp (resumeStream env frame answer) w (fun _ => Frozen w) (Quits w) := by
  unfold resumeStream
  rw [wp_bind]
  cases hawait : frame.await with
  | settling exn =>
    rw [hawait] at hlate
    refine ⟨Frozen.refl w, ?_⟩
    simpa [AttemptFails] using hlate
  | waiting =>
    cases answer with
    | returned event =>
      cases event with
      | none =>
        change wp (endStream env frame >>= _) w _ _
        rw [wp_bind]
        apply wp_mono (wp_endStream_set hset hawait hlate)
        . intro _ _ hfrozen
          exact hfrozen
        . intro _ _ hquits
          exact hquits
      | some event =>
        rw [hawait] at hlate
        change wp (consumeEvent env frame event >>= _) w _ _
        rw [wp_bind]
        apply wp_consumeEvent_set hset
        . intro _
          exact ⟨Frozen.tick w, rfl⟩
        . intro hdue frame1 w1 hdeadline hfrozen hticks
          have hbefore : env.clock (w.ticks + 1) < frame.deadline := by
            simpa [AttemptFails, hdue] using hlate
          rw [wp_bind]
          apply wp_awaitEvent_set (hfrozen.set hset)
          . rw [hticks, hdeadline]
            exact hbefore
          . intro frame2
            exact hfrozen.trans (Frozen.tick w1)
    | raised exn =>
      rw [hawait] at hlate
      refine ⟨Frozen.refl w, ?_⟩
      simpa [AttemptFails] using hlate
    | timedOut =>
      rw [hawait] at hlate
      simp [AttemptFails] at hlate
    | cancelled => exact ⟨Frozen.refl w, rfl⟩
    | settled => exact ⟨Frozen.refl w, rfl⟩

theorem wp_generatorWake_set (hset : w.cancelSignal = true)
    (hlate : ¬AttemptFails env w frame frame.await answer) :
    wp (generatorWake env frame answer) w (fun _ => Frozen w) (fun _ => Frozen w) := by
  unfold generatorWake runAttempt
  rw [wp_bind, wp_tryCatch, wp_bind]
  apply wp_mono (wp_resumeStream_set hset hlate)
  . intro result w1 hfrozen
    rw [wp_pure]
    cases result with
    | inl frame' => exact hfrozen
    | inr result =>
      change wp (commitVersion _ _ _ _ _ _) w1 _ _
      unfold commitVersion
      rw [wp_bind]
      exact wp_checkCancel_set (hfrozen.set hset) hfrozen
  . intro exn w1 hquits
    rw [wp_ite, if_neg]
    . exact hquits.1
    . rw [hquits.2]
      simp

end Generator

section Structured

variable {T : Type} {model : Json → Option T} {call : ProviderCall} {repair : Json → ProviderCall}
  {answer : Answer ProviderStructuredResult} {structured : StructuredPc}

theorem wp_structuredWake_set {Q : StructuredPc ⊕ (ProviderStructuredResult × T) → World → Prop}
    {E : Exn → World → Prop} (hset : w.cancelSignal = true) (hQ : ∀ result, Q result w)
    (hE : ∀ exn, E exn w) :
    wp (structuredWake env model call repair answer structured) w Q E := by
  cases structured with
  | calling attempt await =>
    unfold structuredWake structuredCall
    rw [wp_bind, wp_tryCatch, wp_bind]
    apply wp_awaitResult
    . intro result
      rw [wp_pure]
      dsimp only
      split
      . exact hQ _
      . rw [wp_bind]
        apply wp_beginAwait_set hset
        exact hQ _
    . intro exn
      split
      . rw [wp_pure]
        dsimp only
        rw [wp_bind, wp_bind]
        apply wp_beginAwait_set hset
        exact hQ _
      . exact hE exn
  | repairing result await =>
    unfold structuredWake
    rw [wp_bind]
    apply wp_awaitResult
    . intro repaired
      split
      . exact hE _
      . exact hQ _
    . exact hE

theorem wp_reviewerWake_set {env : WorkflowEnv} {role : ReviewRole} {frame : NodeFrame}
    (hset : w.cancelSignal = true) :
    wp (reviewerWake env role frame structured answer) w (fun _ => Frozen w) (fun _ => Frozen w) := by
  unfold reviewerWake
  rw [wp_bind]
  apply wp_structuredWake_set hset
  . intro result
    cases result with
    | inl structured => exact Frozen.refl w
    | inr result =>
      change wp (commitReview _ _ _ _ _) w _ _
      unfold commitReview
      rw [wp_ite]
      split
      . rw [wp_bind]
        exact wp_checkCancel_set hset (Frozen.refl w)
      . exact Frozen.refl w
  . intro exn
    exact Frozen.refl w

theorem wp_optimizerWake_set {env : WorkflowEnv} {frame : NodeFrame}
    (hset : w.cancelSignal = true) :
    wp (optimizerWake env frame structured answer) w (fun _ => Frozen w) (fun _ => Frozen w) := by
  unfold optimizerWake
  split
  . exact Frozen.refl w
  . rw [wp_bind]
    apply wp_structuredWake_set hset
    . intro result
      cases result with
      | inl structured => exact Frozen.refl w
      | inr result =>
        change wp (commitPlan _ _ _ _) w _ _
        unfold commitPlan
        rw [wp_bind]
        exact wp_checkCancel_set hset (Frozen.refl w)
    . intro exn
      exact Frozen.refl w

end Structured

section Step

theorem wp_failUnlessCancelled_set {code message : String} {retryable : Bool}
    {Q : Unit → World → Prop} {E : Exn → World → Prop} (hset : w.cancelSignal = true)
    (hstatus : w.snapshot.status = .cancelled) (hQ : Q () w) :
    wp (failUnlessCancelled env code message retryable) w Q E := by
  unfold failUnlessCancelled
  rw [wp_bind, wp_get, wp_ite, if_pos hset, wp_bind]
  apply wp_finalizeCancel_idle
  . rw [World.view_status, hstatus]
    simp
  . exact hQ

theorem wp_workflowExcept_set {exn : Exn} {E : Exn → World → Prop} (hset : w.cancelSignal = true)
    (hstatus : w.snapshot.status = .cancelled) :
    wp (workflowExcept env exn) w (fun _ => Frozen w) E := by
  have hfail : ∀ code message retryable {E' : Exn → World → Prop},
      wp (failUnlessCancelled env code message retryable) w (fun _ => Frozen w) E' := by
    intro code message retryable E'
    exact wp_failUnlessCancelled_set hset hstatus (Frozen.refl w)
  unfold workflowExcept
  rw [wp_tryCatch, wp_bind]
  cases exn with
  | workflowCancelled =>
    unfold runExcept
    rw [wp_bind]
    apply wp_finalizeCancel_idle
    . rw [World.view_status, hstatus]
      simp
    . exact Frozen.refl w
  | providerError error => exact hfail _ _ _
  | timeoutError => exact hfail _ _ _
  | validationError => exact hfail _ _ _
  | _ =>
    unfold runExcept
    rw [wp_throw, wp_bind]
    exact hfail _ _ _

theorem Frozen.runTask {program : Prog World Exn Pc} (hset : w.cancelSignal = true)
    (hstatus : w.snapshot.status = .cancelled)
    (h : wp program w (fun _ => Frozen w) (fun _ => Frozen w)) :
    Frozen w (runTask env program w).world := by
  have htask : wp (tryCatch program (workflowExcept env)) w (fun _ => Frozen w)
      (fun _ => Frozen w) := by
    rw [wp_tryCatch]
    apply wp_mono h
    . intro _ _ hfrozen
      exact hfrozen
    . intro exn w1 hfrozen
      have hstatus1 : w1.snapshot.status = .cancelled := by
        rw [hfrozen.snapshot]
        exact hstatus
      apply wp_mono (wp_workflowExcept_set (hfrozen.set hset) hstatus1)
      . intro _ w2 hfrozen2
        exact hfrozen.trans hfrozen2
      . intro _ _ hfrozen2
        exact hfrozen2
  unfold Workflow.runTask
  unfold wp at htask
  split
  . next heq =>
    rw [heq] at htask
    exact htask
  . next heq =>
    rw [heq] at htask
    exact htask

theorem Frozen.runReviewer {role : ReviewRole} {reviewers : ReviewRole → ReviewerPc}
    {program : Prog World Exn ReviewerPc}
    (h : wp program w (fun _ => Frozen w) (fun _ => Frozen w)) :
    Frozen w (runReviewer role reviewers program w).world := by
  unfold Workflow.runReviewer
  unfold wp at h
  split
  . next heq =>
    rw [heq] at h
    exact h
  . next heq =>
    rw [heq] at h
    exact h

theorem Frozen.serve {c : Config} {request : Prog World Exn RunSnapshot}
    (h : wp request c.world (fun _ => Frozen c.world) (fun _ => Frozen c.world)) :
    Frozen c.world (serve c request).world := by
  unfold Workflow.serve
  unfold wp at h
  dsimp only
  split at h
  . next heq =>
    rw [heq]
    exact h
  . next heq =>
    rw [heq]
    exact h

theorem Live.set {statuses : List RunStatus} {v : View} (h : Live statuses v)
    (hstatus : v.status = .cancelled) (hnone : RunStatus.cancelled ∉ statuses) :
    v.cancelSignal = true := by
  cases h with
  | inl hcancelled => exact hcancelled.1
  | inr hlive =>
    rw [hstatus] at hlive
    exact absurd hlive.2 hnone

theorem PcInv.set {v : View} {pc : Pc} (h : PcInv v pc) (hstatus : v.status = .cancelled) :
    v.cancelSignal = true := by
  cases pc with
  | created => exact h.2.1.set hstatus (by simp)
  | toGenerator => exact h.2.1.set hstatus (by simp)
  | generating frame => exact h.1.live.set hstatus (by simp)
  | reviewing reviewers => exact h.2.1.set hstatus (by simp)
  | toAggregator => exact h.2.1.set hstatus (by simp)
  | aggregatorParked => exact h.2.1.set hstatus (by simp)
  | routing =>
    rcases h with ⟨_, hlive⟩ | ⟨_, hlive⟩ | ⟨_, hlive⟩ <;> exact hlive.set hstatus (by simp)
  | toOptimizer => exact h.2.set hstatus (by simp)
  | optimizerParked staged => exact h.2.1.set hstatus (by simp)
  | optimizing frame structured => exact h.2.1.set hstatus (by simp)
  | finished exn => exact h.2.1.set hstatus (by simp)

-- A node whose first action is the cancel check.
theorem Frozen.checked {program : Unit → Prog World Exn Pc} (hset : w.cancelSignal = true)
    (hstatus : w.snapshot.status = .cancelled) :
    Frozen w (Workflow.runTask env (checkCancel env >>= program) w).world := by
  apply Frozen.runTask hset hstatus
  rw [wp_bind]
  exact wp_checkCancel_set hset (Frozen.refl w)

theorem Frozen.stepReviewer {env : WorkflowEnv} {reviewers : ReviewRole → ReviewerPc}
    {label : Label} {c : Config} (hset : w.cancelSignal = true)
    (hstatus : w.snapshot.status = .cancelled)
    (hstep : stepReviewer env w reviewers label = some c) : Frozen w c.world := by
  unfold Workflow.stepReviewer at hstep
  split at hstep
  . split at hstep
    . cases hstep
      apply Frozen.runReviewer
      unfold reviewerNode
      rw [wp_bind]
      exact wp_checkCancel_set hset (Frozen.refl w)
    . contradiction
  . split at hstep
    . split at hstep
      . cases hstep
        exact Frozen.runReviewer (wp_reviewerWake_set hset)
      . contradiction
    . contradiction
  . split at hstep
    . cases hstep
      exact Frozen.refl w
    . contradiction
  . split at hstep
    . cases hstep
      apply Frozen.runTask hset hstatus
      exact Frozen.refl w
    . contradiction
  . contradiction

theorem Frozen.stepTask {env : WorkflowEnv} {c c' : Config} {label : Label}
    (hset : c.world.cancelSignal = true) (hstatus : c.world.snapshot.status = .cancelled)
    (hlate : ¬Late env c label) (hstep : stepTask env c.world c.pc label = some c') :
    Frozen c.world c'.world := by
  unfold Workflow.stepTask at hstep
  split at hstep
  . next hpc => exact absurd hpc hlate
  . cases hstep
    exact Frozen.checked hset hstatus
  . next frame answer hpc =>
    split at hstep
    . cases hstep
      apply Frozen.runTask hset hstatus
      apply wp_generatorWake_set hset
      intro hfails
      exact hlate ⟨frame, hpc, hfails⟩
    . contradiction
  . exact Frozen.stepReviewer hset hstatus hstep
  . cases hstep
    exact Frozen.checked hset hstatus
  . split at hstep
    . cases hstep
      exact Frozen.checked hset hstatus
    . contradiction
  . cases hstep
    apply Frozen.runTask hset hstatus
    unfold routeAfterAggregate
    rw [wp_bind, wp_get, wp_ite]
    split <;> exact Frozen.refl _
  . cases hstep
    exact Frozen.checked hset hstatus
  . split at hstep
    . cases hstep
      exact Frozen.checked hset hstatus
    . contradiction
  . split at hstep
    . cases hstep
      apply Frozen.runTask hset hstatus
      exact wp_optimizerWake_set hset
    . contradiction
  . contradiction

theorem Frozen.step {env : WorkflowEnv} {c c' : Config} {label : Label} (h : Inv c)
    (hstatus : c.world.snapshot.status = .cancelled) (hlate : ¬Late env c label)
    (hstep : step env c label = some c') : Frozen c.world c'.world := by
  have hview : c.world.view.status = .cancelled := hstatus
  have hset : c.world.cancelSignal = true := h.pc.set hview
  cases label with
  | requestPause =>
    cases hstep
    apply Frozen.serve
    apply wp_requestPause_sound h.sound (Frozen.refl _)
    intro hpausable
    rw [hview] at hpausable
    contradiction
  | resumeRun userOverride =>
    cases hstep
    apply Frozen.serve
    apply wp_resumeRun_sound h.sound (fun _ _ => Frozen.refl _)
    intro hpaused
    rw [hview] at hpaused
    contradiction
  | cancelRun =>
    cases hstep
    apply Frozen.serve
    apply wp_cancelRun_sound h.sound (fun _ => Frozen.refl _) (fun _ _ => Frozen.refl _)
    intro hopen
    rw [hview] at hopen
    contradiction
  | _ => exact Frozen.stepTask hset hstatus hlate hstep

end Step

theorem cancel_final {env : WorkflowEnv} {runId : RunId} {request : CreateRunRequest}
    {outputLanguage : String} {bufferSize : Nat} {c c' : Config}
    (h : Reachable env runId request outputLanguage bufferSize c)
    (hstatus : c.world.snapshot.status = .cancelled)
    (hrun : Steps (step env) (fun c label => ¬Late env c label) c c') :
    Frozen c.world c'.world := by
  have hboth : Inv c' ∧ Frozen c.world c'.world := by
    apply hrun.invariant
    . exact ⟨h.inv, Frozen.refl c.world⟩
    . intro c1 label c2 hc1 hlate hstep
      obtain ⟨hinv, hfrozen⟩ := hc1
      have hstatus1 : c1.world.snapshot.status = .cancelled := by
        rw [hfrozen.snapshot]
        exact hstatus
      exact ⟨(Keeps.step hinv hstep).inv, hfrozen.trans (Frozen.step hinv hstatus1 hlate hstep)⟩
  exact hboth.2

theorem cancel_final_entered :
    Frozen (mockRun [.begin, .cancelRun]).world
      (mockRun [.begin, .cancelRun, .enterGenerator]).world := by
  have hstep := mockRun_step [.begin, .cancelRun] .enterGenerator (by rfl)
  exact cancel_final (mockRun_reachable (by rfl)) (by rfl) (Steps.single id hstep)

def cancelledGeneration : List Label :=
  [.begin, .enterGenerator, .cancelRun]

def failedAttempt : Label :=
  .generatorWake (.raised (.providerError .retryable))

-- The first attempt fails while the run is being cancelled: the second one resets the stream.
theorem not_cancel_final :
    ¬∀ c c', Reachable mockWorkflow "run" mockRequest "English" 1000 c →
      c.world.snapshot.status = .cancelled → Reaches (step mockWorkflow) c c' →
        c'.world.snapshot.latestEventSequence = c.world.snapshot.latestEventSequence := by
  intro hclaim
  have hstep : step mockWorkflow (mockRun cancelledGeneration) failedAttempt
      = some (mockRun (cancelledGeneration ++ [failedAttempt])) :=
    mockRun_step _ _ (by decide +kernel)
  have hreach : Reachable mockWorkflow "run" mockRequest "English" 1000
      (mockRun cancelledGeneration) := mockRun_reachable (by decide +kernel)
  have hsequence := hclaim _ _ hreach (by decide +kernel) (Steps.single trivial hstep)
  exact absurd hsequence (by decide +kernel)

end Workflow

end AgenticPrd
