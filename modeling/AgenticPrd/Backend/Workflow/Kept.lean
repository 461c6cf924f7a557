import AgenticPrd.Backend.Workflow.Aside

/-!
The programs of a run, by what they keep: one lemma for each program, for every view that does not
show what the program changes.
-/

namespace AgenticPrd

namespace Workflow

open RunManager Prog

variable {env : Env} {faults : Faults} {τ : Type} {view : World → τ}

theorem keeping_called {call : ProviderCall} (hcall : Overlooks view call) :
    Keeping view (modify (World.called call) : Prog World Exn Unit) :=
  .modify hcall

theorem keeping_awaitResult {α : Type} {await : Await} {answer : Answer α} :
    Keeping view (awaitResult await answer) := by
  cases await with
  | settling exn => exact .throw _
  | waiting =>
    cases answer with
    | returned value => exact .pure _
    | _ => exact .throw _

theorem keeping_validatedPrd {frame : GeneratorFrame} : Keeping view (validatedPrd frame) := by
  unfold validatedPrd
  split
  . exact .throw _
  . exact .pure _

theorem runReviewer_keeps {role : ReviewRole} {reviewers : ReviewRole → ReviewerPc}
    {program : Prog World Exn ReviewerPc} {w : World} (h : Keeping view program) :
    view (runReviewer role reviewers program w).world = view w := by
  rw [← h.run w]
  unfold runReviewer
  split
  . next heq => rw [heq]
  . next heq => rw [heq]

theorem keeping_routeAfterAggregate : Keeping view routeAfterAggregate := by
  unfold routeAfterAggregate
  apply Keeping.bind .get
  intro w
  split
  . exact .pure _
  . exact .pure _

theorem keeping_resumeMutation {part : RunSnapshot → τ} {userOverride : Option String}
    (hpart : ∀ snapshot,
      part { snapshot.withStatus .optimizing with pendingUserOverride := userOverride }
        = part snapshot) : Keeping part (resumeMutation userOverride) := by
  intro snapshot
  unfold resumeMutation
  rw [wp_bind, wp_get, wp_bind, wp_requireTransition]
  split
  . exact hpart snapshot
  . rfl

section Clocked

variable [Clocked view]

theorem keeping_monotonic : Keeping view (monotonic env) :=
  fun _ => Clocked.congr rfl rfl rfl rfl rfl rfl

theorem keeping_utcNow : Keeping view (utcNow env) :=
  fun _ => Clocked.congr rfl rfl rfl rfl rfl rfl

theorem keeping_remainingRunSeconds : Keeping view (remainingRunSeconds env) := by
  unfold remainingRunSeconds
  apply Keeping.bind
  . intro w
    obtain ⟨elapsed, ticks, _, h⟩ := activeElapsed_run env w
    rw [wp_of_run_ok h]
    exact Clocked.congr rfl rfl rfl rfl rfl rfl
  . intro _
    exact .pure _

theorem keeping_checkCancel : Keeping view (checkCancel env) := by
  unfold checkCancel
  apply Keeping.bind .get
  intro w
  split
  . exact .throw _
  . apply Keeping.bind keeping_remainingRunSeconds
    intro remaining
    split
    . exact .throw _
    . exact .pure _

theorem keeping_beginAwait {call : Option ProviderCall}
    (hcall : ∀ made ∈ call, Overlooks view made) :
    Keeping view (beginAwait env call) := by
  unfold beginAwait
  apply Keeping.tryCatch
  . apply Keeping.bind keeping_checkCancel
    intro _
    apply Keeping.bind keeping_remainingRunSeconds
    intro _
    cases call with
    | none => exact .pure _
    | some call =>
      apply Keeping.bind (keeping_called (hcall call rfl))
      intro _
      exact .pure _
  . intro exn
    exact .pure _

theorem keeping_recordSeconds : Keeping view (recordSeconds env) := by
  unfold recordSeconds
  apply Keeping.bind .get
  intro w
  apply Keeping.bind keeping_monotonic
  intro now
  exact .pure _

theorem keeping_awaitEvent {frame : GeneratorFrame} : Keeping view (awaitEvent env frame) := by
  unfold awaitEvent
  apply Keeping.bind keeping_monotonic
  intro now
  split
  . exact .throw _
  . apply Keeping.bind (keeping_beginAwait (by simp))
    intro await
    exact .pure _

theorem keeping_openStream {state : RunSnapshot} {plan : Option RevisionPlan} {attempt : Nat}
    (hcall : Overlooks view (.streamPrd state.userIdea state.targetAudience state.userConstraints
      state.currentIteration plan (baselinePrd state) state.outputLanguage)) :
    Keeping view (openStream env state plan attempt) := by
  unfold openStream
  apply Keeping.bind (keeping_called hcall)
  intro _
  apply Keeping.bind keeping_monotonic
  intro lastFlush
  apply Keeping.bind keeping_monotonic
  intro now
  apply Keeping.bind keeping_remainingRunSeconds
  intro remaining
  exact keeping_awaitEvent

theorem keeping_structuredCall {attempt : Nat} {call : ProviderCall} (hcall : Overlooks view call) :
    Keeping view (structuredCall env attempt call) := by
  unfold structuredCall
  apply Keeping.bind
  . apply keeping_beginAwait
    intro made hmade
    cases hmade
    exact hcall
  . intro await
    exact .pure _

theorem keeping_structuredWake {T : Type} {structured : StructuredPc} {model : Json → Option T}
    {call : ProviderCall} {repair : Json → ProviderCall} {answer : Answer ProviderStructuredResult}
    (hcall : Overlooks view call) (hrepair : ∀ value, Overlooks view (repair value)) :
    Keeping view (structuredWake env model call repair answer structured) := by
  cases structured with
  | calling attempt await =>
    unfold structuredWake
    apply Keeping.bind
    . apply Keeping.tryCatch
      . apply Keeping.bind keeping_awaitResult
        intro result
        exact .pure _
      . intro exn
        split
        . exact .pure _
        . exact .throw _
    . intro result
      split
      . apply Keeping.bind (keeping_structuredCall hcall)
        intro called
        exact .pure _
      . split
        . exact .pure _
        . apply Keeping.bind
          . apply keeping_beginAwait
            intro made hmade
            cases hmade
            exact hrepair _
          . intro await
            exact .pure _
  | repairing result await =>
    unfold structuredWake
    apply Keeping.bind keeping_awaitResult
    intro repaired
    split
    . exact .throw _
    . exact .pure _

theorem keeping_aggregatorWake : Keeping view (aggregatorWake env) := by
  unfold aggregatorWake
  apply Keeping.bind keeping_checkCancel
  intro _
  exact .pure _

end Clocked

section Ticking

variable [Ticking view]

theorem keeping_noteUsage {frame : GeneratorFrame} {usage : Option TokenUsage} :
    Keeping view (noteUsage usage frame) := by
  cases usage with
  | none => exact .pure _
  | some usage =>
    apply Keeping.bind
    . exact .modify fun _ => Ticking.congr rfl rfl rfl rfl rfl
    . intro _
      exact .pure _

end Ticking

section Still

variable [Still view]

theorem keeping_popPaused : Keeping view (popPaused env) := by
  unfold popPaused
  apply Keeping.bind .get
  intro w
  split
  . exact .pure _
  . apply Keeping.bind keeping_monotonic
    intro now
    exact .modify fun _ => Still.congr rfl rfl rfl

-- What a resume moves is up to its commit.
theorem keeping_resume {userOverride : Option String}
    (hcommit : ∀ payload, Keeping view
      (commit env .none (resumeMutation userOverride) (some .runResumed) payload)) :
    Keeping view (resumeRun env userOverride) := by
  unfold resumeRun
  apply Keeping.bind .get
  intro w
  split
  . apply Keeping.bind keeping_popPaused
    intro _
    dsimp only
    apply Keeping.bind (hcommit _)
    intro result
    apply Keeping.bind
    . exact .modify fun _ => Still.congr rfl rfl rfl
    . intro _
      exact .pure _
  . exact .throw _

theorem keeping_restartRecord : Keeping view (restartRecord env) := by
  unfold restartRecord
  apply Keeping.bind keeping_monotonic
  intro now
  exact .modify fun _ => Still.congr rfl rfl rfl

end Still

section Unmarked

variable [Unmarked view]

section RunManager

theorem keeping_transition {target : RunStatus} {event : RunEventType} {payload : Payload}
    (hevent : isTransit event = true) :
    Keeping view (transition env faults target event payload) :=
  Unmarked.keeps_transition hevent

theorem keeping_markNode {node : Node} {status : NodeStatus} {role : Option ReviewRole} :
    Keeping view (markNode env node status role) :=
  Unmarked.keeps_commit .marked

theorem keeping_setStage {target : RunStatus} : Keeping view (setStage env target) := by
  unfold setStage
  apply Keeping.bind .get
  intro w
  split
  . exact .pure _
  . split
    . exact .pure _
    . exact keeping_transition rfl

theorem keeping_requestPause : Keeping view (requestPause env) := by
  unfold requestPause
  apply Keeping.bind .get
  intro w
  split
  . exact .throw _
  . split
    . exact .pure _
    . split
      . exact keeping_transition rfl
      . exact .throw _

theorem keeping_finalizeCancel : Keeping view (finalizeCancel env) := by
  unfold finalizeCancel
  apply Keeping.bind .get
  intro w
  split
  . exact .pure _
  . split
    . exact .pure _
    . exact keeping_transition rfl

theorem keeping_cancelRun : Keeping view (cancelRun env) := by
  have hfinish : Keeping view
      (do
        modify World.setCancel
        finalizeCancel env) := by
    apply Keeping.bind
    . exact .modify fun _ => Clocked.congr rfl rfl rfl rfl rfl rfl
    . intro _
      exact keeping_finalizeCancel
  unfold cancelRun
  apply Keeping.bind .get
  intro w
  split
  . exact .pure _
  . split
    . exact .throw _
    . dsimp only
      split
      . apply Keeping.bind (keeping_transition rfl)
        intro _
        exact hfinish
      . exact hfinish

theorem keeping_failRun {code message : String} {retryable : Bool} :
    Keeping view (failRun env code message retryable) := by
  unfold failRun
  apply Keeping.bind .get
  intro w
  split
  . exact .pure _
  . apply Keeping.bind keeping_utcNow
    intro now
    exact Unmarked.keeps_commit .failed

end RunManager

section Task

theorem keeping_failUnlessCancelled {code message : String} {retryable : Bool} :
    Keeping view (failUnlessCancelled env code message retryable) := by
  unfold failUnlessCancelled
  apply Keeping.bind .get
  intro w
  split
  . apply Keeping.bind keeping_finalizeCancel
    intro _
    exact .pure _
  . apply Keeping.bind keeping_failRun
    intro _
    exact .pure _

theorem keeping_runExcept {exn : Exn} : Keeping view (runExcept env exn) := by
  cases exn with
  | workflowCancelled =>
    apply Keeping.bind keeping_finalizeCancel
    intro _
    exact .pure _
  | providerError error => exact keeping_failUnlessCancelled
  | timeoutError => exact keeping_failUnlessCancelled
  | validationError => exact keeping_failUnlessCancelled
  | _ => exact .throw _

theorem keeping_begin : Keeping view (begin env) := by
  unfold begin
  apply Keeping.bind .get
  intro w
  apply Keeping.bind keeping_utcNow
  intro now
  apply Keeping.bind
  . exact Unmarked.keeps_commit .started
  . intro _
    exact .pure _

end Task

section Structured

variable {T : Type} {role : ReviewRole} {frame : NodeFrame} {structured : StructuredPc}

theorem keeping_reviewerNode (hcall : ∀ state, Overlooks view (reviewCall state role)) :
    Keeping view (reviewerNode env role) := by
  unfold reviewerNode
  apply Keeping.bind keeping_checkCancel
  intro _
  apply Keeping.bind keeping_monotonic
  intro started
  apply Keeping.bind keeping_markNode
  intro _
  apply Keeping.bind .get
  intro w
  apply Keeping.bind (keeping_structuredCall (hcall _))
  intro called
  exact .pure _

end Structured

section Optimizer

theorem keeping_startOptimizer
    (hcall : ∀ state evaluation, Overlooks view (planCall state evaluation)) :
    Keeping view (startOptimizer env) := by
  unfold startOptimizer
  apply Keeping.bind keeping_monotonic
  intro started
  apply Keeping.bind keeping_markNode
  intro _
  apply Keeping.bind .get
  intro w
  split
  . exact .throw _
  . apply Keeping.bind (keeping_structuredCall (hcall _ _))
    intro structured
    exact .pure _

end Optimizer

section Step

variable {w : World} {c : Config}

theorem wp_workflowExcept_finished (view : World → τ) [Unmarked view] {exn : Exn} :
    wp (workflowExcept env exn) w
      (fun pc w' => view w' = view w ∧ ∃ exn, pc = .finished (some exn))
      fun _ w' => view w' = view w := by
  unfold workflowExcept
  rw [wp_tryCatch, wp_bind]
  apply wp_mono ((keeping_runExcept : Keeping view _) w)
  . intro _ w1 h1
    exact ⟨h1, exn, rfl⟩
  . intro exn' w1 h1
    rw [wp_bind]
    apply wp_mono ((keeping_failUnlessCancelled : Keeping view _) w1)
    . intro _ w2 h2
      exact ⟨h2.trans h1, exn', rfl⟩
    . intro _ w2 h2
      exact h2.trans h1

-- A step of the task ends as its program does, or the run is over.
theorem runTask_cases (view : World → τ) [Unmarked view] {program : Prog World Exn Pc}
    {Q : Pc → World → Prop} {S : World → Prop} (h : wp program w Q fun _ => S) :
    Q (runTask env program w).pc (runTask env program w).world
      ∨
    ∃ w1 exn, S w1 ∧ view (runTask env program w).world = view w1
      ∧ (runTask env program w).pc = .finished (some exn) := by
  have htask : wp (tryCatch program (workflowExcept env)) w
      (fun pc w' => Q pc w' ∨ ∃ w1 exn, S w1 ∧ view w' = view w1 ∧ pc = .finished (some exn))
      fun _ w' => ∃ w1, S w1 ∧ view w' = view w1 := by
    rw [wp_tryCatch]
    apply wp_mono h
    . intro pc w1 hQ
      exact .inl hQ
    . intro exn w1 hS
      apply wp_mono (wp_workflowExcept_finished view)
      . rintro pc w2 ⟨hview, exn', hpc⟩
        exact .inr ⟨w1, exn', hS, hview, hpc⟩
      . intro _ w2 hview
        exact ⟨w1, hS, hview⟩
  unfold runTask
  unfold wp at htask
  split
  . next heq =>
    rw [heq] at htask
    exact htask
  . next exn _ heq =>
    rw [heq] at htask
    obtain ⟨w1, hS, hview⟩ := htask
    exact .inr ⟨w1, exn, hS, hview, rfl⟩

theorem runTask_keeps {program : Prog World Exn Pc} (h : Keeping view program) :
    view (runTask env program w).world = view w := by
  cases runTask_cases view (h w) with
  | inl hview => exact hview
  | inr hfailed =>
    obtain ⟨w1, _, h1, hview, _⟩ := hfailed
    exact hview.trans h1

end Step

end Unmarked

section Unmoved

variable [Unmoved view]

theorem keeping_enterPaused : Keeping view (enterPaused env) := by
  unfold enterPaused
  apply Keeping.bind .get
  intro w
  apply Keeping.bind (keeping_transition rfl)
  intro snapshot
  apply Keeping.bind keeping_monotonic
  intro now
  apply Keeping.bind
  . exact .modify fun _ => Still.congr rfl rfl rfl
  . intro _
    exact .pure _

theorem keeping_commitEvaluation {state : RunSnapshot} {evaluation : EvaluationResult}
    (haggregate : ∀ evaluation bestScore bestVersion payload, Keeping view
      (commit env .none (modify (aggregate evaluation bestScore bestVersion)) (some .scoresUpdated)
        payload)) :
    Keeping view (commitEvaluation env state evaluation) := by
  unfold commitEvaluation
  dsimp only
  apply Keeping.bind
  . exact haggregate _ _ _ _
  . intro scored
    split
    . apply Keeping.bind (keeping_transition rfl)
      intro _
      exact .pure _
    . split
      . apply Keeping.bind (keeping_transition rfl)
        intro _
        exact .pure _
      . split
        . apply Keeping.bind keeping_enterPaused
          intro _
          exact .pure _
        . apply Keeping.bind keeping_setStage
          intro _
          exact .pure _

theorem keeping_aggregatorNode
    (haggregate : ∀ evaluation bestScore bestVersion payload, Keeping view
      (commit env .none (modify (aggregate evaluation bestScore bestVersion)) (some .scoresUpdated)
        payload)) :
    Keeping view (aggregatorNode env) := by
  unfold aggregatorNode
  apply Keeping.bind keeping_checkCancel
  intro _
  apply Keeping.bind keeping_setStage
  intro _
  apply Keeping.bind keeping_markNode
  intro _
  apply Keeping.bind .get
  intro w
  dsimp only
  split
  . split
    . exact .throw _
    . exact keeping_commitEvaluation haggregate
  . exact .throw _

theorem keeping_stageOptimizer
    (hcall : ∀ state evaluation, Overlooks view (planCall state evaluation)) :
    Keeping view (stageOptimizer env) := by
  unfold stageOptimizer
  apply Keeping.bind keeping_setStage
  intro stage
  split
  . apply Keeping.bind keeping_enterPaused
    intro _
    exact .pure _
  . exact keeping_startOptimizer hcall

theorem keeping_optimizerNode
    (hcall : ∀ state evaluation, Overlooks view (planCall state evaluation)) :
    Keeping view (optimizerNode env) := by
  unfold optimizerNode
  apply Keeping.bind keeping_checkCancel
  intro _
  apply Keeping.bind .get
  intro w
  split
  . apply Keeping.bind keeping_enterPaused
    intro _
    exact .pure _
  . exact keeping_stageOptimizer hcall

theorem keeping_optimizerUnpark {staged : Bool}
    (hcall : ∀ state evaluation, Overlooks view (planCall state evaluation)) :
    Keeping view (optimizerUnpark env staged) := by
  unfold optimizerUnpark
  apply Keeping.bind keeping_checkCancel
  intro _
  split
  . apply Keeping.bind keeping_setStage
    intro _
    exact keeping_startOptimizer hcall
  . exact keeping_stageOptimizer hcall

end Unmoved

section Undrafted

variable [Undrafted view]

variable {state : RunSnapshot} {plan : Option RevisionPlan} {attempt : Nat} {frame : GeneratorFrame}

theorem keeping_commitBeginStream : Keeping view (commitBeginStream env state attempt) := by
  unfold commitBeginStream
  split
  . exact Undrafted.keeps_streaming .reset
  . exact Undrafted.keeps_streaming .begun

theorem keeping_commitDelta {delta : String} :
    Keeping view (commitDelta env state attempt delta) := by
  unfold commitDelta
  apply Keeping.bind keeping_checkCancel
  intro _
  apply Keeping.bind .get
  intro w
  exact Undrafted.keeps_streaming .streamed

theorem keeping_flush {now : ℚ} : Keeping view (flush env frame now) := by
  unfold flush
  split
  . apply Keeping.bind keeping_commitDelta
    intro _
    exact .pure _
  . exact .pure _

theorem keeping_consumeEvent [Ticking view] {event : ProviderTextEvent} :
    Keeping view (consumeEvent env frame event) := by
  unfold consumeEvent
  dsimp only
  apply Keeping.bind keeping_monotonic
  intro now
  apply Keeping.bind keeping_flush
  intro flushed
  apply Keeping.bind keeping_noteUsage
  intro noted
  split
  . exact .pure _
  . split
    . exact .pure _
    . exact .pure _

theorem keeping_endStream : Keeping view (endStream env frame) := by
  have hflushed : ∀ rest : Prog World Exn (String × TokenUsage), Keeping view rest → Keeping view
      (if frame.buffer ≠ "" then do
        let _ ← commitDelta env frame.state frame.attempt frame.buffer
        rest
      else rest) := by
    intro rest hrest
    split
    . apply Keeping.bind keeping_commitDelta
      intro _
      exact hrest
    . exact hrest
  unfold endStream
  dsimp only
  apply hflushed
  apply Keeping.bind keeping_validatedPrd
  intro validated
  split
  . exact .throw _
  . exact .pure _

theorem keeping_resumeStream [Ticking view] {answer : Answer (Option ProviderTextEvent)} :
    Keeping view (resumeStream env frame answer) := by
  unfold resumeStream
  apply Keeping.bind keeping_awaitResult
  intro event
  split
  . apply Keeping.bind keeping_endStream
    intro result
    exact .pure _
  . apply Keeping.bind keeping_consumeEvent
    intro consumed
    apply Keeping.bind keeping_awaitEvent
    intro awaiting
    exact .pure _

end Undrafted

section Unbilled

variable [Unbilled view]

theorem keeping_recordUsage {node : Node} {usage : TokenUsage} :
    Keeping view (recordUsage env node usage) :=
  Unbilled.keeps_billing .used

theorem keeping_recordTiming {node : Node} {version attempt : Nat} {seconds : ℚ}
    {succeeded : Bool} {usage : Option TokenUsage} :
    Keeping view (recordTiming env node version attempt seconds succeeded usage) :=
  Unbilled.keeps_billing .timed

theorem keeping_attemptFailed {state : RunSnapshot} {attempt : Nat} {exn : Exn} :
    Keeping view (attemptFailed env state attempt exn) := by
  have hrest : Keeping view
      (if 2 ≤ attempt then throw exn else pure () : Prog World Exn Unit) := by
    split
    . exact .throw _
    . exact .pure _
  unfold attemptFailed
  apply Keeping.bind keeping_recordSeconds
  intro seconds
  apply Keeping.bind .get
  intro w
  apply Keeping.bind keeping_recordTiming
  intro _
  apply Keeping.bind .get
  intro w1
  dsimp only
  split
  . exact hrest
  . apply Keeping.bind keeping_recordUsage
    intro _
    exact hrest

theorem keeping_commitVersion {state : RunSnapshot} {plan : Option RevisionPlan} {attempt : Nat}
    {content : String} {usage : TokenUsage}
    (hfinish : ∀ cancelled version content payload, Keeping view
      (commit env .none (finishGeneration cancelled version content attempt) (some .prdGenerated)
        payload)) :
    Keeping view (commitVersion env state plan attempt content usage) := by
  unfold commitVersion
  apply Keeping.bind keeping_checkCancel
  intro _
  apply Keeping.bind keeping_recordSeconds
  intro elapsed
  apply Keeping.bind keeping_utcNow
  intro now
  split
  . exact .throw _
  . apply Keeping.bind .get
    intro w
    apply Keeping.bind
    . exact hfinish _ _ _ _
    . intro _
      apply Keeping.bind keeping_recordUsage
      intro _
      apply Keeping.bind keeping_recordTiming
      intro _
      apply Keeping.bind keeping_setStage
      intro _
      exact .pure _

section Generator

variable {state : RunSnapshot} {plan : Option RevisionPlan} {attempt : Nat} {frame : GeneratorFrame}

variable
  (hcall : ∀ state plan, Overlooks view (.streamPrd state.userIdea state.targetAudience
    state.userConstraints state.currentIteration plan (baselinePrd state) state.outputLanguage))
  (hfinish : ∀ attempt cancelled version content payload, Keeping view
    (commit env .none (finishGeneration cancelled version content attempt) (some .prdGenerated)
      payload))

include hfinish

theorem keeping_runAttempt {body : Prog World Exn (GeneratorFrame ⊕ (String × TokenUsage))}
    {retry : Prog World Exn Pc} (hbody : Keeping view body) (hretry : Keeping view retry) :
    Keeping view (runAttempt env state plan attempt body retry) := by
  unfold runAttempt
  apply Keeping.bind
  . apply Keeping.tryCatch
    . apply Keeping.bind hbody
      intro result
      exact .pure _
    . intro exn
      split
      . apply Keeping.bind keeping_attemptFailed
        intro _
        exact .pure _
      . exact .throw _
  . intro outcome
    split
    . exact hretry
    . exact .pure _
    . exact keeping_commitVersion (hfinish attempt)

variable [Unstreamed view]

include hcall

theorem keeping_startAttempt {retry : Prog World Exn Pc} (hretry : Keeping view retry) :
    Keeping view (startAttempt env state plan attempt retry) := by
  unfold startAttempt
  apply Keeping.bind keeping_restartRecord
  intro _
  apply Keeping.bind keeping_commitBeginStream
  intro _
  apply keeping_runAttempt hfinish _ hretry
  apply Keeping.bind (keeping_openStream (hcall state plan))
  intro opened
  exact .pure _

theorem keeping_retryAttempt : Keeping view (retryAttempt env state plan attempt) := by
  unfold retryAttempt
  split
  . exact keeping_startAttempt hcall hfinish (.throw _)
  . exact .throw _

theorem keeping_generatorNode : Keeping view (generatorNode env) := by
  unfold generatorNode
  apply Keeping.bind keeping_checkCancel
  intro _
  apply Keeping.bind keeping_setStage
  intro state
  apply Keeping.bind keeping_markNode
  intro _
  apply Keeping.bind keeping_restartRecord
  intro _
  exact keeping_startAttempt hcall hfinish (keeping_retryAttempt hcall hfinish)

theorem keeping_generatorWake {answer : Answer (Option ProviderTextEvent)} :
    Keeping view (generatorWake env frame answer) :=
  keeping_runAttempt hfinish keeping_resumeStream (keeping_retryAttempt hcall hfinish)

end Generator

theorem keeping_commitReview {role : ReviewRole} {frame : NodeFrame}
    {result : ProviderStructuredResult} {review : RoleReview} :
    Keeping view (commitReview env role frame result review) := by
  unfold commitReview
  split
  . apply Keeping.bind keeping_checkCancel
    intro _
    apply Keeping.bind .get
    intro w
    apply Keeping.bind
    . exact Unmoved.keeps_commit .reviewed
    . intro _
      apply Keeping.bind keeping_recordUsage
      intro _
      apply Keeping.bind keeping_monotonic
      intro now
      apply Keeping.bind keeping_recordTiming
      intro _
      exact .pure _
  . exact .throw _

theorem keeping_reviewerWake {env : WorkflowEnv} {role : ReviewRole} {frame : NodeFrame}
    {structured : StructuredPc} {answer : Answer ProviderStructuredResult}
    (hcall : Overlooks view (reviewCall frame.state role))
    (hrepair : ∀ value, Overlooks view (reviewRepair frame.state role value)) :
    Keeping view (reviewerWake env role frame structured answer) := by
  unfold reviewerWake
  apply Keeping.bind (keeping_structuredWake hcall hrepair)
  intro outcome
  split
  . exact .pure _
  . exact keeping_commitReview

theorem keeping_commitPlan {frame : NodeFrame} {result : ProviderStructuredResult}
    {plan : RevisionPlan}
    (hfinish : ∀ cancelled payload, Keeping view
      (commit env .none (finishOptimizer cancelled plan) (some .revisionPlanned) payload)) :
    Keeping view (commitPlan env frame result plan) := by
  unfold commitPlan
  apply Keeping.bind keeping_checkCancel
  intro _
  apply Keeping.bind .get
  intro w
  apply Keeping.bind
  . exact hfinish _ _
  . intro _
    apply Keeping.bind keeping_recordUsage
    intro _
    apply Keeping.bind keeping_monotonic
    intro now
    apply Keeping.bind keeping_recordTiming
    intro _
    apply Keeping.bind keeping_setStage
    intro _
    exact .pure _

theorem keeping_optimizerWake {env : WorkflowEnv} {frame : NodeFrame} {structured : StructuredPc}
    {answer : Answer ProviderStructuredResult}
    (hcall : ∀ state evaluation, Overlooks view (planCall state evaluation))
    (hrepair : ∀ state value, Overlooks view (planRepair state value))
    (hfinish : ∀ cancelled plan payload, Keeping view
      (commit env.toEnv .none (finishOptimizer cancelled plan) (some .revisionPlanned) payload)) :
    Keeping view (optimizerWake env frame structured answer) := by
  unfold optimizerWake
  split
  . exact .throw _
  . apply Keeping.bind (keeping_structuredWake (hcall _ _) (hrepair _))
    intro outcome
    split
    . exact .pure _
    . exact keeping_commitPlan fun cancelled payload => hfinish cancelled _ payload

theorem stepReviewer_keeps {env : WorkflowEnv} {w : World} {reviewers : ReviewRole → ReviewerPc}
    {label : Label} {c : Config} (hcall : ∀ state role, Overlooks view (reviewCall state role))
    (hrepair : ∀ state role value, Overlooks view (reviewRepair state role value))
    (hstep : stepReviewer env w reviewers label = some c) : view c.world = view w := by
  cases label with
  | reviewerEnter role =>
    dsimp only [stepReviewer] at hstep
    split at hstep
    . cases hstep
      exact runReviewer_keeps (keeping_reviewerNode fun state => hcall state role)
    . contradiction
  | reviewerWake role answer =>
    dsimp only [stepReviewer] at hstep
    split at hstep
    . split at hstep
      . cases hstep
        exact runReviewer_keeps (keeping_reviewerWake (hcall _ role) (hrepair _ role))
      . contradiction
    . contradiction
  | reviewersJoin =>
    dsimp only [stepReviewer] at hstep
    split at hstep
    . cases hstep
      rfl
    . contradiction
  | reviewersFail role =>
    dsimp only [stepReviewer] at hstep
    split at hstep
    . cases hstep
      exact runTask_keeps (.throw _)
    . contradiction
  | _ => contradiction

end Unbilled

end Workflow

end AgenticPrd
