import AgenticPrd.Backend.PrdDocument
import AgenticPrd.Backend.RunManager.Basic

/-!
The nodes of the agent graph (`workflow.py`), cut at the points where the coroutine suspends. A
program runs from one such point to the next and returns where it stopped.
-/

namespace AgenticPrd

structure ProviderTextEvent where
  delta : String
  usage : Option TokenUsage
  finishReason : Option String

structure ProviderStructuredResult where
  value : Json
  usage : TokenUsage

-- What a provider raises; `otherError` is any exception that the workflow does not name.
inductive ProviderExn where
  | providerError (error : ProviderError)
  | timeoutError
  | validationError
  | otherError

def ProviderExn.toExn : ProviderExn → Exn
  | providerError error => .providerError error
  | timeoutError => .timeoutError
  | validationError => .validationError
  | otherError => .otherError

/--
How an `_await_provider` ends. `settled` ends one whose cancel check has raised before the wait: it
still suspends once, to collect the two tasks.
-/
inductive Answer (α : Type) where
  | returned (value : α)
  | raised (exn : ProviderExn)
  | timedOut
  | cancelled
  | settled

inductive Await where
  | waiting
  | settling (exn : Exn)

structure GeneratorFrame where
  state : RunSnapshot
  plan : Option RevisionPlan
  attempt : Nat
  content : String
  buffer : String
  lastFlush : ℚ
  usage : Option TokenUsage
  finishReason : Option String
  deadline : ℚ
  await : Await

inductive StructuredPc where
  | calling (attempt : Nat) (await : Await)
  | repairing (result : ProviderStructuredResult) (await : Await)

-- The locals of a node that makes a structured call: `started` and `state`.
structure NodeFrame where
  started : ℚ
  state : RunSnapshot

inductive ReviewerPc where
  | ready
  | suspended (frame : NodeFrame) (structured : StructuredPc)
  | done
  | raised (exn : Exn)

-- `optimizerParked` tells whether the node has been parked before its `set_stage` or after it.
inductive Pc where
  | created
  | toGenerator
  | generating (frame : GeneratorFrame)
  | reviewing (reviewers : ReviewRole → ReviewerPc)
  | toAggregator
  | aggregatorParked
  | routing
  | toOptimizer
  | optimizerParked (staged : Bool)
  | optimizing (frame : NodeFrame) (structured : StructuredPc)
  | finished (exn : Option Exn)

-- `model_validate` of the two models that a provider answers with.
structure WorkflowEnv extends Env where
  roleReview : Json → Option RoleReview
  revisionPlan : Json → Option RevisionPlan

namespace Workflow

open RunManager

def checkCancel (env : Env) : Prog World Exn Unit := do
  let w ← get
  if w.cancelSignal then
    throw .workflowCancelled
  else
    let remaining ← remainingRunSeconds env
    if remaining ≤ 0 then
      throw .timeoutError

-- The part of `_await_provider` before it suspends. A coroutine that is cancelled before its first
-- step makes no call.
def beginAwait (env : Env) (call : Option ProviderCall) : Prog World Exn Await :=
  tryCatch
    (do
      checkCancel env
      let _ ← remainingRunSeconds env
      match call with
      | none => return .waiting
      | some call =>
        modify (World.called call)
        return .waiting)
    (fun exn => return .settling exn)

def awaitResult {α : Type} : Await → Answer α → Prog World Exn α
  | .settling exn, _ => throw exn
  | .waiting, .returned value => return value
  | .waiting, .raised exn => throw exn.toExn
  | .waiting, .timedOut => throw .timeoutError
  | .waiting, .cancelled => throw .workflowCancelled
  | .waiting, .settled => throw .otherError

section Generator

-- `_AttemptRecord.restart`
def restartRecord (env : Env) : Prog World Exn Unit := do
  let now ← monotonic env
  modify fun w => { w with record := { started := now, usage := none } }

def recordSeconds (env : Env) : Prog World Exn ℚ := do
  let w ← get
  let now ← monotonic env
  return now - w.record.started

def beginStream (attempt : Nat) (snapshot : RunSnapshot) : RunSnapshot :=
  {
    snapshot with
    currentPrd := ""
    currentPrdAttempt := attempt
  }

def commitBeginStream (env : Env) (state : RunSnapshot) (attempt : Nat) :
    Prog World Exn RunSnapshot :=
  if 1 < attempt then
    commit env .none (modify (beginStream attempt)) (some .prdStreamReset) fun _ =>
      [("version", .ofNat state.currentIteration), ("attempt", .ofNat attempt)]
  else
    commit env .none (modify (beginStream attempt)) none fun _ => []

def baselinePrd (state : RunSnapshot) : Option String :=
  match state.versions.getLast? with
  | none => none
  | some last =>
    match state.bestVersion with
    | none => some last.content
    | some best =>
      match state.versions.find? fun version => version.version = best with
      | some version => some version.content
      | none => some last.content

-- `cancelled` is whether the mutation finds the cancel signal set.
def appendDelta (cancelled : Bool) (delta : String) : Prog RunSnapshot Exn Unit := do
  if cancelled then
    throw .workflowCancelled
  else
    modify fun snapshot => { snapshot with currentPrd := snapshot.currentPrd ++ delta }

def commitDelta (env : Env) (state : RunSnapshot) (attempt : Nat) (delta : String) :
    Prog World Exn RunSnapshot := do
  checkCancel env
  let w ← get
  commit env .none (appendDelta w.cancelSignal delta) (some .prdDelta) fun _ =>
    [
      ("version", .ofNat state.currentIteration),
      ("attempt", .ofNat attempt),
      ("delta", .str delta)
    ]

-- One pass of the loop up to the wait for the next event of the stream.
def awaitEvent (env : Env) (frame : GeneratorFrame) : Prog World Exn GeneratorFrame := do
  let now ← monotonic env
  if frame.deadline - now ≤ 0 then
    throw .timeoutError
  else
    let await ← beginAwait env none
    return { frame with await }

def openStream (env : Env) (state : RunSnapshot) (plan : Option RevisionPlan) (attempt : Nat) :
    Prog World Exn GeneratorFrame := do
  modify (World.called (.streamPrd state.userIdea state.targetAudience state.userConstraints
    state.currentIteration plan (baselinePrd state) state.outputLanguage))
  let lastFlush ← monotonic env
  let now ← monotonic env
  let remaining ← remainingRunSeconds env
  awaitEvent env {
    state
    plan
    attempt
    content := ""
    buffer := ""
    lastFlush
    usage := none
    finishReason := none
    deadline := now + min (env.settings.generatorTimeoutSeconds : ℚ) remaining
    await := .waiting
  }

def flush (env : Env) (frame : GeneratorFrame) (now : ℚ) : Prog World Exn GeneratorFrame := do
  if frame.buffer ≠ "" ∧ (128 ≤ frame.buffer.length ∨ 1 / 20 ≤ now - frame.lastFlush) then
    let _ ← commitDelta env frame.state frame.attempt frame.buffer
    return { frame with buffer := "", lastFlush := now }
  else
    return frame

def noteUsage (usage : Option TokenUsage) (frame : GeneratorFrame) :
    Prog World Exn GeneratorFrame := do
  match usage with
  | none => return frame
  | some usage =>
    modify fun w => { w with record := { w.record with usage := some usage } }
    return { frame with usage := some usage }

def consumeEvent (env : Env) (frame : GeneratorFrame) (event : ProviderTextEvent) :
    Prog World Exn GeneratorFrame := do
  let frame :=
    {
      frame with
      content := frame.content ++ event.delta
      buffer := frame.buffer ++ event.delta
    }
  let now ← monotonic env
  let frame ← flush env frame now
  let frame ← noteUsage event.usage frame
  match event.finishReason with
  | none => return frame
  | some finishReason =>
    if finishReason.isEmpty then
      return frame
    else
      return { frame with finishReason := some finishReason }

def validatedPrd (frame : GeneratorFrame) : Prog World Exn String :=
  match PrdDocument.validateGeneratedPrd frame.content frame.finishReason with
  | .error error => throw (.providerError error)
  | .ok validated => return validated

def endStream (env : Env) (frame : GeneratorFrame) : Prog World Exn (String × TokenUsage) := do
  if frame.buffer ≠ "" then
    let _ ← commitDelta env frame.state frame.attempt frame.buffer
  let validated ← validatedPrd frame
  match frame.usage with
  | none => throw (.providerError .retryable)
  | some usage => return (validated, usage)

-- `_stream_generation` from one event to the next: `inl` suspends again, `inr` returns.
def resumeStream (env : Env) (frame : GeneratorFrame) (answer : Answer (Option ProviderTextEvent)) :
    Prog World Exn (GeneratorFrame ⊕ (String × TokenUsage)) := do
  let event ← awaitResult frame.await answer
  match event with
  | none =>
    let result ← endStream env frame
    return .inr result
  | some event =>
    let frame ← consumeEvent env frame event
    let frame ← awaitEvent env frame
    return .inl frame

def finishGeneration (cancelled : Bool) (version : PRDVersion) (content : String) (attempt : Nat) :
    Prog RunSnapshot Exn Unit := do
  if cancelled then
    throw .workflowCancelled
  else
    modify fun snapshot =>
      {
        snapshot with
        versions := snapshot.versions ++ [version]
        currentPrd := content
        currentPrdAttempt := attempt
        pendingRevisionPlan := none
        nodeStatuses := Function.update snapshot.nodeStatuses .generator .succeeded
        activeNode := none
      }

def commitVersion (env : Env) (state : RunSnapshot) (plan : Option RevisionPlan) (attempt : Nat)
    (content : String) (usage : TokenUsage) : Prog World Exn Pc := do
  checkCancel env
  let elapsed ← recordSeconds env
  let now ← utcNow env
  match PRDVersion.validate? state.currentIteration content now plan usage with
  | none => throw .validationError
  | some version =>
    let w ← get
    let _ ← commit env .none (finishGeneration w.cancelSignal version content attempt)
      (some .prdGenerated) fun _ =>
        [
          ("version", .ofNat version.version),
          ("attempt", .ofNat attempt),
          ("content", .str content)
        ]
    let _ ← recordUsage env .generator usage
    let _ ← recordTiming env .generator version.version attempt elapsed true (some usage)
    let _ ← setStage env .reviewing
    return .reviewing fun _ => .ready

-- The `except` of an attempt: what it spent is recorded, and the second one is the last.
def attemptFailed (env : Env) (state : RunSnapshot) (attempt : Nat) (exn : Exn) :
    Prog World Exn Unit := do
  let seconds ← recordSeconds env
  let w ← get
  let _ ← recordTiming env .generator state.currentIteration attempt seconds false w.record.usage
  let w ← get
  match w.record.usage with
  | none => pure ()
  | some usage => let _ ← recordUsage env .generator usage
  if 2 ≤ attempt then
    throw exn

-- `retry` is the rest of the loop after an attempt that failed.
def runAttempt (env : Env) (state : RunSnapshot) (plan : Option RevisionPlan) (attempt : Nat)
    (body : Prog World Exn (GeneratorFrame ⊕ (String × TokenUsage))) (retry : Prog World Exn Pc) :
    Prog World Exn Pc := do
  let outcome ← tryCatch
    (do
      let result ← body
      return some result)
    (fun exn => do
      if exn.isRetried then
        attemptFailed env state attempt exn
        return none
      else
        throw exn)
  match outcome with
  | none => retry
  | some (.inl frame) => return .generating frame
  | some (.inr (content, usage)) => commitVersion env state plan attempt content usage

def startAttempt (env : Env) (state : RunSnapshot) (plan : Option RevisionPlan) (attempt : Nat)
    (retry : Prog World Exn Pc) : Prog World Exn Pc := do
  restartRecord env
  let _ ← commitBeginStream env state attempt
  runAttempt env state plan attempt
    (do
      let frame ← openStream env state plan attempt
      return .inl frame)
    retry

-- The loop ends with `raise RetryableProviderError` after two attempts, which is never reached.
def retryAttempt (env : Env) (state : RunSnapshot) (plan : Option RevisionPlan) (attempt : Nat) :
    Prog World Exn Pc :=
  if attempt < 2 then
    startAttempt env state plan 2 (throw (.providerError .retryable))
  else
    throw (.providerError .retryable)

def generatorNode (env : Env) : Prog World Exn Pc := do
  checkCancel env
  let state ← setStage env .generating
  let _ ← markNode env .generator .running none
  let plan := state.pendingRevisionPlan
  restartRecord env
  startAttempt env state plan 1 (retryAttempt env state plan 1)

def generatorWake (env : Env) (frame : GeneratorFrame)
    (answer : Answer (Option ProviderTextEvent)) : Prog World Exn Pc :=
  runAttempt env frame.state frame.plan frame.attempt (resumeStream env frame answer)
    (retryAttempt env frame.state frame.plan frame.attempt)

end Generator

section Structured

variable {T : Type}

def structuredCall (env : Env) (attempt : Nat) (call : ProviderCall) :
    Prog World Exn StructuredPc := do
  let await ← beginAwait env (some call)
  return .calling attempt await

-- `_validated_structured` from one suspension to the next: `inl` suspends again, `inr` returns.
def structuredWake (env : Env) (model : Json → Option T) (call : ProviderCall)
    (repair : Json → ProviderCall) (answer : Answer ProviderStructuredResult) :
    StructuredPc → Prog World Exn (StructuredPc ⊕ (ProviderStructuredResult × T))
  | .calling attempt await => do
    let result ← tryCatch
      (do
        let result ← awaitResult await answer
        return some result)
      (fun exn =>
        if exn.isRetried ∧ attempt ≠ 1 then
          return none
        else
          throw exn)
    match result with
    | none =>
      let structured ← structuredCall env (attempt + 1) call
      return .inl structured
    | some result =>
      match model result.value with
      | some parsed => return .inr (result, parsed)
      | none =>
        let await ← beginAwait env (some (repair result.value))
        return .inl (.repairing result await)
  | .repairing result await => do
    let repaired ← awaitResult await answer
    match model repaired.value with
    | none => throw .validationError
    | some parsed => return .inr ({ repaired with usage := result.usage.add repaired.usage }, parsed)

end Structured

section Reviewer

def reviewCall (state : RunSnapshot) (role : ReviewRole) : ProviderCall :=
  .generateReview role state.currentPrd state.currentIteration state.outputLanguage

def reviewRepair (state : RunSnapshot) (role : ReviewRole) (value : Json) : ProviderCall :=
  .repairStructured "review" value (some role) state.outputLanguage

def reviewerNode (env : Env) (role : ReviewRole) : Prog World Exn ReviewerPc := do
  checkCancel env
  let started ← monotonic env
  let _ ← markNode env role.node .running (some role)
  let w ← get
  let structured ← structuredCall env 0 (reviewCall w.snapshot role)
  return .suspended { started, state := w.snapshot } structured

def finishReview (cancelled : Bool) (role : ReviewRole) (review : RoleReview) :
    Prog RunSnapshot Exn Unit := do
  if cancelled then
    throw .workflowCancelled
  else
    modify fun snapshot =>
      {
        snapshot with
        reviews := Function.update snapshot.reviews role (some review)
        nodeStatuses := Function.update snapshot.nodeStatuses role.node .succeeded
        activeNode := if snapshot.activeNode = some role.node then none else snapshot.activeNode
      }

def commitReview (env : Env) (role : ReviewRole) (frame : NodeFrame)
    (result : ProviderStructuredResult) (review : RoleReview) : Prog World Exn ReviewerPc := do
  if review.role = role then
    checkCancel env
    let w ← get
    let _ ← commit env .none (finishReview w.cancelSignal role review) (some .reviewCompleted)
      fun _ => review.dump
    let _ ← recordUsage env role.node result.usage
    let now ← monotonic env
    let _ ← recordTiming env role.node frame.state.currentIteration 1 (now - frame.started) true
      (some result.usage)
    return .done
  else
    throw .validationError

def reviewerWake (env : WorkflowEnv) (role : ReviewRole) (frame : NodeFrame)
    (structured : StructuredPc) (answer : Answer ProviderStructuredResult) :
    Prog World Exn ReviewerPc := do
  let outcome ← structuredWake env.toEnv env.roleReview (reviewCall frame.state role)
    (reviewRepair frame.state role) answer structured
  match outcome with
  | .inl structured => return .suspended frame structured
  | .inr (result, review) => commitReview env.toEnv role frame result review

end Reviewer

section Aggregator

def aggregate (evaluation : EvaluationResult) (bestScore : Option ℚ) (bestVersion : Option Nat)
    (snapshot : RunSnapshot) : RunSnapshot :=
  {
    snapshot with
    latestEvaluation := some evaluation
    nodeStatuses := Function.update snapshot.nodeStatuses .aggregator .succeeded
    activeNode := none
    versions := snapshot.versions.modifyLast fun version =>
      { version with evaluation := some evaluation }
    bestScore
    bestVersion
  }

def scoresPayload (evaluation : EvaluationResult) (version : Nat) (previousBest bestScore : Option ℚ)
    (bestVersion : Option Nat) (gatePassed : Bool) : Payload :=
  [
    ("tech", .ofNat evaluation.tech.score),
    ("ux", .ofNat evaluation.ux.score),
    ("biz", .ofNat evaluation.biz.score),
    ("overall", .num evaluation.overallScore),
    ("version", .ofNat version),
    (
      "delta_vs_best",
      .ofOption (fun best => .num (Rounding.round (evaluation.overallScore - best) 1)) previousBest
    ),
    ("best_version", .ofOption .ofNat bestVersion),
    ("best_score", .ofOption .num bestScore),
    ("must_fix_count", .ofNat (evaluation.severityCount .mustFix)),
    ("should_fix_count", .ofNat (evaluation.severityCount .shouldFix)),
    ("optional_count", .ofNat (evaluation.severityCount .optional)),
    ("quality_gate_passed", .bool gatePassed)
  ]

def outcomePayload (evaluation : EvaluationResult) (state : RunSnapshot)
    (thresholdMet gatePassed : Bool) : Payload :=
  [
    ("final_version", .ofNat state.currentIteration),
    ("final_score", .num evaluation.overallScore),
    ("best_version", .ofOption .ofNat state.bestVersion),
    ("best_score", .ofOption .num state.bestScore),
    ("quality_threshold", .num state.qualityThreshold),
    ("completed_iterations", .ofNat state.currentIteration),
    ("max_iterations", .ofNat state.maxIterations),
    ("threshold_met", .bool thresholdMet),
    ("quality_gate_passed", .bool gatePassed),
    ("must_fix_count", .ofNat (evaluation.severityCount .mustFix)),
    ("should_fix_count", .ofNat (evaluation.severityCount .shouldFix)),
    ("optional_count", .ofNat (evaluation.severityCount .optional))
  ]

-- The node after its evaluation has been built.
def commitEvaluation (env : Env) (state : RunSnapshot) (evaluation : EvaluationResult) :
    Prog World Exn Pc := do
  let previousBest := state.bestScore
  let improved := match previousBest with
    | none => true
    | some best => decide (best < evaluation.overallScore)
  let bestScore := if improved then some evaluation.overallScore else previousBest
  let bestVersion := if improved then some state.currentIteration else state.bestVersion
  let thresholdMet := decide (state.qualityThreshold ≤ evaluation.overallScore)
  let gatePassed := thresholdMet && evaluation.severityCount .mustFix == 0
  let state ← commit env .none (modify (aggregate evaluation bestScore bestVersion))
    (some .scoresUpdated) fun _ =>
      scoresPayload evaluation state.currentIteration previousBest bestScore bestVersion gatePassed
  let outcome := outcomePayload evaluation state thresholdMet gatePassed
  if gatePassed then
    let _ ← transition env .none .completed .runCompleted outcome
    return .routing
  else if state.maxIterations ≤ state.currentIteration then
    let _ ← transition env .none .maxIterationsReached .maxIterationsReached outcome
    return .routing
  else if state.status = .pauseRequested then
    let _ ← enterPaused env
    return .aggregatorParked
  else
    let _ ← setStage env .optimizing
    return .routing

def aggregatorNode (env : Env) : Prog World Exn Pc := do
  checkCancel env
  let _ ← setStage env .aggregating
  let _ ← markNode env .aggregator .running none
  let w ← get
  let state := w.snapshot
  match state.reviews .tech, state.reviews .ux, state.reviews .biz with
  | some tech, some ux, some biz =>
    match EvaluationResult.validate? tech ux biz (averageScore tech ux biz)
        (tech.feedback ++ ux.feedback ++ biz.feedback) with
    | none => throw .validationError
    | some evaluation => commitEvaluation env state evaluation
  | _, _, _ => throw (.valueError "All three independent reviews are required")

def aggregatorWake (env : Env) : Prog World Exn Pc := do
  checkCancel env
  return .routing

def routeAfterAggregate : Prog World Exn Pc := do
  let w ← get
  if w.snapshot.status.isTerminal then
    return .finished none
  else
    return .toOptimizer

end Aggregator

section Optimizer

def planCall (state : RunSnapshot) (evaluation : EvaluationResult) : ProviderCall :=
  .generateRevisionPlan evaluation state.currentIteration state.pendingUserOverride
    state.outputLanguage

def planRepair (state : RunSnapshot) (value : Json) : ProviderCall :=
  .repairStructured "revision_plan" value none state.outputLanguage

-- The node from the end of its pause handling on.
def startOptimizer (env : Env) : Prog World Exn Pc := do
  let started ← monotonic env
  let _ ← markNode env .optimizer .running none
  let w ← get
  match w.snapshot.latestEvaluation with
  | none => throw (.valueError "Optimizer requires an evaluation")
  | some evaluation =>
    let structured ← structuredCall env 0 (planCall w.snapshot evaluation)
    return .optimizing { started, state := w.snapshot } structured

def stageOptimizer (env : Env) : Prog World Exn Pc := do
  let stage ← setStage env .optimizing
  if stage.status = .pauseRequested then
    let _ ← enterPaused env
    return .optimizerParked true
  else
    startOptimizer env

def optimizerNode (env : Env) : Prog World Exn Pc := do
  checkCancel env
  let w ← get
  if w.snapshot.status = .pauseRequested then
    let _ ← enterPaused env
    return .optimizerParked false
  else
    stageOptimizer env

def optimizerUnpark (env : Env) (staged : Bool) : Prog World Exn Pc := do
  checkCancel env
  if staged then
    let _ ← setStage env .optimizing
    startOptimizer env
  else
    stageOptimizer env

def finishOptimizer (cancelled : Bool) (plan : RevisionPlan) : Prog RunSnapshot Exn Unit := do
  if cancelled then
    throw .workflowCancelled
  else
    modify fun snapshot =>
      {
        snapshot with
        pendingRevisionPlan := some plan
        pendingUserOverride := none
        nodeStatuses := Function.update snapshot.nodeStatuses .optimizer .succeeded
        activeNode := none
        currentIteration := snapshot.currentIteration + 1
        reviews := fun _ => none
      }

def commitPlan (env : Env) (frame : NodeFrame) (result : ProviderStructuredResult)
    (plan : RevisionPlan) : Prog World Exn Pc := do
  checkCancel env
  let w ← get
  let _ ← commit env .none (finishOptimizer w.cancelSignal plan) (some .revisionPlanned) fun _ =>
    [("revision_plan", .obj plan.dump)]
  let _ ← recordUsage env .optimizer result.usage
  let now ← monotonic env
  let _ ← recordTiming env .optimizer frame.state.currentIteration 1 (now - frame.started) true
    (some result.usage)
  let _ ← setStage env .generating
  return .toGenerator

def optimizerWake (env : WorkflowEnv) (frame : NodeFrame) (structured : StructuredPc)
    (answer : Answer ProviderStructuredResult) : Prog World Exn Pc := do
  match frame.state.latestEvaluation with
  | none => throw (.valueError "Optimizer requires an evaluation")
  | some evaluation =>
    let outcome ← structuredWake env.toEnv env.revisionPlan (planCall frame.state evaluation)
      (planRepair frame.state) answer structured
    match outcome with
    | .inl structured => return .optimizing frame structured
    | .inr (result, plan) => commitPlan env.toEnv frame result plan

end Optimizer

section Run

def startRun (now : Timestamp) (snapshot : RunSnapshot) : RunSnapshot :=
  { snapshot with startedAt := some now }

-- `AgentWorkflow.run` up to the hand-over to the graph.
def begin (env : Env) : Prog World Exn Pc := do
  let w ← get
  let now ← utcNow env
  let _ ← commit env .none (modify (startRun now)) (some .runStarted) fun _ =>
    [
      ("status", .str RunStatus.queued.value),
      (
        "config",
        .obj [
          ("quality_threshold", .num w.snapshot.qualityThreshold),
          ("max_iterations", .ofNat w.snapshot.maxIterations),
          ("mock", .bool env.execution.isMock)
        ]
      )
    ]
  return .toGenerator

def failUnlessCancelled (env : Env) (code message : String) (retryable : Bool) :
    Prog World Exn Unit := do
  let w ← get
  if w.cancelSignal then
    let _ ← finalizeCancel env
  else
    let _ ← failRun env code message retryable

-- The `except` clauses of `AgentWorkflow.run`.
def runExcept (env : Env) : Exn → Prog World Exn Unit
  | .workflowCancelled => do let _ ← finalizeCancel env
  | .providerError error =>
    failUnlessCancelled env error.code error.userMessage error.isRetryable
  | .timeoutError =>
    failUnlessCancelled env "RUN_TIMEOUT" "The run exceeded a configured timeout." true
  | .validationError =>
    failUnlessCancelled env "STRUCTURED_OUTPUT_INVALID"
      "The provider returned invalid structured output." false
  | exn => throw exn

-- The `except Exception` of `RunManager._run_workflow` around them. The task ends with the
-- exception that was handled last.
def workflowExcept (env : Env) (exn : Exn) : Prog World Exn Pc :=
  tryCatch
    (do
      runExcept env exn
      return .finished (some exn))
    (fun exn => do
      failUnlessCancelled env "WORKFLOW_FAILED" "The workflow could not complete." false
      return .finished (some exn))

end Run

end Workflow

end AgenticPrd
