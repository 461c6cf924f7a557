import AgenticPrd.Client.Contracts
import Mathlib.Data.List.Sort

/-!
The view of a run in the browser (`runReducer.ts`): the actions that are dispatched to it and the
reducer that folds them. Records keyed by a version are association lists.
-/

namespace AgenticPrd

namespace Client

inductive ConnectionStatus where
  | idle
  | connecting
  | open
  | recovering
  | closed
  deriving DecidableEq

inductive Control where
  | pause
  | resume
  | cancel
  deriving DecidableEq

structure VersionDraft where
  version : ℚ
  attempt : ℚ
  content : String
  complete : Bool
  deriving DecidableEq

structure SeverityCounts where
  mustFix : ℚ
  shouldFix : ℚ
  optional : ℚ
  deriving DecidableEq

structure VersionScore where
  version : ℚ
  tech : ℚ
  ux : ℚ
  biz : ℚ
  overall : ℚ
  severity : SeverityCounts
  deriving DecidableEq

structure VersionRevisionPlan where
  sourceVersion : ℚ
  targetVersion : ℚ
  plan : Json

structure RunOutcome where
  thresholdMet : Bool
  qualityGatePassed : Bool
  qualityThreshold : ℚ
  completedIterations : ℚ
  maxIterations : ℚ
  bestVersion : Option ℚ
  bestScore : Option ℚ
  severity : SeverityCounts
  deriving DecidableEq

abbrev Drafts := List (ℚ × VersionDraft)

abbrev Reviews := ReviewRole → Option Review

structure RunViewState where
  runId : Option RunId
  snapshot : Option RunSnapshot
  status : Option Status
  connection : ConnectionStatus
  latestSequence : ℚ
  events : List RunEvent
  drafts : Drafts
  reviewsByVersion : List (ℚ × Reviews)
  scoresByVersion : List (ℚ × VersionScore)
  revisionPlansBySourceVersion : List (ℚ × VersionRevisionPlan)
  bestVersion : Option ℚ
  bestScore : Option ℚ
  outcome : Option RunOutcome
  selectedVersion : Option ℚ
  selectionPinned : Bool
  pendingRevisionPlan : Json
  isCreating : Bool
  pendingControl : Option Control
  error : Option String

def initialRunViewState : RunViewState :=
  {
    runId := none
    snapshot := none
    status := none
    connection := .idle
    latestSequence := 0
    events := []
    drafts := []
    reviewsByVersion := []
    scoresByVersion := []
    revisionPlansBySourceVersion := []
    bestVersion := none
    bestScore := none
    outcome := none
    selectedVersion := none
    selectionPinned := false
    pendingRevisionPlan := .null
    isCreating := false
    pendingControl := none
    error := none
  }

inductive RunAction where
  | createStarted
  | runSelected (runId : RunId)
  | snapshotLoaded (snapshot : RunSnapshot)
  | eventReceived (event : RunEvent)
  | connectionChanged (connection : ConnectionStatus)
  | controlStarted (control : Control)
  | controlFinished
  | statusUpdated (status : RunStatus)
  | versionSelected (version : ℚ)
  | error (message : String)
  | clearError
  | reset

section Payload

def numberPayload (payload : Payload) (key : String) (fallback : ℚ) : ℚ :=
  (Value.number? (Value.field (.obj payload) key)).getD fallback

def stringPayload (payload : Payload) (key : String) : Option String :=
  Value.string? (Value.field (.obj payload) key)

def optionalNumberPayload (payload : Payload) (key : String) : Option ℚ :=
  Value.number? (Value.field (.obj payload) key)

def statusPayload (payload : Payload) : Option Status :=
  (stringPayload payload "current").map .ofString

def severityPayloadKeys : List String :=
  ["must_fix_count", "should_fix_count", "optional_count"]

def countSeverities (items : List FeedbackItem) : SeverityCounts :=
  {
    mustFix := items.countP fun item => item.severity = .mustFix
    shouldFix := items.countP fun item => item.severity = .shouldFix
    optional := items.countP fun item => item.severity = .optional
  }

def severitiesFromReviews (reviews : Option Reviews) : Option SeverityCounts :=
  reviews.bind fun reviews =>
    let items := reviewRoles.flatMap fun role => ((reviews role).map Review.feedback).getD []
    if items.length > 0 then
      some (countSeverities items)
    else
      none

def severityFromPayload (payload : Payload) (fromReviews : Option SeverityCounts) :
    SeverityCounts :=
  let reported := severityPayloadKeys.any fun key => (optionalNumberPayload payload key).isSome
  match reported, fromReviews with
  | false, some counts => counts
  | _, _ =>
    {
      mustFix := numberPayload payload "must_fix_count" 0
      shouldFix := numberPayload payload "should_fix_count" 0
      optional := numberPayload payload "optional_count" 0
    }

def outcomeFromPayload (payload : Payload) (completedIterations : ℚ) (qualityGatePassed : Bool)
    (severity : Option SeverityCounts) : RunOutcome :=
  let thresholdMet := Value.bool? (Value.field (.obj payload) "threshold_met") == some true
  {
    thresholdMet
    qualityGatePassed :=
      (Value.bool? (Value.field (.obj payload) "quality_gate_passed")).getD
        (qualityGatePassed && thresholdMet)
    qualityThreshold := numberPayload payload "quality_threshold" 0
    completedIterations := numberPayload payload "completed_iterations" completedIterations
    maxIterations := numberPayload payload "max_iterations" completedIterations
    bestVersion := optionalNumberPayload payload "best_version"
    bestScore := optionalNumberPayload payload "best_score"
    severity := severityFromPayload payload severity
  }

end Payload

section Snapshot

def severitiesFromEvaluation (evaluation : EvaluationResult) : SeverityCounts :=
  let combined :=
    if evaluation.combinedFeedback.length > 0 then
      evaluation.combinedFeedback
    else
      [evaluation.tech, evaluation.ux, evaluation.biz].flatMap fun review =>
        Value.items (Value.field (.obj review.fields) "feedback")
  countSeverities (normalizeFeedback (.arr combined))

def versionsFromSnapshot (versions : List PRDVersion) : Drafts :=
  Record.update [] (versions.map fun version =>
    (
      version.version,
      {
        version := version.version
        attempt := 1
        content := version.content
        complete := true
      }
    ))

def evaluationReviews (evaluation : EvaluationResult) : Reviews
  | .tech => some (normalizeReview evaluation.tech.fields)
  | .ux => some (normalizeReview evaluation.ux.fields)
  | .biz => some (normalizeReview evaluation.biz.fields)

def reviewsFromSnapshot (snapshot : RunSnapshot) : List (ℚ × Reviews) :=
  let entries := snapshot.versions.filterMap fun version =>
    version.evaluation.map fun evaluation => (version.version, evaluationReviews evaluation)
  let live :=
    if reviewRoles.any fun role => (snapshot.reviews role).isSome then
      [(snapshot.currentIteration, fun role => (snapshot.reviews role).map normalizeReview)]
    else
      []
  Record.update [] (entries ++ live)

def scoresFromSnapshot (versions : List PRDVersion) : List (ℚ × VersionScore) :=
  Record.update [] (versions.filterMap fun version =>
    version.evaluation.map fun evaluation =>
      (
        version.version,
        {
          version := version.version
          tech := evaluation.tech.score
          ux := evaluation.ux.score
          biz := evaluation.biz.score
          overall := evaluation.overallScore
          severity := severitiesFromEvaluation evaluation
        }
      ))

def planSourceVersion (plan : Json) (targetVersion : ℚ) : ℚ :=
  (Value.positiveInteger? (Value.field plan "iteration")).getD (targetVersion - 1)

def revisionPlansFromSnapshot (snapshot : RunSnapshot) : List (ℚ × VersionRevisionPlan) :=
  let committed := (snapshot.versions.filter fun version => Value.truthy version.revisionPlan).map
    fun version =>
      let sourceVersion := planSourceVersion version.revisionPlan version.version
      (
        sourceVersion,
        { sourceVersion, targetVersion := version.version, plan := version.revisionPlan }
      )
  let pending :=
    if Value.truthy snapshot.pendingRevisionPlan then
      let sourceVersion := planSourceVersion snapshot.pendingRevisionPlan snapshot.currentIteration
      [
        (
          sourceVersion,
          {
            sourceVersion
            targetVersion := sourceVersion + 1
            plan := snapshot.pendingRevisionPlan
          }
        )
      ]
    else
      []
  Record.update [] (committed ++ pending)

def bestOfVersions (versions : List PRDVersion) : Option ℚ × Option ℚ :=
  versions.foldl
    (fun best version =>
      match version.evaluation with
      | none => best
      | some evaluation =>
        if best.2.all fun score => score < evaluation.overallScore then
          (some version.version, some evaluation.overallScore)
        else
          best)
    (none, none)

-- `bestVersion` and `bestScore`.
def bestFromSnapshot (snapshot : RunSnapshot) : Option ℚ × Option ℚ :=
  match Value.number? snapshot.bestVersion, Value.number? snapshot.bestScore with
  | some version, some score => (some version, some score)
  | _, _ => bestOfVersions snapshot.versions

def outcomeFromSnapshot (snapshot : RunSnapshot) (best : Option ℚ × Option ℚ) :
    Option RunOutcome :=
  if snapshot.status ≠ .completed ∧ snapshot.status ≠ .maxIterationsReached then
    none
  else
    let gatePassed := decide (snapshot.status = .completed)
    let finalEvaluation :=
      snapshot.latestEvaluation <|> snapshot.versions.getLast?.bind PRDVersion.evaluation
    some {
      thresholdMet := gatePassed || finalEvaluation.any fun evaluation =>
        snapshot.qualityThreshold ≤ evaluation.overallScore
      qualityGatePassed := gatePassed
      qualityThreshold := snapshot.qualityThreshold
      completedIterations := snapshot.currentIteration
      maxIterations := snapshot.maxIterations
      bestVersion := best.1
      bestScore := best.2
      severity := (finalEvaluation.map severitiesFromEvaluation).getD (countSeverities [])
    }

def withNodeStatus (snapshot : Option RunSnapshot) (node : String) (status : NodeStatus) :
    Option RunSnapshot :=
  snapshot.map fun snapshot =>
    {
      snapshot with
      activeNode :=
        if status = .running then
          some node
        else if snapshot.activeNode = some node then
          none
        else
          snapshot.activeNode
      nodeStatuses := Record.set snapshot.nodeStatuses node status
    }

def withTelemetry (snapshot : Option RunSnapshot) (payload : Payload) : Option RunSnapshot :=
  snapshot.map fun snapshot =>
    {
      snapshot with
      totalTokens :=
        match Value.field (.obj payload) "tokens" with
        | .null => snapshot.totalTokens
        | tokens => tokens
      estimatedCostUsd :=
        match Record.get? payload "cost" with
        | some (.num cost) => some cost
        | some .null => none
        | _ => snapshot.estimatedCostUsd
      costAvailable :=
        (Value.bool? (Value.field (.obj payload) "cost_available")).getD snapshot.costAvailable
      isMock := (Value.bool? (Value.field (.obj payload) "mock")).getD snapshot.isMock
      elapsedSeconds := numberPayload payload "elapsed" snapshot.elapsedSeconds
    }

end Snapshot

section Event

def finalRoundSeverity (state : RunViewState) (payload : Payload) (iteration : ℚ) :
    Option SeverityCounts :=
  let version := (optionalNumberPayload payload "final_version").getD iteration
  severitiesFromReviews (Record.get? state.reviewsByVersion version)
    <|> (Record.get? state.scoresByVersion version).map VersionScore.severity

def applyStreamReset (state : RunViewState) (version : ℚ) (payload : Payload) : Drafts :=
  let attempt := numberPayload payload "attempt" 1
  let fresh := { version, attempt, content := "", complete := false }
  match Record.get? state.drafts version with
  | some current =>
    if attempt ≤ current.attempt then
      state.drafts
    else
      Record.set state.drafts version fresh
  | none => Record.set state.drafts version fresh

-- The drafts with the delta, unless the event belongs to no draft that is streamed.
def applyDelta (state : RunViewState) (version : ℚ) (payload : Payload) : Option Drafts :=
  let attempt := numberPayload payload "attempt" 1
  let delta := (stringPayload payload "delta").getD ""
  match Record.get? state.drafts version with
  | some current =>
    if current.complete ∨ current.attempt ≠ attempt then
      none
    else
      some (Record.set state.drafts version
        { version, attempt, content := current.content ++ delta, complete := false })
  | none =>
    if attempt ≠ 1 then
      none
    else
      some (Record.set state.drafts version
        { version, attempt, content := delta, complete := false })

def selectUnlessPinned (state : RunViewState) (version : ℚ) : Option ℚ :=
  if state.selectionPinned then
    state.selectedVersion
  else
    some version

def applyReview (state next : RunViewState) (event : RunEvent) : RunViewState :=
  match (stringPayload event.payload "role").bind reviewRole? with
  | none => next
  | some role =>
    let reviews : Reviews :=
      (Record.get? state.reviewsByVersion event.iteration).getD fun _ => none
    {
      next with
      reviewsByVersion := Record.set state.reviewsByVersion event.iteration
        (Function.update reviews role (some (normalizeReview event.payload)))
      snapshot := withNodeStatus next.snapshot (role.value ++ "_reviewer") .succeeded
    }

def applyScores (state next : RunViewState) (event : RunEvent) : RunViewState :=
  let payload := event.payload
  let overall := numberPayload payload "overall" 0
  let improved := state.bestScore.all fun score => score < overall
  {
    next with
    scoresByVersion := Record.set state.scoresByVersion event.iteration {
      version := event.iteration
      tech := numberPayload payload "tech" 0
      ux := numberPayload payload "ux" 0
      biz := numberPayload payload "biz" 0
      overall
      severity := severityFromPayload payload
        (severitiesFromReviews (Record.get? state.reviewsByVersion event.iteration))
    }
    bestVersion :=
      optionalNumberPayload payload "best_version"
        <|> if improved then some event.iteration else state.bestVersion
    bestScore :=
      optionalNumberPayload payload "best_score"
        <|> if improved then some overall else state.bestScore
    snapshot := withNodeStatus next.snapshot "aggregator" .succeeded
  }

def applyPlan (state next : RunViewState) (event : RunEvent) : RunViewState :=
  let plan := Value.field (.obj event.payload) "revision_plan"
  let snapshot := withNodeStatus next.snapshot "optimizer" .succeeded
  if Value.truthy plan then
    let sourceVersion := planSourceVersion plan event.iteration
    {
      next with
      pendingRevisionPlan := plan
      revisionPlansBySourceVersion :=
        Record.set state.revisionPlansBySourceVersion sourceVersion {
          sourceVersion
          targetVersion := max event.iteration (sourceVersion + 1)
          plan
        }
      snapshot
    }
  else
    {
      next with
      pendingRevisionPlan := .null
      snapshot
    }

def applyOutcome (state next : RunViewState) (event : RunEvent) (status : RunStatus)
    (qualityGatePassed : Bool) : RunViewState :=
  let outcome := outcomeFromPayload event.payload event.iteration qualityGatePassed
    (finalRoundSeverity state event.payload event.iteration)
  {
    next with
    status := some (.run status)
    connection := .closed
    bestVersion := outcome.bestVersion <|> state.bestVersion
    bestScore := outcome.bestScore <|> state.bestScore
    outcome := some outcome
  }

def applyEvent (state : RunViewState) (event : RunEvent) : RunViewState :=
  let payload := event.payload
  let version := numberPayload payload "version" event.iteration
  let next := {
    state with
    latestSequence := event.sequence
    events := state.events ++ [event]
    error := none
  }
  match event.event with
  | .statusChanged | .pauseRequested =>
    -- `""` is falsy.
    match (statusPayload payload).filter fun status => status ≠ .other "" with
    | some status => { next with status := some status }
    | none => next
  | .runPaused => { next with status := some (.run .paused) }
  | .runResumed => { next with status := some (.run .optimizing) }
  | .nodeStarted =>
    match (stringPayload payload "node").filter fun node => node ≠ "" with
    | some node => { next with snapshot := withNodeStatus next.snapshot node .running }
    | none => next
  | .prdStreamReset => { next with drafts := applyStreamReset state version payload }
  | .prdDelta =>
    match applyDelta state version payload with
    | some drafts => { next with drafts, selectedVersion := selectUnlessPinned state version }
    | none => next
  | .prdGenerated =>
    {
      next with
      drafts := Record.set state.drafts version {
        version
        attempt := numberPayload payload "attempt" 1
        content := (stringPayload payload "content").getD ""
        complete := true
      }
      selectedVersion := selectUnlessPinned state version
      snapshot := withNodeStatus next.snapshot "generator" .succeeded
    }
  | .reviewCompleted => applyReview state next event
  | .scoresUpdated => applyScores state next event
  | .revisionPlanned => applyPlan state next event
  | .telemetryUpdated => { next with snapshot := withTelemetry next.snapshot payload }
  | .runCompleted => applyOutcome state next event .completed true
  | .maxIterationsReached => applyOutcome state next event .maxIterationsReached false
  | .runCancelled => { next with status := some (.run .cancelled), connection := .closed }
  | .runFailed =>
    {
      next with
      status := some (.run .failed)
      connection := .closed
      error := some (localizedErrorMessage
        (stringPayload payload "error_code" <|> stringPayload payload "code"))
    }
  | .runStarted => next

end Event

section Reducer

def isArrayIndex (key : ℚ) : Bool :=
  key.den = 1 ∧ 0 ≤ key ∧ key < 2 ^ 32 - 1

-- `Object.keys(drafts).map(Number)`: array indices come first, in ascending order.
def availableVersions (drafts : Drafts) : List ℚ :=
  let (indices, others) := (drafts.map Prod.fst).partition isArrayIndex
  indices.insertionSort (fun a b => a ≤ b) ++ others

def streamedAttempt (snapshot : RunSnapshot) : ℚ :=
  (Value.positiveInteger? snapshot.currentPrdAttempt).getD 1

-- Whether `current_prd` belongs to a generation in progress.
def seedsDraft (snapshot : RunSnapshot) : Bool :=
  (Record.get? (versionsFromSnapshot snapshot.versions) snapshot.currentIteration).isNone
    && (snapshot.currentPrd ≠ "" || streamedAttempt snapshot > 1)
    && snapshot.versions.getLast?.map PRDVersion.content ≠ some snapshot.currentPrd

def draftsFromSnapshot (snapshot : RunSnapshot) : Drafts :=
  let drafts := versionsFromSnapshot snapshot.versions
  if seedsDraft snapshot then
    Record.set drafts snapshot.currentIteration {
      version := snapshot.currentIteration
      attempt := streamedAttempt snapshot
      content := snapshot.currentPrd
      complete := false
    }
  else
    drafts

def selectedVersionAfter (state : RunViewState) (versions : List ℚ) : Option ℚ :=
  match state.selectionPinned, state.selectedVersion with
  | true, some version => if version ∈ versions then some version else versions.getLast?
  | _, _ => versions.getLast?

def loadSnapshot (state : RunViewState) (snapshot : RunSnapshot) : RunViewState :=
  let drafts := draftsFromSnapshot snapshot
  let selectedVersion := selectedVersionAfter state (availableVersions drafts)
  let best := bestFromSnapshot snapshot
  {
    runId := some snapshot.runId
    snapshot := some snapshot
    status := some (.run snapshot.status)
    connection := state.connection
    latestSequence := snapshot.latestEventSequence
    events := state.events
    drafts
    reviewsByVersion := reviewsFromSnapshot snapshot
    scoresByVersion := scoresFromSnapshot snapshot.versions
    revisionPlansBySourceVersion := revisionPlansFromSnapshot snapshot
    bestVersion := best.1
    bestScore := best.2
    outcome := outcomeFromSnapshot snapshot best
    selectedVersion
    selectionPinned := state.selectionPinned && selectedVersion == state.selectedVersion
    pendingRevisionPlan := snapshot.pendingRevisionPlan
    isCreating := false
    pendingControl := none
    error := snapshot.error.map fun error => localizedErrorMessage (some error.code)
  }

def Locked (state : RunViewState) : Prop :=
  ∃ status ∈ state.status, status.isTerminal = true

instance (state : RunViewState) : Decidable (Locked state) :=
  inferInstanceAs (Decidable (∃ status ∈ state.status, _))

-- Whether the reducer drops the event.
def Ignores (state : RunViewState) (event : RunEvent) : Prop :=
  some event.runId ≠ state.runId ∨ event.sequence ≤ state.latestSequence ∨ Locked state

instance (state : RunViewState) (event : RunEvent) : Decidable (Ignores state event) :=
  inferInstanceAs (Decidable (_ ∨ _ ∨ _))

def runReducer (state : RunViewState) : RunAction → RunViewState
  | .createStarted => { initialRunViewState with isCreating := true }
  | .runSelected runId =>
    { initialRunViewState with runId := some runId, connection := .connecting }
  | .snapshotLoaded snapshot => loadSnapshot state snapshot
  | .eventReceived event => if Ignores state event then state else applyEvent state event
  | .connectionChanged connection => { state with connection }
  | .controlStarted control => { state with pendingControl := some control, error := none }
  | .controlFinished => { state with pendingControl := none }
  | .statusUpdated status => { state with status := some (.run status), pendingControl := none }
  | .versionSelected version =>
    { state with selectedVersion := some version, selectionPinned := true }
  | .error message =>
    { state with isCreating := false, pendingControl := none, error := some message }
  | .clearError => { state with error := none }
  | .reset => initialRunViewState

end Reducer

-- A snapshot of a run without a version.
def freshSnapshot (runId : RunId) (status : RunStatus) (latestEventSequence : ℚ) : RunSnapshot :=
  {
    runId
    currentIteration := 1
    maxIterations := 3
    qualityThreshold := 85
    status
    activeNode := none
    versions := []
    currentPrd := ""
    currentPrdAttempt := .num 1
    latestEvaluation := none
    bestVersion := .null
    bestScore := .null
    reviews := fun _ => none
    pendingRevisionPlan := .null
    nodeStatuses := []
    totalTokens := .null
    estimatedCostUsd := none
    costAvailable := false
    isMock := true
    elapsedSeconds := 0
    error := none
    latestEventSequence
  }

section Frame

-- Every action but CREATE_STARTED, RUN_SELECTED, SNAPSHOT_LOADED and RESET.
def RunAction.keepsRun : RunAction → Bool
  | createStarted => false
  | runSelected _ => false
  | snapshotLoaded _ => false
  | reset => false
  | _ => true

@[simp]
theorem applyReview_runId (state next : RunViewState) (event : RunEvent) :
    (applyReview state next event).runId = next.runId := by
  unfold applyReview
  split <;> rfl

@[simp]
theorem applyPlan_runId (state next : RunViewState) (event : RunEvent) :
    (applyPlan state next event).runId = next.runId := by
  unfold applyPlan
  dsimp only
  split <;> rfl

@[simp]
theorem applyEvent_runId (state : RunViewState) (event : RunEvent) :
    (applyEvent state event).runId = state.runId := by
  unfold applyEvent
  dsimp only
  split
  all_goals first
    | rfl
    | split <;> rfl
    | simp

theorem runReducer_runId {action : RunAction} (h : action.keepsRun = true) (state : RunViewState) :
    (runReducer state action).runId = state.runId := by
  cases action with
  | eventReceived event =>
    simp only [runReducer]
    split
    . rfl
    . simp
  | createStarted | runSelected | snapshotLoaded | reset => contradiction
  | _ => rfl

theorem foldl_runReducer_runId {actions : List RunAction}
    (h : ∀ action ∈ actions, action.keepsRun = true) (state : RunViewState) :
    (actions.foldl runReducer state).runId = state.runId := by
  induction actions generalizing state with
  | nil => rfl
  | cons action actions ih =>
    simp only [List.forall_mem_cons] at h
    simp only [List.foldl_cons]
    rw [ih h.2, runReducer_runId h.1]

end Frame

section Drafts

-- The version that an event about a draft belongs to.
def eventVersion (event : RunEvent) : ℚ :=
  numberPayload event.payload "version" event.iteration

def eventDrafts (state : RunViewState) (event : RunEvent) : Drafts :=
  match event.event with
  | .prdStreamReset => applyStreamReset state (eventVersion event) event.payload
  | .prdDelta => (applyDelta state (eventVersion event) event.payload).getD state.drafts
  | .prdGenerated =>
    Record.set state.drafts (eventVersion event) {
      version := eventVersion event
      attempt := numberPayload event.payload "attempt" 1
      content := (stringPayload event.payload "content").getD ""
      complete := true
    }
  | _ => state.drafts

@[simp]
theorem applyReview_drafts (state next : RunViewState) (event : RunEvent) :
    (applyReview state next event).drafts = next.drafts := by
  unfold applyReview
  split <;> rfl

@[simp]
theorem applyPlan_drafts (state next : RunViewState) (event : RunEvent) :
    (applyPlan state next event).drafts = next.drafts := by
  unfold applyPlan
  dsimp only
  split <;> rfl

theorem applyEvent_drafts (state : RunViewState) (event : RunEvent) :
    (applyEvent state event).drafts = eventDrafts state event := by
  unfold applyEvent eventDrafts
  dsimp only
  cases event.event with
  | prdDelta =>
    dsimp only [eventVersion]
    cases applyDelta state (numberPayload event.payload "version" event.iteration) event.payload <;>
      rfl
  | statusChanged | pauseRequested | nodeStarted =>
    dsimp only
    split <;> rfl
  | reviewCompleted => simp
  | revisionPlanned => simp
  | _ => rfl

-- The draft takes the deltas of an attempt.
def Awaits (draft : Option VersionDraft) (attempt : ℚ) : Prop :=
  match draft with
  | some draft => draft.complete = false ∧ draft.attempt = attempt
  | none => attempt = 1

instance (draft : Option VersionDraft) (attempt : ℚ) : Decidable (Awaits draft attempt) :=
  match draft with
  | some _ => inferInstanceAs (Decidable (_ ∧ _))
  | none => inferInstanceAs (Decidable (_ = _))

def shownContent (draft : Option VersionDraft) : String :=
  (draft.map VersionDraft.content).getD ""

theorem applyDelta_eq (state : RunViewState) (version : ℚ) (payload : Payload) :
    applyDelta state version payload
      =
    if Awaits (Record.get? state.drafts version) (numberPayload payload "attempt" 1) then
      some (Record.set state.drafts version {
        version
        attempt := numberPayload payload "attempt" 1
        content := shownContent (Record.get? state.drafts version)
          ++ (stringPayload payload "delta").getD ""
        complete := false
      })
    else
      none := by
  unfold applyDelta
  dsimp only
  cases Record.get? state.drafts version with
  | none =>
    by_cases h : numberPayload payload "attempt" 1 = 1
    . simp [Awaits, h, shownContent]
    . simp [Awaits, h]
  | some current =>
    by_cases h : current.complete = false ∧ current.attempt = numberPayload payload "attempt" 1
    . simp [Awaits, h, shownContent]
    . have hnot : current.complete = true ∨ current.attempt ≠ numberPayload payload "attempt" 1 := by
        cases hcomplete : current.complete with
        | true => exact .inl rfl
        | false =>
          right
          intro heq
          exact h ⟨hcomplete, heq⟩
      simp [Awaits, h, hnot]

end Drafts

end Client

end AgenticPrd
