import AgenticPrd.Backend.EventStore.Basic
import AgenticPrd.Backend.StateMachine
import AgenticPrd.Lib.Record

/-!
The run manager (`run_manager.py`) and the stores it writes to, for one live run. A function runs
without a task switch unless it says otherwise: the locks it takes are never held across one.
-/

namespace AgenticPrd

structure CreateRunRequest where
  userIdea : String
  targetAudience : Option String
  userConstraints : Option String
  qualityThreshold : ℚ
  maxIterations : Nat
  providerId : Option String
  modelId : Option String
  quality_range : 50 ≤ qualityThreshold ∧ qualityThreshold ≤ 100
  iterations_range : 1 ≤ maxIterations ∧ maxIterations ≤ 5
  selection_pair : providerId = none ↔ modelId = none

-- An empty name selects no provider.
def CreateRunRequest.selects (request : CreateRunRequest) : Bool :=
  request.providerId.any fun providerId => providerId ≠ ""

-- The prices of the settings, which accept none below zero.
structure ModelPricing where
  inputPerMillion : Option ℚ
  outputPerMillion : Option ℚ
  input_nonneg : ∀ price ∈ inputPerMillion, 0 ≤ price
  output_nonneg : ∀ price ∈ outputPerMillion, 0 ≤ price

structure RunExecution where
  pricing : ModelPricing
  isMock : Bool

-- What the catalog has resolved the selection of the run to.
structure RunBinding where
  providerId : String
  providerDisplayName : String
  modelId : String
  modelDisplayName : String
  execution : RunExecution

structure Settings where
  generatorTimeoutSeconds : Nat
  reviewerTimeoutSeconds : Nat
  optimizerTimeoutSeconds : Nat
  runTimeoutSeconds : Nat

-- `clock` and `utc` are the results of the successive readings of `monotonic()` and `utc_now()`.
structure Env where
  settings : Settings
  binding : RunBinding
  clock : Nat → ℚ
  utc : Nat → Timestamp

abbrev Env.execution (env : Env) : RunExecution :=
  env.binding.execution

-- The tables `run_events` and `runs`.
structure Database where
  rows : List RunEvent
  runRow : RunSnapshot

inductive DiskWrite where
  | insertEvent (e : RunEvent)
  | saveSnapshot

structure Commit where
  snapshot : RunSnapshot
  event : Option RunEvent

inductive ProviderCall where
  | streamPrd (userIdea : String) (targetAudience userConstraints : Option String) (iteration : Nat)
    (revisionPlan : Option RevisionPlan) (baselinePrd : Option String) (outputLanguage : String)
  | generateReview (role : ReviewRole) (prd : String) (iteration : Nat) (outputLanguage : String)
  | generateRevisionPlan (evaluation : EvaluationResult) (iteration : Nat)
    (userOverride : Option String) (outputLanguage : String)
  | repairStructured (kind : String) (rawValue : Json) (role : Option ReviewRole)
    (outputLanguage : String)

-- `_AttemptRecord`
structure AttemptRecord where
  started : ℚ
  usage : Option TokenUsage

/--
What the process holds for the run. `record` belongs to the generator node. `journal`, `disk` and
`calls` only record what happened: the completed commits, every state that the database went
through, and the calls of the provider.
-/
structure World where
  snapshot : RunSnapshot
  eventStore : SQLiteEventStore
  runRow : RunSnapshot
  cancelSignal : Bool
  resumeSignal : Bool
  activeStarted : Option ℚ
  pausedStarted : Option ℚ
  pausedTotal : ℚ
  record : AttemptRecord
  ticks : Nat
  journal : List Commit
  disk : List (DiskWrite × Database)
  calls : List ProviderCall

-- Whether the database raises at the next INSERT of an event and at the next save of the snapshot.
structure Faults where
  insertRaises : Bool
  saveRaises : Bool

def Faults.none : Faults :=
  {
    insertRaises := false
    saveRaises := false
  }

namespace RunSnapshot

def withUpdatedAt (now : Timestamp) (snapshot : RunSnapshot) : RunSnapshot :=
  { snapshot with updatedAt := now }

def withElapsed (elapsed : ℚ) (snapshot : RunSnapshot) : RunSnapshot :=
  { snapshot with elapsedSeconds := elapsed }

def withSequence (sequence : Nat) (snapshot : RunSnapshot) : RunSnapshot :=
  { snapshot with latestEventSequence := sequence }

def withStatus (status : RunStatus) (snapshot : RunSnapshot) : RunSnapshot :=
  { snapshot with status }

def withEnd (now : Timestamp) (snapshot : RunSnapshot) : RunSnapshot :=
  { snapshot with completedAt := some now, activeNode := none }

def addTiming (timing : NodeTiming) (snapshot : RunSnapshot) : RunSnapshot :=
  { snapshot with nodeTimings := snapshot.nodeTimings ++ [timing] }

end RunSnapshot

namespace World

def tick (w : World) : World :=
  { w with ticks := w.ticks + 1 }

def withSnapshot (snapshot : RunSnapshot) (w : World) : World :=
  { w with snapshot }

def withEventStore (eventStore : SQLiteEventStore) (w : World) : World :=
  { w with eventStore }

def mapSnapshot (f : RunSnapshot → RunSnapshot) (w : World) : World :=
  w.withSnapshot (f w.snapshot)

def database (w : World) : Database :=
  {
    rows := w.eventStore.rows
    runRow := w.runRow
  }

def wrote (write : DiskWrite) (w : World) : World :=
  { w with disk := w.disk ++ [(write, w.database)] }

def park (now : ℚ) (w : World) : World :=
  {
    w with
    pausedStarted := some now
    resumeSignal := false
  }

def unpark (paused : ℚ) (w : World) : World :=
  {
    w with
    pausedStarted := none
    pausedTotal := w.pausedTotal + paused
  }

def setResume (w : World) : World :=
  { w with resumeSignal := true }

def setCancel (w : World) : World :=
  {
    w with
    cancelSignal := true
    resumeSignal := true
  }

def called (call : ProviderCall) (w : World) : World :=
  { w with calls := w.calls ++ [call] }

end World

namespace RunManager

def monotonic (env : Env) : Prog World Exn ℚ :=
  modifyGet fun w => (env.clock w.ticks, w.tick)

def utcNow (env : Env) : Prog World Exn Timestamp :=
  modifyGet fun w => (env.utc w.ticks, w.tick)

def activeElapsed (env : Env) : Prog World Exn ℚ := do
  let w ← get
  match w.activeStarted with
  | none => return 0
  | some started =>
    match w.pausedStarted with
    | none =>
      let now ← monotonic env
      return max 0 (now - started - w.pausedTotal)
    | some pausedAt =>
      let now ← monotonic env
      let paused := w.pausedTotal + (now - pausedAt)
      let now ← monotonic env
      return max 0 (now - started - paused)

def remainingRunSeconds (env : Env) : Prog World Exn ℚ := do
  let elapsed ← activeElapsed env
  return max 0 (env.settings.runTimeoutSeconds - elapsed)

def stamp (env : Env) : Prog World Exn Unit := do
  let now ← utcNow env
  modify (World.mapSnapshot (RunSnapshot.withUpdatedAt now))
  let elapsed ← activeElapsed env
  modify (World.mapSnapshot (RunSnapshot.withElapsed elapsed))

def appendEvent (env : Env) (faults : Faults) (event : RunEventType) (payload : Payload) :
    Prog World Exn RunEvent := do
  let now ← utcNow env
  let w ← get
  let envelope ← Prog.zoom World.eventStore World.withEventStore
    (SQLiteEventStore.append w.snapshot.runId event w.snapshot.currentIteration payload now
      faults.insertRaises)
  if envelope.isDurable then
    modify (World.wrote (.insertEvent envelope))
  modify (World.mapSnapshot (RunSnapshot.withSequence envelope.sequence))
  return envelope

def saved (w : World) : World :=
  World.wrote .saveSnapshot { w with runRow := w.snapshot }

-- `SQLiteRunStore.save_unlocked`
def saveUnlocked (faults : Faults) : Prog World Exn Unit := do
  if faults.saveRaises then
    throw .databaseError
  else
    modify saved

-- The event of a commit, if it has one, and the snapshot with it if `durable` holds.
def publish (env : Env) (faults : Faults) (durable : Bool) :
    Option RunEventType → Payload → Prog World Exn (Option RunEvent)
  | none, _ => do
    saveUnlocked faults
    return none
  | some event, payload => do
    let envelope ← appendEvent env faults event payload
    if durable then
      saveUnlocked faults
      return some envelope
    else
      return some envelope

def journaled (event : Option RunEvent) (w : World) : World :=
  { w with journal := w.journal ++ [{ snapshot := w.snapshot, event }] }

def finishCommit (event : Option RunEvent) : Prog World Exn RunSnapshot := do
  modify (journaled event)
  let w ← get
  return w.snapshot

-- A commit without an event is durable, and so is one with an event that is not transient.
def isSaved (event : Option RunEventType) : Bool :=
  event.all fun event => !event.isTransient

-- `payload` is read after the mutation, which in `record_usage` fills it in.
def commit (env : Env) (faults : Faults) (mutation : Prog RunSnapshot Exn Unit)
    (event : Option RunEventType) (payload : RunSnapshot → Payload) :
    Prog World Exn RunSnapshot := do
  Prog.zoom World.snapshot World.withSnapshot mutation
  let w ← get
  stamp env
  let envelope ← publish env faults (isSaved event) event (payload w.snapshot)
  finishCommit envelope

def transition (env : Env) (faults : Faults) (target : RunStatus) (event : RunEventType)
    (payload : Payload) : Prog World Exn RunSnapshot := do
  let w ← get
  let previous := w.snapshot.status
  requireTransition previous target
  modify (World.mapSnapshot (RunSnapshot.withStatus target))
  if target.isTerminal then
    let now ← utcNow env
    modify (World.mapSnapshot (RunSnapshot.withEnd now))
  stamp env
  let eventPayload := [("previous", Json.str previous.value), ("current", .str target.value)]
  let envelope ← publish env faults true (some event) (Record.update eventPayload payload)
  finishCommit envelope

-- `create_run`; the output language is that of `detect_output_language`.
def createSnapshot (env : Env) (runId : RunId) (request : CreateRunRequest)
    (outputLanguage : String) (now : Timestamp) : RunSnapshot :=
  {
    providerId := if request.selects then some env.binding.providerId else none
    providerDisplayName := if request.selects then some env.binding.providerDisplayName else none
    modelId := if request.selects then some env.binding.modelId else none
    modelDisplayName := if request.selects then some env.binding.modelDisplayName else none
    runId
    userIdea := request.userIdea
    targetAudience := request.targetAudience
    userConstraints := request.userConstraints
    outputLanguage
    currentIteration := 1
    maxIterations := request.maxIterations
    qualityThreshold := request.qualityThreshold
    status := .queued
    activeNode := none
    versions := []
    currentPrd := ""
    currentPrdAttempt := 1
    latestEvaluation := none
    bestVersion := none
    bestScore := none
    reviews := fun _ => none
    pendingRevisionPlan := none
    pendingUserOverride := none
    nodeStatuses := fun _ => .pending
    totalTokens := .empty
    nodeTokens := fun _ => none
    nodeTimings := []
    estimatedCostUsd := none
    costAvailable := env.execution.isMock
      || (env.execution.pricing.inputPerMillion.isSome
        && env.execution.pricing.outputPerMillion.isSome)
    isMock := env.execution.isMock
    elapsedSeconds := 0
    createdAt := now
    updatedAt := now
    startedAt := none
    completedAt := none
    error := none
    latestEventSequence := 0
  }

def create (env : Env) (runId : RunId) (request : CreateRunRequest) (outputLanguage : String)
    (bufferSize : Nat) : World :=
  let snapshot := createSnapshot env runId request outputLanguage (env.utc 0)
  {
    snapshot
    eventStore := .createRun bufferSize
    runRow := snapshot
    cancelSignal := false
    resumeSignal := false
    activeStarted := some (env.clock 1)
    pausedStarted := none
    pausedTotal := 0
    record := {
      started := 0
      usage := none
    }
    ticks := 2
    journal := []
    disk := [(.saveSnapshot, { rows := [], runRow := snapshot })]
    calls := []
  }

def setStage (env : Env) (target : RunStatus) : Prog World Exn RunSnapshot := do
  let w ← get
  if w.snapshot.status = .pauseRequested ∨ w.snapshot.status = .cancelRequested then
    return w.snapshot
  else if w.snapshot.status = target then
    return w.snapshot
  else
    transition env .none target .statusChanged []

def requestPause (env : Env) : Prog World Exn RunSnapshot := do
  let w ← get
  if w.snapshot.status.isTerminal then
    throw (.runConflict "RUN_TERMINAL" "A terminal run cannot be paused.")
  else if w.snapshot.status = .pauseRequested ∨ w.snapshot.status = .paused then
    return w.snapshot
  else if w.snapshot.status ∈ [RunStatus.generating, .reviewing, .aggregating, .optimizing] then
    transition env .none .pauseRequested .pauseRequested [("safe_point", .str "after_aggregation")]
  else
    throw (.runConflict "RUN_NOT_PAUSABLE" "The run cannot be paused in its current state.")

def enterPaused (env : Env) : Prog World Exn RunSnapshot := do
  let w ← get
  let snapshot ← transition env .none .paused .runPaused
    [("iteration", .ofNat w.snapshot.currentIteration)]
  let now ← monotonic env
  modify (World.park now)
  return snapshot

def resumeMutation (userOverride : Option String) : Prog RunSnapshot Exn Unit := do
  let snapshot ← get
  requireTransition snapshot.status .optimizing
  set { snapshot.withStatus .optimizing with pendingUserOverride := userOverride }

def popPaused (env : Env) : Prog World Exn Unit := do
  let w ← get
  match w.pausedStarted with
  | none => return
  | some pausedAt =>
    let now ← monotonic env
    modify (World.unpark (now - pausedAt))

def resumeRun (env : Env) (userOverride : Option String) : Prog World Exn RunSnapshot := do
  let w ← get
  if w.snapshot.status = .paused then
    popPaused env
    let hasOverride := match userOverride with
      | none => false
      | some text => !text.isEmpty
    let result ← commit env .none (resumeMutation userOverride) (some .runResumed)
      fun _ => [("has_user_override", .bool hasOverride)]
    modify World.setResume
    return result
  else
    throw (.runConflict "RUN_NOT_PAUSED" "Only a paused run can be resumed.")

def finalizeCancel (env : Env) : Prog World Exn RunSnapshot := do
  let w ← get
  if w.snapshot.status = .cancelled then
    return w.snapshot
  else if w.snapshot.status ≠ .cancelRequested then
    return w.snapshot
  else
    transition env .none .cancelled .runCancelled [("reason", .str "user_requested")]

def cancelRun (env : Env) : Prog World Exn RunSnapshot := do
  let w ← get
  if w.snapshot.status = .cancelled then
    return w.snapshot
  else if w.snapshot.status.isTerminal then
    throw (.runConflict "RUN_TERMINAL" "A completed or failed run cannot be cancelled.")
  else
    if w.snapshot.status ≠ .cancelRequested then
      let _ ← transition env .none .cancelRequested .statusChanged []
    modify World.setCancel
    finalizeCancel env

def failSnapshot (code message : String) (retryable : Bool) (now : Timestamp)
    (snapshot : RunSnapshot) : RunSnapshot :=
  {
    snapshot with
    status := .failed
    nodeStatuses := match snapshot.activeNode with
      | none => snapshot.nodeStatuses
      | some node => Function.update snapshot.nodeStatuses node .failed
    error := some {
      code
      message := (message.take 2000).toString
      retryable
    }
    completedAt := some now
    activeNode := none
  }

def failRun (env : Env) (code message : String) (retryable : Bool) :
    Prog World Exn RunSnapshot := do
  let w ← get
  if w.snapshot.status.isTerminal then
    return w.snapshot
  else
    let now ← utcNow env
    commit env .none (modify (failSnapshot code message retryable now)) (some .runFailed) fun _ =>
      [
        ("error_code", .str code),
        ("message", .str message),
        ("retryable", .bool retryable)
      ]

def timingMutation (node : Node) (version attempt : Nat) (seconds : ℚ) (succeeded : Bool)
    (usage : Option TokenUsage) : Prog RunSnapshot Exn Unit := do
  let inputTokens := (usage.map TokenUsage.inputTokens).getD 0
  let outputTokens := (usage.map TokenUsage.outputTokens).getD 0
  match NodeTiming.validate? node version attempt (Rounding.round (max 0 seconds) 2) succeeded
      inputTokens outputTokens with
  | none => throw .validationError
  | some timing => modify (RunSnapshot.addTiming timing)

def recordTiming (env : Env) (node : Node) (version attempt : Nat) (seconds : ℚ)
    (succeeded : Bool) (usage : Option TokenUsage) : Prog World Exn RunSnapshot :=
  commit env .none (timingMutation node version attempt seconds succeeded usage) none fun _ => []

-- `estimate_cost` under the pricing of the run's binding
def estimateCost (usage : TokenUsage) (execution : RunExecution) : Option ℚ :=
  if execution.isMock then
    some 0
  else
    match execution.pricing.inputPerMillion, execution.pricing.outputPerMillion with
    | some inputPrice, some outputPrice =>
      let cost :=
        usage.inputTokens * inputPrice / 1000000 + usage.outputTokens * outputPrice / 1000000
      some (Rounding.roundHalfUp cost 6)
    | _, _ => none

def addNodeUsage (execution : RunExecution) (node : Node) (usage : TokenUsage)
    (snapshot : RunSnapshot) : RunSnapshot :=
  let previous := (snapshot.nodeTokens node).getD .empty
  let totalTokens := snapshot.totalTokens.add usage
  let estimatedCostUsd := estimateCost totalTokens execution
  {
    snapshot with
    nodeTokens := Function.update snapshot.nodeTokens node (some (previous.add usage))
    totalTokens
    estimatedCostUsd
    costAvailable := execution.isMock || estimatedCostUsd.isSome
  }

def telemetryPayload (snapshot : RunSnapshot) : Payload :=
  [
    ("tokens", snapshot.totalTokens.toJson),
    ("cost", .ofOption .num snapshot.estimatedCostUsd),
    ("cost_available", .bool snapshot.costAvailable),
    ("mock", .bool snapshot.isMock),
    ("elapsed", .num snapshot.elapsedSeconds)
  ]

def recordUsage (env : Env) (node : Node) (usage : TokenUsage) : Prog World Exn RunSnapshot :=
  commit env .none (modify (addNodeUsage env.execution node usage)) (some .telemetryUpdated)
    telemetryPayload

def markSnapshot (node : Node) (status : NodeStatus) (snapshot : RunSnapshot) : RunSnapshot :=
  let activeNode := if status = .running then some node else snapshot.activeNode
  {
    snapshot with
    nodeStatuses := Function.update snapshot.nodeStatuses node status
    activeNode :=
      if status ∈ [NodeStatus.succeeded, .failed, .skipped] ∧ activeNode = some node then
        none
      else
        activeNode
  }

-- Every caller marks a node as running and asks for the event.
def markNode (env : Env) (node : Node) (status : NodeStatus) (role : Option ReviewRole) :
    Prog World Exn RunSnapshot :=
  commit env .none (modify (markSnapshot node status)) (some .nodeStarted) fun _ =>
    [
      ("node", .str node.value),
      ("role", .ofOption (fun role => .str (ReviewRole.value role)) role)
    ]

-- A run of the mock provider under the default settings, and a clock that stands still.
def mockEnv : Env :=
  {
    settings := {
      generatorTimeoutSeconds := 240
      reviewerTimeoutSeconds := 45
      optimizerTimeoutSeconds := 60
      runTimeoutSeconds := 600
    }
    binding := {
      providerId := "legacy"
      providerDisplayName := "Legacy"
      modelId := "legacy"
      modelDisplayName := "Legacy"
      execution := {
        pricing := {
          inputPerMillion := none
          outputPerMillion := none
          input_nonneg := nofun
          output_nonneg := nofun
        }
        isMock := true
      }
    }
    clock := fun _ => 0
    utc := fun _ => 0
  }

def mockRequest : CreateRunRequest :=
  {
    userIdea := "A shared shopping list"
    targetAudience := none
    userConstraints := none
    qualityThreshold := 85
    maxIterations := 3
    providerId := none
    modelId := none
    quality_range := by decide +kernel
    iterations_range := by decide
    selection_pair := by simp
  }

def mockWorld : World :=
  create mockEnv "run" mockRequest "English" 1000

end RunManager

end AgenticPrd
