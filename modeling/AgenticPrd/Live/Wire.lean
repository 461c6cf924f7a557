import AgenticPrd.Backend.Schemas
import AgenticPrd.Client.Contracts

/-!
What the backend sends and what the client reads: an event as the data of a message, and a snapshot
as the body of an answer. How a timestamp is written is left open.
-/

namespace AgenticPrd

theorem positiveInteger?_ofNat {n : Nat} (h : 1 ≤ n) :
    Client.Value.positiveInteger? (.ofNat n) = some (n : ℚ) := by
  have hone : (1 : ℚ) ≤ n := by exact_mod_cast h
  simp [Client.Value.positiveInteger?, Client.Value.number?, Json.ofNat, Option.filter, hone]

section Event

variable (isoformat : Timestamp → String)

-- `model_dump_json`
def RunEvent.toJson (e : RunEvent) : Json :=
  .obj [
    ("run_id", .str e.runId),
    ("sequence", .ofNat e.sequence),
    ("event", .str e.event.value),
    ("timestamp", .str (isoformat e.timestamp)),
    ("iteration", .ofNat e.iteration),
    ("payload", .obj e.payload)
  ]

def RunEvent.wire (e : RunEvent) : Client.RunEvent :=
  {
    runId := e.runId
    sequence := e.sequence
    event := e.event
    timestamp := isoformat e.timestamp
    iteration := e.iteration
    payload := e.payload
  }

@[simp]
theorem RunEventType.runEventType?_value (event : RunEventType) :
    Client.runEventType? event.value = some event := by
  cases event <;> decide

-- The client accepts every event of the backend, and reads what was sent.
@[simp]
theorem RunEvent.parseRunEvent_toJson (e : RunEvent) :
    Client.parseRunEvent (e.toJson isoformat) = some (e.wire isoformat) := by
  simp [Client.parseRunEvent, RunEvent.toJson, RunEvent.wire, Client.Value.field,
    Client.Value.string?, Client.Value.number?, Record.get?_cons, Json.ofNat]

end Event

section Snapshot

def RoleReview.wire (review : RoleReview) : Client.RoleReview :=
  {
    fields := review.dump
    score := review.score
    score_eq := by simp [RoleReview.dump, Record.get?_cons, Json.ofNat]
  }

def EvaluationResult.wire (evaluation : EvaluationResult) : Client.EvaluationResult :=
  {
    tech := evaluation.tech.wire
    ux := evaluation.ux.wire
    biz := evaluation.biz.wire
    overallScore := evaluation.overallScore
    combinedFeedback := evaluation.combinedFeedback.map FeedbackItem.toJson
  }

def PRDVersion.wire (version : PRDVersion) : Client.PRDVersion :=
  {
    version := version.version
    content := version.content
    evaluation := version.evaluation.map EvaluationResult.wire
    revisionPlan := .ofOption (fun plan => .obj plan.dump) version.revisionPlan
  }

def RunSnapshot.wire (snapshot : RunSnapshot) : Client.RunSnapshot :=
  {
    runId := snapshot.runId
    currentIteration := snapshot.currentIteration
    maxIterations := snapshot.maxIterations
    qualityThreshold := snapshot.qualityThreshold
    status := snapshot.status
    activeNode := snapshot.activeNode.map Node.value
    versions := snapshot.versions.map PRDVersion.wire
    currentPrd := snapshot.currentPrd
    currentPrdAttempt := .ofNat snapshot.currentPrdAttempt
    latestEvaluation := snapshot.latestEvaluation.map EvaluationResult.wire
    bestVersion := .ofOption .ofNat snapshot.bestVersion
    bestScore := .ofOption .num snapshot.bestScore
    reviews := fun role => (snapshot.reviews role).map RoleReview.dump
    pendingRevisionPlan := .ofOption (fun plan => .obj plan.dump) snapshot.pendingRevisionPlan
    nodeStatuses := Node.all.map fun node => (node.value, snapshot.nodeStatuses node)
    totalTokens := snapshot.totalTokens.toJson
    estimatedCostUsd := snapshot.estimatedCostUsd
    costAvailable := snapshot.costAvailable
    isMock := snapshot.isMock
    elapsedSeconds := snapshot.elapsedSeconds
    error := snapshot.error
    latestEventSequence := snapshot.latestEventSequence
  }

end Snapshot

end AgenticPrd
