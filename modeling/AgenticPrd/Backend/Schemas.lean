import AgenticPrd.Lib.Rounding
import Mathlib.Logic.Function.Basic

/-!
The data model of the backend (`schemas.py`). A pydantic model whose validators constrain its fields
is a structure that carries the constraints. `validate?` is its construction from unchecked fields,
`none` where pydantic raises `ValidationError`. `RunSnapshot` is assigned to without validation and
so carries no constraint.
-/

namespace AgenticPrd

inductive RunStatus where
  | queued
  | generating
  | reviewing
  | aggregating
  | optimizing
  | pauseRequested
  | paused
  | cancelRequested
  | completed
  | maxIterationsReached
  | cancelled
  | failed
  deriving DecidableEq, Repr

inductive NodeStatus where
  | pending
  | running
  | succeeded
  | failed
  | skipped
  deriving DecidableEq, Repr

inductive Node where
  | generator
  | techReviewer
  | uxReviewer
  | bizReviewer
  | aggregator
  | optimizer
  deriving DecidableEq, Repr

inductive ReviewRole where
  | tech
  | ux
  | biz
  deriving DecidableEq, Repr

inductive RevisionSource where
  | tech
  | ux
  | biz
  | user
  deriving DecidableEq, Repr

inductive RevisionPriority where
  | high
  | medium
  | low
  deriving DecidableEq, Repr

inductive FeedbackSeverity where
  | mustFix
  | shouldFix
  | optional
  deriving DecidableEq, Repr

inductive RunEventType where
  | runStarted
  | statusChanged
  | nodeStarted
  | prdDelta
  | prdStreamReset
  | prdGenerated
  | reviewCompleted
  | scoresUpdated
  | revisionPlanned
  | pauseRequested
  | runPaused
  | runResumed
  | telemetryUpdated
  | runCompleted
  | maxIterationsReached
  | runCancelled
  | runFailed
  deriving DecidableEq, Repr

abbrev RunId := String

-- A `datetime` in microseconds.
abbrev Timestamp := Int

/--
A JSON value, as event payloads and HTTP bodies carry them.
-/
inductive Json where
  | null
  | bool (b : Bool)
  | num (q : ℚ)
  | str (s : String)
  | arr (items : List Json)
  | obj (fields : List (String × Json))

abbrev Payload := List (String × Json)

namespace Json

def ofNat (n : Nat) : Json :=
  .num n

def ofOption {α : Type} (f : α → Json) : Option α → Json
  | none => .null
  | some a => f a

end Json

namespace RunStatus

def value : RunStatus → String
  | queued => "QUEUED"
  | generating => "GENERATING"
  | reviewing => "REVIEWING"
  | aggregating => "AGGREGATING"
  | optimizing => "OPTIMIZING"
  | pauseRequested => "PAUSE_REQUESTED"
  | paused => "PAUSED"
  | cancelRequested => "CANCEL_REQUESTED"
  | completed => "COMPLETED"
  | maxIterationsReached => "MAX_ITERATIONS_REACHED"
  | cancelled => "CANCELLED"
  | failed => "FAILED"

end RunStatus

def RunEventType.value : RunEventType → String
  | runStarted => "run_started"
  | statusChanged => "status_changed"
  | nodeStarted => "node_started"
  | prdDelta => "prd_delta"
  | prdStreamReset => "prd_stream_reset"
  | prdGenerated => "prd_generated"
  | reviewCompleted => "review_completed"
  | scoresUpdated => "scores_updated"
  | revisionPlanned => "revision_planned"
  | pauseRequested => "pause_requested"
  | runPaused => "run_paused"
  | runResumed => "run_resumed"
  | telemetryUpdated => "telemetry_updated"
  | runCompleted => "run_completed"
  | maxIterationsReached => "max_iterations_reached"
  | runCancelled => "run_cancelled"
  | runFailed => "run_failed"

def ReviewRole.value : ReviewRole → String
  | tech => "tech"
  | ux => "ux"
  | biz => "biz"

def ReviewRole.node : ReviewRole → Node
  | tech => .techReviewer
  | ux => .uxReviewer
  | biz => .bizReviewer

def Node.value : Node → String
  | generator => "generator"
  | techReviewer => "tech_reviewer"
  | uxReviewer => "ux_reviewer"
  | bizReviewer => "biz_reviewer"
  | aggregator => "aggregator"
  | optimizer => "optimizer"

def Node.all : List Node :=
  [.generator, .techReviewer, .uxReviewer, .bizReviewer, .aggregator, .optimizer]

def FeedbackSeverity.value : FeedbackSeverity → String
  | mustFix => "must_fix"
  | shouldFix => "should_fix"
  | optional => "optional"

def RevisionSource.value : RevisionSource → String
  | tech => "tech"
  | ux => "ux"
  | biz => "biz"
  | user => "user"

def RevisionPriority.value : RevisionPriority → String
  | high => "high"
  | medium => "medium"
  | low => "low"

def LengthIn (s : String) (max : Nat) : Prop :=
  1 ≤ s.length ∧ s.length ≤ max

instance (s : String) (max : Nat) : Decidable (LengthIn s max) :=
  inferInstanceAs (Decidable (_ ∧ _))

structure FeedbackItem where
  severity : FeedbackSeverity
  issue : String
  recommendation : String
  issue_length : LengthIn issue 2000
  recommendation_length : LengthIn recommendation 2000
  deriving DecidableEq

structure RoleReview where
  role : ReviewRole
  score : Nat
  summary : String
  strengths : List String
  feedback : List FeedbackItem
  score_le : score ≤ 100
  summary_length : LengthIn summary 2000
  deriving DecidableEq

def averageScore (tech ux biz : RoleReview) : ℚ :=
  Rounding.round ((tech.score + ux.score + biz.score) / 3) 1

structure EvaluationResult where
  tech : RoleReview
  ux : RoleReview
  biz : RoleReview
  overallScore : ℚ
  combinedFeedback : List FeedbackItem
  overall_range : 0 ≤ overallScore ∧ overallScore ≤ 100
  roles : tech.role = .tech ∧ ux.role = .ux ∧ biz.role = .biz
  overall_eq : overallScore = averageScore tech ux biz
  deriving DecidableEq

structure RevisionItem where
  sourceRole : RevisionSource
  sourceRoles : List RevisionSource
  issue : String
  requiredChange : String
  targetSection : String
  priority : RevisionPriority
  source_mem : sourceRole ∈ sourceRoles
  sources_nodup : sourceRoles.Nodup
  issue_length : LengthIn issue 2000
  requiredChange_length : LengthIn requiredChange 4000
  targetSection_length : LengthIn targetSection 500
  deriving DecidableEq

structure RevisionPlan where
  iteration : Nat
  objective : String
  items : List RevisionItem
  userOverride : Option String
  iteration_range : 1 ≤ iteration ∧ iteration ≤ 5
  objective_length : LengthIn objective 2000
  override_length : ∀ s ∈ userOverride, s.length ≤ 2000
  deriving DecidableEq

structure TokenUsage where
  inputTokens : Nat
  outputTokens : Nat
  totalTokens : Nat
  total_eq : totalTokens = inputTokens + outputTokens
  deriving DecidableEq

structure RunError where
  code : String
  message : String
  retryable : Bool
  deriving DecidableEq

structure NodeTiming where
  node : Node
  version : Nat
  attempt : Nat
  seconds : ℚ
  succeeded : Bool
  inputTokens : Nat
  outputTokens : Nat
  version_range : 1 ≤ version ∧ version ≤ 5
  attempt_pos : 1 ≤ attempt
  seconds_nonneg : 0 ≤ seconds
  deriving DecidableEq

structure PRDVersion where
  version : Nat
  content : String
  createdAt : Timestamp
  evaluation : Option EvaluationResult
  revisionPlan : Option RevisionPlan
  tokenUsage : TokenUsage
  version_range : 1 ≤ version ∧ version ≤ 5
  deriving DecidableEq

structure RunSnapshot where
  providerId : Option String
  providerDisplayName : Option String
  modelId : Option String
  modelDisplayName : Option String
  runId : RunId
  userIdea : String
  targetAudience : Option String
  userConstraints : Option String
  outputLanguage : String
  currentIteration : Nat
  maxIterations : Nat
  qualityThreshold : ℚ
  status : RunStatus
  activeNode : Option Node
  versions : List PRDVersion
  currentPrd : String
  currentPrdAttempt : Nat
  latestEvaluation : Option EvaluationResult
  bestVersion : Option Nat
  bestScore : Option ℚ
  reviews : ReviewRole → Option RoleReview
  pendingRevisionPlan : Option RevisionPlan
  pendingUserOverride : Option String
  nodeStatuses : Node → NodeStatus
  totalTokens : TokenUsage
  nodeTokens : Node → Option TokenUsage
  nodeTimings : List NodeTiming
  estimatedCostUsd : Option ℚ
  costAvailable : Bool
  isMock : Bool
  elapsedSeconds : ℚ
  createdAt : Timestamp
  updatedAt : Timestamp
  startedAt : Option Timestamp
  completedAt : Option Timestamp
  error : Option RunError
  latestEventSequence : Nat

structure RunEvent where
  runId : RunId
  sequence : Nat
  event : RunEventType
  timestamp : Timestamp
  iteration : Nat
  payload : Payload
  sequence_pos : 1 ≤ sequence
  iteration_range : 1 ≤ iteration ∧ iteration ≤ 5

namespace TokenUsage

def ofTokens (inputTokens outputTokens : Nat) : TokenUsage :=
  {
    inputTokens
    outputTokens
    totalTokens := inputTokens + outputTokens
    total_eq := rfl
  }

def empty : TokenUsage :=
  ofTokens 0 0

def add (left right : TokenUsage) : TokenUsage :=
  ofTokens (left.inputTokens + right.inputTokens) (left.outputTokens + right.outputTokens)

def toJson (usage : TokenUsage) : Json :=
  .obj [
    ("input_tokens", .ofNat usage.inputTokens),
    ("output_tokens", .ofNat usage.outputTokens),
    ("total_tokens", .ofNat usage.totalTokens)
  ]

end TokenUsage

def FeedbackItem.toJson (item : FeedbackItem) : Json :=
  .obj [
    ("severity", .str item.severity.value),
    ("issue", .str item.issue),
    ("recommendation", .str item.recommendation)
  ]

def RoleReview.dump (review : RoleReview) : Payload :=
  [
    ("role", .str review.role.value),
    ("score", .ofNat review.score),
    ("summary", .str review.summary),
    ("strengths", .arr (review.strengths.map .str)),
    ("feedback", .arr (review.feedback.map FeedbackItem.toJson))
  ]

def RevisionItem.toJson (item : RevisionItem) : Json :=
  .obj [
    ("source_role", .str item.sourceRole.value),
    ("source_roles", .arr (item.sourceRoles.map fun role => .str role.value)),
    ("issue", .str item.issue),
    ("required_change", .str item.requiredChange),
    ("target_section", .str item.targetSection),
    ("priority", .str item.priority.value)
  ]

def RevisionPlan.dump (plan : RevisionPlan) : Payload :=
  [
    ("iteration", .ofNat plan.iteration),
    ("objective", .str plan.objective),
    ("items", .arr (plan.items.map RevisionItem.toJson)),
    ("user_override", .ofOption .str plan.userOverride)
  ]

namespace EvaluationResult

def validate? (tech ux biz : RoleReview) (overallScore : ℚ) (combinedFeedback : List FeedbackItem) :
    Option EvaluationResult :=
  if hrange : 0 ≤ overallScore ∧ overallScore ≤ 100 then
    if hroles : tech.role = .tech ∧ ux.role = .ux ∧ biz.role = .biz then
      if hscore : overallScore = averageScore tech ux biz then
        some {
          tech
          ux
          biz
          overallScore
          combinedFeedback
          overall_range := hrange
          roles := hroles
          overall_eq := hscore
        }
      else
        none
    else
      none
  else
    none

def severityCount (evaluation : EvaluationResult) (severity : FeedbackSeverity) : Nat :=
  evaluation.combinedFeedback.countP fun item => item.severity = severity

end EvaluationResult

def NodeTiming.validate? (node : Node) (version attempt : Nat) (seconds : ℚ) (succeeded : Bool)
    (inputTokens outputTokens : Nat) : Option NodeTiming :=
  if h : (1 ≤ version ∧ version ≤ 5) ∧ 1 ≤ attempt ∧ 0 ≤ seconds then
    some {
      node
      version
      attempt
      seconds
      succeeded
      inputTokens
      outputTokens
      version_range := h.1
      attempt_pos := h.2.1
      seconds_nonneg := h.2.2
    }
  else
    none

def PRDVersion.validate? (version : Nat) (content : String) (createdAt : Timestamp)
    (revisionPlan : Option RevisionPlan) (tokenUsage : TokenUsage) : Option PRDVersion :=
  if h : 1 ≤ version ∧ version ≤ 5 then
    some {
      version
      content
      createdAt
      evaluation := none
      revisionPlan
      tokenUsage
      version_range := h
    }
  else
    none

def RunEvent.validate? (runId : RunId) (sequence : Nat) (event : RunEventType)
    (timestamp : Timestamp) (iteration : Nat) (payload : Payload) : Option RunEvent :=
  if h : 1 ≤ sequence ∧ 1 ≤ iteration ∧ iteration ≤ 5 then
    some {
      runId
      sequence
      event
      timestamp
      iteration
      payload
      sequence_pos := h.1
      iteration_range := h.2
    }
  else
    none

theorem averageScore_range (tech ux biz : RoleReview) :
    0 ≤ averageScore tech ux biz ∧ averageScore tech ux biz ≤ 100 := by
  have htech : (tech.score : ℚ) ≤ 100 := by exact_mod_cast tech.score_le
  have hux : (ux.score : ℚ) ≤ 100 := by exact_mod_cast ux.score_le
  have hbiz : (biz.score : ℚ) ≤ 100 := by exact_mod_cast biz.score_le
  unfold averageScore
  constructor
  . have h : ((0 : ℤ) : ℚ) ≤ (tech.score + ux.score + biz.score) / 3 := by
      push_cast
      positivity
    exact_mod_cast Rounding.le_round 1 h
  . have h : ((tech.score : ℚ) + ux.score + biz.score) / 3 ≤ ((100 : ℤ) : ℚ) := by
      push_cast
      linarith
    exact_mod_cast Rounding.round_le 1 h

/--
The validators of `EvaluationResult` accept three reviews in their own places under the average
computed from them.
-/
theorem EvaluationResult.validate?_average {tech ux biz : RoleReview} (htech : tech.role = .tech)
    (hux : ux.role = .ux) (hbiz : biz.role = .biz) (feedback : List FeedbackItem) :
    ∃ evaluation,
      validate? tech ux biz (averageScore tech ux biz) feedback = some evaluation
        ∧
      evaluation.tech = tech ∧ evaluation.ux = ux ∧ evaluation.biz = biz
        ∧
      evaluation.combinedFeedback = feedback := by
  unfold validate?
  rw [dif_pos (averageScore_range tech ux biz), dif_pos ⟨htech, hux, hbiz⟩, dif_pos rfl]
  exact ⟨_, rfl, rfl, rfl, rfl, rfl⟩

theorem EvaluationResult.validate?_fields {tech ux biz : RoleReview} {overallScore : ℚ}
    {feedback : List FeedbackItem} {evaluation : EvaluationResult}
    (h : validate? tech ux biz overallScore feedback = some evaluation) :
    evaluation.tech = tech ∧ evaluation.ux = ux ∧ evaluation.biz = biz
      ∧
    evaluation.overallScore = overallScore ∧ evaluation.combinedFeedback = feedback := by
  unfold validate? at h
  split at h
  . split at h
    . split at h
      . cases h
        simp
      . contradiction
    . contradiction
  . contradiction

theorem PRDVersion.validate?_eq_some {version : Nat} (h : 1 ≤ version ∧ version ≤ 5)
    (content : String) (createdAt : Timestamp) (plan : Option RevisionPlan) (usage : TokenUsage) :
    ∃ v,
      validate? version content createdAt plan usage = some v
        ∧
      v.version = version ∧ v.content = content ∧ v.evaluation = none ∧ v.revisionPlan = plan := by
  unfold validate?
  rw [dif_pos h]
  exact ⟨_, rfl, rfl, rfl, rfl, rfl⟩

theorem NodeTiming.validate?_eq_some (node : Node) {version attempt : Nat} {seconds : ℚ}
    (hversion : 1 ≤ version ∧ version ≤ 5) (hattempt : 1 ≤ attempt) (hseconds : 0 ≤ seconds)
    (succeeded : Bool) (inputTokens outputTokens : Nat) :
    ∃ t,
      validate? node version attempt seconds succeeded inputTokens outputTokens = some t
        ∧
      t.node = node ∧ t.version = version ∧ t.attempt = attempt
        ∧
      t.inputTokens = inputTokens ∧ t.outputTokens = outputTokens := by
  unfold validate?
  rw [dif_pos ⟨hversion, hattempt, hseconds⟩]
  exact ⟨_, rfl, rfl, rfl, rfl, rfl, rfl⟩

theorem RunEvent.validate?_eq_some {sequence iteration : Nat} (hsequence : 1 ≤ sequence)
    (hiteration : 1 ≤ iteration ∧ iteration ≤ 5) (runId : RunId) (event : RunEventType)
    (timestamp : Timestamp) (payload : Payload) :
    ∃ e,
      validate? runId sequence event timestamp iteration payload = some e
        ∧
      e.sequence = sequence ∧ e.event = event ∧ e.iteration = iteration ∧ e.payload = payload := by
  unfold validate?
  rw [dif_pos ⟨hsequence, hiteration⟩]
  exact ⟨_, rfl, rfl, rfl, rfl, rfl⟩

theorem RunEvent.validate?_eq_none_iff {runId : RunId} {sequence : Nat} {event : RunEventType}
    {timestamp : Timestamp} {iteration : Nat} {payload : Payload} (hsequence : 1 ≤ sequence) :
    validate? runId sequence event timestamp iteration payload = none
      ↔
    ¬(1 ≤ iteration ∧ iteration ≤ 5) := by
  unfold validate?
  split
  . next h => simp [h.2]
  . next h =>
    simp only [true_iff]
    intro hiteration
    exact h ⟨hsequence, hiteration⟩

theorem RunEvent.validate?_fields {runId : RunId} {sequence : Nat} {event : RunEventType}
    {timestamp : Timestamp} {iteration : Nat} {payload : Payload} {e : RunEvent}
    (h : validate? runId sequence event timestamp iteration payload = some e) :
    e.sequence = sequence ∧ e.event = event ∧ e.iteration = iteration ∧ e.payload = payload := by
  unfold validate? at h
  split at h
  . cases h
    simp
  . cases h

end AgenticPrd
