import AgenticPrd.Backend.PrdDocument
import AgenticPrd.Backend.Schemas
import AgenticPrd.Lib.Codec
import Mathlib.Data.List.Dedup

/-!
`model_dump_json` and `model_validate_json` of a snapshot and of the models in it. The coercions
that pydantic offers beyond what it writes itself, and the defaults that read the clock, are left
out.
-/

namespace AgenticPrd

namespace Json

variable {α : Type}

def text : Codec Json String :=
  {
    encode := .str
    decode := fun
      | .str s => some s
      | _ => none
    decode_encode := fun _ => rfl
  }

def number : Codec Json ℚ :=
  {
    encode := .num
    decode := fun
      | .num q => some q
      | _ => none
    decode_encode := fun _ => rfl
  }

def flag : Codec Json Bool :=
  {
    encode := .bool
    decode := fun
      | .bool b => some b
      | _ => none
    decode_encode := fun _ => rfl
  }

def nat : Codec Json Nat :=
  {
    encode := .ofNat
    decode := fun
      | .num q => if q.den = 1 ∧ 0 ≤ q then some q.num.toNat else none
      | _ => none
    decode_encode := by
      intro n
      have h : (n : ℚ).den = 1 ∧ (0 : ℚ) ≤ n := ⟨Rat.den_natCast n, Nat.cast_nonneg n⟩
      simp only [ofNat, if_pos h, Rat.num_natCast, Int.toNat_natCast]
  }

-- A value that is written as a string.
def named (codec : Codec String α) : Codec Json α :=
  text.retract codec.encode codec.decode codec.decode_encode

def nullable (codec : Codec Json α) (hnull : ∀ a, codec.encode a ≠ .null := by nofun) :
    Codec Json (Option α) :=
  {
    encode := .ofOption codec.encode
    decode := fun
      | .null => some none
      | value => (codec.decode value).map some
    decode_encode := by
      intro a
      cases a with
      | none => rfl
      | some a =>
        have hdecode := codec.decode_encode a
        have hne := hnull a
        unfold ofOption
        dsimp only
        generalize codec.encode a = value at hdecode hne
        cases value with
        | null => contradiction
        | _ =>
          dsimp only
          rw [hdecode]
          rfl
  }

def array (codec : Codec Json α) : Codec Json (List α) :=
  {
    encode := fun items => .arr (items.map codec.encode)
    decode := fun
      | .arr values => codec.list.decode values
      | _ => none
    decode_encode := codec.list.decode_encode
  }

def object (codec : Codec Payload α) : Codec Json α :=
  {
    encode := fun a => .obj (codec.encode a)
    decode := fun
      | .obj fields => codec.decode fields
      | _ => none
    decode_encode := codec.decode_encode
  }

def lengthIn (max : Nat) : Codec Json { s // LengthIn s max } :=
  text.subtype fun s => LengthIn s max

def range (least most : Nat) : Codec Json { n // least ≤ n ∧ n ≤ most } :=
  nat.subtype fun n => least ≤ n ∧ n ≤ most

end Json

section Names

def FeedbackSeverity.codec : Codec Json FeedbackSeverity :=
  Json.named (.named [.mustFix, .shouldFix, .optional] value (by intro a; cases a <;> decide)
    (by decide))

def ReviewRole.all : List ReviewRole :=
  [.tech, .ux, .biz]

theorem ReviewRole.mem_all (role : ReviewRole) : role ∈ all := by
  cases role <;> decide

theorem Node.mem_all (node : Node) : node ∈ all := by
  cases node <;> decide

def ReviewRole.codec : Codec Json ReviewRole :=
  Json.named (.named all value mem_all (by decide))

def Node.codec : Codec Json Node :=
  Json.named (.named all value mem_all (by decide))

def RevisionSource.codec : Codec Json RevisionSource :=
  Json.named (.named [.tech, .ux, .biz, .user] value (by intro a; cases a <;> decide) (by decide))

def RevisionPriority.codec : Codec Json RevisionPriority :=
  Json.named (.named [.high, .medium, .low] value (by intro a; cases a <;> decide) (by decide))

def RunStatus.codec : Codec Json RunStatus :=
  Json.named (.named
    [.queued, .generating, .reviewing, .aggregating, .optimizing, .pauseRequested, .paused,
      .cancelRequested, .completed, .maxIterationsReached, .cancelled, .failed]
    value (by intro a; cases a <;> decide) (by decide))

def NodeStatus.value : NodeStatus → String
  | pending => "PENDING"
  | running => "RUNNING"
  | succeeded => "SUCCEEDED"
  | failed => "FAILED"
  | skipped => "SKIPPED"

def NodeStatus.codec : Codec Json NodeStatus :=
  Json.named (.named [.pending, .running, .succeeded, .failed, .skipped] value
    (by intro a; cases a <;> decide) (by decide))

end Names

section Models

namespace FeedbackItem

def codec : Codec Json FeedbackItem :=
  Codec.retract
    (Json.object <| Fields.closed <|
      .cons "severity" none FeedbackSeverity.codec <|
      .cons "issue" none (Json.lengthIn 2000) <|
      .cons "recommendation" none (Json.lengthIn 2000) .nil)
    (fun item =>
      (item.severity, ⟨item.issue, item.issue_length⟩,
        ⟨item.recommendation, item.recommendation_length⟩, ()))
    (fun (severity, issue, recommendation, _) => some {
      severity
      issue
      recommendation
      issue_length := issue.property
      recommendation_length := recommendation.property
    })
    fun _ => rfl

end FeedbackItem

-- `_coerce_feedback`, for one entry of the list
def coerceItem : Json → Option Json
  | .str s =>
    let text := String.ofList (PrdDocument.strip s.toList)
    if text = "" then
      none
    else
      some (.obj [
        ("severity", .str FeedbackSeverity.shouldFix.value),
        ("issue", .str text),
        ("recommendation", .str text)
      ])
  | item => some item

def coerceFeedback : Json → Json
  | .arr items => .arr (items.filterMap coerceItem)
  | value => value

theorem coerceFeedback_toJson (items : List FeedbackItem) :
    coerceFeedback (.arr (items.map FeedbackItem.toJson)) = .arr (items.map FeedbackItem.toJson) := by
  have hitem : coerceItem ∘ FeedbackItem.toJson = some ∘ FeedbackItem.toJson := rfl
  unfold coerceFeedback
  dsimp only
  rw [List.filterMap_map, hitem, List.filterMap_eq_map]

def feedbackCodec : Codec Json (List FeedbackItem) :=
  {
    encode := fun items => .arr (items.map FeedbackItem.toJson)
    decode := fun value => (Json.array FeedbackItem.codec).decode (coerceFeedback value)
    decode_encode := by
      intro items
      rw [coerceFeedback_toJson]
      exact (Json.array FeedbackItem.codec).decode_encode items
  }

namespace RoleReview

def codec : Codec Json RoleReview :=
  Codec.retract
    (Json.object <| Fields.closed <|
      .cons "role" none ReviewRole.codec <|
      .cons "score" none (Json.nat.subtype fun score => score ≤ 100) <|
      .cons "summary" none (Json.lengthIn 2000) <|
      .cons "strengths" (some []) (Json.array Json.text) <|
      .cons "feedback" (some []) feedbackCodec .nil)
    (fun review =>
      (review.role, ⟨review.score, review.score_le⟩, ⟨review.summary, review.summary_length⟩,
        review.strengths, review.feedback, ()))
    (fun (role, score, summary, strengths, feedback, _) => some {
      role
      score
      summary
      strengths
      feedback
      score_le := score.property
      summary_length := summary.property
    })
    fun _ => rfl

end RoleReview

namespace EvaluationResult

theorem validate?_self (evaluation : EvaluationResult) :
    validate? evaluation.tech evaluation.ux evaluation.biz evaluation.overallScore
      evaluation.combinedFeedback = some evaluation := by
  unfold validate?
  rw [dif_pos evaluation.overall_range, dif_pos evaluation.roles, dif_pos evaluation.overall_eq]

def codec : Codec Json EvaluationResult :=
  Codec.retract
    (Json.object <| Fields.closed <|
      .cons "tech" none RoleReview.codec <|
      .cons "ux" none RoleReview.codec <|
      .cons "biz" none RoleReview.codec <|
      .cons "overall_score" none Json.number <|
      .cons "combined_feedback" (some []) feedbackCodec .nil)
    (fun evaluation =>
      (evaluation.tech, evaluation.ux, evaluation.biz, evaluation.overallScore,
        evaluation.combinedFeedback, ()))
    (fun (tech, ux, biz, overallScore, combinedFeedback, _) =>
      validate? tech ux biz overallScore combinedFeedback)
    validate?_self

end EvaluationResult

namespace RevisionItem

-- `dict.fromkeys` keeps the first of several equal roles.
def distinct (roles : List RevisionSource) : List RevisionSource :=
  roles.reverse.dedup.reverse

-- `normalize_source_roles`
def normalize (sourceRole : RevisionSource) (sourceRoles : List RevisionSource) :
    Option { roles : List RevisionSource // sourceRole ∈ roles ∧ roles.Nodup } :=
  let roles := if sourceRoles = [] then [sourceRole] else sourceRoles
  if h : sourceRole ∈ distinct roles then
    some ⟨distinct roles, h, List.nodup_reverse.mpr (List.nodup_dedup _)⟩
  else
    none

theorem normalize_self (item : RevisionItem) :
    normalize item.sourceRole item.sourceRoles
      =
    some ⟨item.sourceRoles, item.source_mem, item.sources_nodup⟩ := by
  have hroles : (if item.sourceRoles = [] then [item.sourceRole] else item.sourceRoles)
      = item.sourceRoles := if_neg (List.ne_nil_of_mem item.source_mem)
  have hdistinct : distinct item.sourceRoles = item.sourceRoles := by
    unfold distinct
    rw [List.dedup_eq_self.mpr (List.nodup_reverse.mpr item.sources_nodup), List.reverse_reverse]
  have hmem := item.source_mem
  rw [← hdistinct] at hmem
  unfold normalize
  simp only [hroles, hdistinct, dif_pos item.source_mem]

def codec : Codec Json RevisionItem :=
  Codec.retract
    (Json.object <| Fields.closed <|
      .cons "source_role" none RevisionSource.codec <|
      .cons "source_roles" (some []) (Json.array RevisionSource.codec) <|
      .cons "issue" none (Json.lengthIn 2000) <|
      .cons "required_change" none (Json.lengthIn 4000) <|
      .cons "target_section" none (Json.lengthIn 500) <|
      .cons "priority" none RevisionPriority.codec .nil)
    (fun item =>
      (item.sourceRole, item.sourceRoles, ⟨item.issue, item.issue_length⟩,
        ⟨item.requiredChange, item.requiredChange_length⟩,
        ⟨item.targetSection, item.targetSection_length⟩, item.priority, ()))
    (fun (sourceRole, sourceRoles, issue, requiredChange, targetSection, priority, _) =>
      (normalize sourceRole sourceRoles).map fun ⟨roles, hroles⟩ => {
        sourceRole
        sourceRoles := roles
        issue
        requiredChange
        targetSection
        priority
        source_mem := hroles.1
        sources_nodup := hroles.2
        issue_length := issue.property
        requiredChange_length := requiredChange.property
        targetSection_length := targetSection.property
      })
    fun item => by
      dsimp only
      rw [normalize_self]
      rfl

end RevisionItem

namespace RevisionPlan

def codec : Codec Json RevisionPlan :=
  Codec.retract
    (Json.object <| Fields.closed <|
      .cons "iteration" none (Json.range 1 5) <|
      .cons "objective" none (Json.lengthIn 2000) <|
      .cons "items" (some []) (Json.array RevisionItem.codec) <|
      .cons "user_override" (some none) (Json.nullable Json.text) .nil)
    (fun plan =>
      (⟨plan.iteration, plan.iteration_range⟩, ⟨plan.objective, plan.objective_length⟩, plan.items,
        plan.userOverride, ()))
    (fun (iteration, objective, items, userOverride, _) =>
      if h : ∀ s ∈ userOverride, s.length ≤ 2000 then
        some {
          iteration
          objective
          items
          userOverride
          iteration_range := iteration.property
          objective_length := objective.property
          override_length := h
        }
      else
        none)
    fun plan => dif_pos plan.override_length

end RevisionPlan

namespace TokenUsage

def codec : Codec Json TokenUsage :=
  Codec.retract
    (Json.object <| Fields.closed <|
      .cons "input_tokens" (some 0) Json.nat <|
      .cons "output_tokens" (some 0) Json.nat <|
      .cons "total_tokens" (some 0) Json.nat .nil)
    (fun usage => (usage.inputTokens, usage.outputTokens, usage.totalTokens, ()))
    (fun (inputTokens, outputTokens, totalTokens, _) =>
      if h : totalTokens = inputTokens + outputTokens then
        some {
          inputTokens
          outputTokens
          totalTokens
          total_eq := h
        }
      else
        none)
    fun usage => dif_pos usage.total_eq

end TokenUsage

namespace RunError

def Valid (error : RunError) : Prop :=
  LengthIn error.code 100 ∧ LengthIn error.message 2000

instance (error : RunError) : Decidable error.Valid :=
  inferInstanceAs (Decidable (_ ∧ _))

def codec : Codec Json RunError :=
  Codec.retract
    (Json.object <| Fields.closed <|
      .cons "code" none Json.text <|
      .cons "message" none Json.text <|
      .cons "retryable" (some false) Json.flag .nil)
    (fun error => (error.code, error.message, error.retryable, ()))
    (fun (code, message, retryable, _) => some {
      code
      message
      retryable
    })
    fun _ => rfl

end RunError

namespace NodeTiming

theorem validate?_self (timing : NodeTiming) :
    validate? timing.node timing.version timing.attempt timing.seconds timing.succeeded
      timing.inputTokens timing.outputTokens = some timing :=
  dif_pos ⟨timing.version_range, timing.attempt_pos, timing.seconds_nonneg⟩

-- No timing is stored for anything but a node.
def codec : Codec Json NodeTiming :=
  Codec.retract
    (Json.object <| Fields.closed <|
      .cons "node" none Node.codec <|
      .cons "version" none Json.nat <|
      .cons "attempt" (some 1) Json.nat <|
      .cons "seconds" none Json.number <|
      .cons "succeeded" (some true) Json.flag <|
      .cons "input_tokens" (some 0) Json.nat <|
      .cons "output_tokens" (some 0) Json.nat .nil)
    (fun timing =>
      (timing.node, timing.version, timing.attempt, timing.seconds, timing.succeeded,
        timing.inputTokens, timing.outputTokens, ()))
    (fun (node, version, attempt, seconds, succeeded, inputTokens, outputTokens, _) =>
      validate? node version attempt seconds succeeded inputTokens outputTokens)
    validate?_self

end NodeTiming

namespace PRDVersion

def codec (datetime : Codec String Timestamp) : Codec Json PRDVersion :=
  Codec.retract
    (Json.object <| Fields.closed <|
      .cons "version" none (Json.range 1 5) <|
      .cons "content" none Json.text <|
      .cons "created_at" none (Json.named datetime) <|
      .cons "evaluation" (some none) (Json.nullable EvaluationResult.codec) <|
      .cons "revision_plan" (some none) (Json.nullable RevisionPlan.codec) <|
      .cons "token_usage" (some .empty) TokenUsage.codec .nil)
    (fun version =>
      (⟨version.version, version.version_range⟩, version.content, version.createdAt,
        version.evaluation, version.revisionPlan, version.tokenUsage, ()))
    (fun (version, content, createdAt, evaluation, revisionPlan, tokenUsage, _) => some {
      version
      content
      createdAt
      evaluation
      revisionPlan
      tokenUsage
      version_range := version.property
    })
    fun _ => rfl

end PRDVersion

namespace RunSnapshot

/--
The validators of `RunSnapshot` for the fields that are assigned to without validation. Those of the
other models in it are part of their types.
-/
structure Valid (s : RunSnapshot) : Prop where
  iteration : 1 ≤ s.currentIteration ∧ s.currentIteration ≤ 5
  budget : 1 ≤ s.maxIterations ∧ s.maxIterations ≤ 5
  threshold : 50 ≤ s.qualityThreshold ∧ s.qualityThreshold ≤ 100
  attempt : 1 ≤ s.currentPrdAttempt
  bestVersion : ∀ version ∈ s.bestVersion, 1 ≤ version ∧ version ≤ 5
  bestScore : ∀ score ∈ s.bestScore, 0 ≤ score ∧ score ≤ 100
  cost : ∀ cost ∈ s.estimatedCostUsd, 0 ≤ cost
  elapsed : 0 ≤ s.elapsedSeconds
  error : ∀ error ∈ s.error, error.Valid
  within : s.currentIteration ≤ s.maxIterations

instance (s : RunSnapshot) : Decidable s.Valid :=
  decidable_of_iff
    ((1 ≤ s.currentIteration ∧ s.currentIteration ≤ 5) ∧ (1 ≤ s.maxIterations ∧ s.maxIterations ≤ 5)
      ∧ (50 ≤ s.qualityThreshold ∧ s.qualityThreshold ≤ 100) ∧ 1 ≤ s.currentPrdAttempt
      ∧ (∀ version ∈ s.bestVersion, 1 ≤ version ∧ version ≤ 5)
      ∧ (∀ score ∈ s.bestScore, 0 ≤ score ∧ score ≤ 100) ∧ (∀ cost ∈ s.estimatedCostUsd, 0 ≤ cost)
      ∧ 0 ≤ s.elapsedSeconds ∧ (∀ error ∈ s.error, error.Valid)
      ∧ s.currentIteration ≤ s.maxIterations)
    ⟨fun ⟨h1, h2, h3, h4, h5, h6, h7, h8, h9, h10⟩ => ⟨h1, h2, h3, h4, h5, h6, h7, h8, h9, h10⟩,
      fun h => ⟨h.iteration, h.budget, h.threshold, h.attempt, h.bestVersion, h.bestScore, h.cost,
        h.elapsed, h.error, h.within⟩⟩

-- The fields of a row, before the validators.
def fields (datetime : Codec String Timestamp) : Codec Json RunSnapshot :=
  Codec.retract
    (Json.object <| Fields.closed <|
      .cons "provider_id" (some none) (Json.nullable Json.text) <|
      .cons "provider_display_name" (some none) (Json.nullable Json.text) <|
      .cons "model_id" (some none) (Json.nullable Json.text) <|
      .cons "model_display_name" (some none) (Json.nullable Json.text) <|
      .cons "run_id" none Json.text <|
      .cons "user_idea" none Json.text <|
      .cons "target_audience" (some none) (Json.nullable Json.text) <|
      .cons "user_constraints" (some none) (Json.nullable Json.text) <|
      .cons "output_language" (some "en") Json.text <|
      .cons "current_iteration" (some 1) Json.nat <|
      .cons "max_iterations" (some 3) Json.nat <|
      .cons "quality_threshold" (some 85) Json.number <|
      .cons "status" (some .queued) RunStatus.codec <|
      .cons "active_node" (some none) (Json.nullable Node.codec) <|
      .cons "versions" (some []) (Json.array (PRDVersion.codec datetime)) <|
      .cons "current_prd" (some "") Json.text <|
      .cons "current_prd_attempt" (some 1) Json.nat <|
      .cons "latest_evaluation" (some none) (Json.nullable EvaluationResult.codec) <|
      .cons "best_version" (some none) (Json.nullable Json.nat) <|
      .cons "best_score" (some none) (Json.nullable Json.number) <|
      .cons "reviews" (some fun _ => none)
        (Json.object (.dict ReviewRole.all ReviewRole.value ReviewRole.mem_all (by decide)
          RoleReview.codec)) <|
      .cons "pending_revision_plan" (some none) (Json.nullable RevisionPlan.codec) <|
      .cons "pending_user_override" (some none) (Json.nullable Json.text) <|
      .cons "node_statuses" (some fun _ => none)
        (Json.object (.dict Node.all Node.value Node.mem_all (by decide) NodeStatus.codec)) <|
      .cons "total_tokens" (some .empty) TokenUsage.codec <|
      .cons "node_tokens" (some fun _ => none)
        (Json.object (.dict Node.all Node.value Node.mem_all (by decide) TokenUsage.codec)) <|
      .cons "node_timings" (some []) (Json.array NodeTiming.codec) <|
      .cons "estimated_cost_usd" (some none) (Json.nullable Json.number) <|
      .cons "cost_available" (some false) Json.flag <|
      .cons "is_mock" (some true) Json.flag <|
      .cons "elapsed_seconds" (some 0) Json.number <|
      .cons "created_at" none (Json.named datetime) <|
      .cons "updated_at" none (Json.named datetime) <|
      .cons "started_at" (some none) (Json.nullable (Json.named datetime)) <|
      .cons "completed_at" (some none) (Json.nullable (Json.named datetime)) <|
      .cons "error" (some none) (Json.nullable RunError.codec) <|
      .cons "latest_event_sequence" (some 0) Json.nat .nil)
    (fun s =>
      (s.providerId, s.providerDisplayName, s.modelId, s.modelDisplayName, s.runId, s.userIdea,
        s.targetAudience, s.userConstraints, s.outputLanguage,
        s.currentIteration, s.maxIterations, s.qualityThreshold, s.status, s.activeNode, s.versions,
        s.currentPrd, s.currentPrdAttempt, s.latestEvaluation, s.bestVersion, s.bestScore, s.reviews,
        s.pendingRevisionPlan, s.pendingUserOverride, fun node => some (s.nodeStatuses node),
        s.totalTokens, s.nodeTokens, s.nodeTimings, s.estimatedCostUsd, s.costAvailable, s.isMock,
        s.elapsedSeconds, s.createdAt, s.updatedAt, s.startedAt, s.completedAt, s.error,
        s.latestEventSequence, ()))
    (fun (providerId, providerDisplayName, modelId, modelDisplayName, runId, userIdea,
        targetAudience, userConstraints, outputLanguage, currentIteration,
        maxIterations, qualityThreshold, status, activeNode, versions, currentPrd, currentPrdAttempt,
        latestEvaluation, bestVersion, bestScore, reviews, pendingRevisionPlan, pendingUserOverride,
        nodeStatuses, totalTokens, nodeTokens, nodeTimings, estimatedCostUsd, costAvailable, isMock,
        elapsedSeconds, createdAt, updatedAt, startedAt, completedAt, error, latestEventSequence,
        _) => some {
      providerId
      providerDisplayName
      modelId
      modelDisplayName
      runId
      userIdea
      targetAudience
      userConstraints
      outputLanguage
      currentIteration
      maxIterations
      qualityThreshold
      status
      activeNode
      versions
      currentPrd
      currentPrdAttempt
      latestEvaluation
      bestVersion
      bestScore
      reviews
      pendingRevisionPlan
      pendingUserOverride
      -- No row is without the status of a node.
      nodeStatuses := fun node => (nodeStatuses node).getD .pending
      totalTokens
      nodeTokens
      nodeTimings
      estimatedCostUsd
      costAvailable
      isMock
      elapsedSeconds
      createdAt
      updatedAt
      startedAt
      completedAt
      error
      latestEventSequence
    })
    fun _ => rfl

-- `model_dump_json`
def dumpJson (datetime : Codec String Timestamp) (s : RunSnapshot) : Json :=
  (fields datetime).encode s

-- `model_validate_json`, `none` where it raises
def validateJson? (datetime : Codec String Timestamp) (value : Json) : Option RunSnapshot :=
  ((fields datetime).decode value).filter fun s => s.Valid

theorem validateJson?_dumpJson {datetime : Codec String Timestamp} {s : RunSnapshot} (h : s.Valid) :
    validateJson? datetime (dumpJson datetime s) = some s := by
  unfold validateJson? dumpJson
  rw [(fields datetime).decode_encode, Option.filter_some, if_pos (decide_eq_true h)]

end RunSnapshot

end Models

end AgenticPrd
