import AgenticPrd.Backend.Schemas
import AgenticPrd.Backend.StateMachine
import AgenticPrd.Lib.Record
import Mathlib.Data.List.DropRight

/-!
What the client reads off the wire (`types.ts`, `contracts.ts`, `errorMessages.ts`). Numbers are
JSON numbers. A field that the client checks before use, or that a server may leave out, is a raw
value, `null` where it is absent.
-/

namespace AgenticPrd

namespace Client

def runStatuses : List RunStatus :=
  [
    .queued,
    .generating,
    .reviewing,
    .aggregating,
    .optimizing,
    .pauseRequested,
    .paused,
    .cancelRequested,
    .completed,
    .maxIterationsReached,
    .cancelled,
    .failed
  ]

def runEventTypes : List RunEventType :=
  [
    .runStarted,
    .statusChanged,
    .nodeStarted,
    .prdDelta,
    .prdStreamReset,
    .prdGenerated,
    .reviewCompleted,
    .scoresUpdated,
    .revisionPlanned,
    .pauseRequested,
    .runPaused,
    .runResumed,
    .telemetryUpdated,
    .runCompleted,
    .maxIterationsReached,
    .runCancelled,
    .runFailed
  ]

def feedbackSeverities : List FeedbackSeverity :=
  [.mustFix, .shouldFix, .optional]

def reviewRoles : List ReviewRole :=
  [.tech, .ux, .biz]

def runStatus? (text : String) : Option RunStatus :=
  runStatuses.find? fun status => status.value = text

def runEventType? (text : String) : Option RunEventType :=
  runEventTypes.find? fun event => event.value = text

def feedbackSeverity? (text : String) : Option FeedbackSeverity :=
  feedbackSeverities.find? fun severity => severity.value = text

def reviewRole? (text : String) : Option ReviewRole :=
  reviewRoles.find? fun role => role.value = text

/--
The status of a view. The one that an event carries is a string that nothing checks.
-/
inductive Status where
  | run (status : RunStatus)
  | other (text : String)
  deriving DecidableEq

namespace Status

def ofString (text : String) : Status :=
  match runStatus? text with
  | some status => .run status
  | none => .other text

-- `isTerminalRunStatus`
def isTerminal : Status → Bool
  | run status => status.isTerminal
  | other _ => false

end Status

namespace Value

def field (value : Json) (key : String) : Json :=
  match value with
  | .obj fields => (Record.get? fields key).getD .null
  | _ => .null

def items : Json → List Json
  | .arr items => items
  | _ => []

def string? : Json → Option String
  | .str s => some s
  | _ => none

def number? : Json → Option ℚ
  | .num q => some q
  | _ => none

def bool? : Json → Option Bool
  | .bool b => some b
  | _ => none

-- `Boolean(value)`
def truthy : Json → Bool
  | .null => false
  | .bool b => b
  | .num q => q ≠ 0
  | .str s => s ≠ ""
  | .arr _ => true
  | .obj _ => true

-- `typeof value === "number" && Number.isInteger(value) && value >= 1`
def positiveInteger? (value : Json) : Option ℚ :=
  (number? value).filter fun q => q.den = 1 ∧ 1 ≤ q

end Value

-- `String.prototype.trim`
def isTrimmed (c : Char) : Bool :=
  let n := c.toNat
  (9 ≤ n && n ≤ 13) || n == 32 || n == 160 || n == 5760 || (8192 ≤ n && n ≤ 8202) || n == 8232
    || n == 8233 || n == 8239 || n == 8287 || n == 12288 || n == 65279

def trim (text : String) : String :=
  String.ofList ((text.toList.dropWhile isTrimmed).rdropWhile isTrimmed)

structure FeedbackItem where
  severity : FeedbackSeverity
  issue : String
  recommendation : String
  deriving DecidableEq

def normalizeFeedbackItem (value : Json) : Option FeedbackItem :=
  match value with
  | .str s =>
    let text := trim s
    if text = "" then
      none
    else
      some { severity := .shouldFix, issue := text, recommendation := text }
  | .obj _ =>
    let issue := ((Value.string? (Value.field value "issue")).map trim).getD ""
    let recommendation := ((Value.string? (Value.field value "recommendation")).map trim).getD ""
    if issue = "" ∧ recommendation = "" then
      none
    else
      some {
        severity :=
          ((Value.string? (Value.field value "severity")).bind feedbackSeverity?).getD .shouldFix
        issue := if issue = "" then recommendation else issue
        recommendation := if recommendation = "" then issue else recommendation
      }
  | _ => none

def normalizeFeedback (value : Json) : List FeedbackItem :=
  (Value.items value).filterMap normalizeFeedbackItem

/--
A reviewer payload whose feedback list has been normalized.
-/
structure Review where
  fields : Payload
  feedback : List FeedbackItem

def normalizeReview (fields : Payload) : Review :=
  {
    fields
    feedback := normalizeFeedback (Value.field (.obj fields) "feedback")
  }

structure RoleReview where
  fields : Payload
  score : ℚ
  score_eq : Record.get? fields "score" = some (.num score)

structure EvaluationResult where
  tech : RoleReview
  ux : RoleReview
  biz : RoleReview
  overallScore : ℚ
  combinedFeedback : List Json

structure PRDVersion where
  version : ℚ
  content : String
  evaluation : Option EvaluationResult
  revisionPlan : Json

structure RunSnapshot where
  runId : RunId
  currentIteration : ℚ
  maxIterations : ℚ
  qualityThreshold : ℚ
  status : RunStatus
  activeNode : Option String
  versions : List PRDVersion
  currentPrd : String
  currentPrdAttempt : Json
  latestEvaluation : Option EvaluationResult
  bestVersion : Json
  bestScore : Json
  reviews : ReviewRole → Option Payload
  pendingRevisionPlan : Json
  nodeStatuses : List (String × NodeStatus)
  totalTokens : Json
  estimatedCostUsd : Option ℚ
  costAvailable : Bool
  isMock : Bool
  elapsedSeconds : ℚ
  error : Option RunError
  latestEventSequence : ℚ

structure RunEvent where
  runId : RunId
  sequence : ℚ
  event : RunEventType
  timestamp : String
  iteration : ℚ
  payload : Payload

def parseRunEvent (value : Json) : Option RunEvent := do
  let runId ← Value.string? (Value.field value "run_id")
  let sequence ← Value.number? (Value.field value "sequence")
  let event ← (Value.string? (Value.field value "event")).bind runEventType?
  let timestamp ← Value.string? (Value.field value "timestamp")
  let iteration ← Value.number? (Value.field value "iteration")
  match Value.field value "payload" with
  | .obj payload => return { runId, sequence, event, timestamp, iteration, payload }
  | _ => none

section ErrorMessages

def errorMessages : List (String × String) :=
  [
    ("NETWORK_ERROR", "无法连接后端服务，请检查服务是否已启动。"),
    ("INVALID_RESPONSE", "服务返回了无法识别的数据，请稍后重试。"),
    ("HTTP_ERROR", "请求失败，请稍后重试。"),
    ("REQUEST_VALIDATION_FAILED", "提交的数据不符合要求，请检查后重试。"),
    ("INVALID_PROVIDER_SELECTION", "所选 Provider 或 Model 已不可用，请重新选择后重试。"),
    ("RUN_NOT_FOUND", "找不到该任务，它可能已经过期或被清理。"),
    ("RUN_CAPACITY_REACHED", "当前运行中的任务已达上限，请稍后再试。"),
    ("STORE_CAPACITY_REACHED", "任务存储空间已满，请稍后再试。"),
    ("EVENTS_EXPIRED", "部分历史事件已经过期，请重新打开任务。"),
    ("PROVIDER_TEMPORARY_ERROR", "模型服务暂时不可用，请稍后重试。"),
    ("PROVIDER_AUTHENTICATION_FAILED", "模型服务认证失败，请检查 API Key。"),
    ("PROVIDER_MODEL_INVALID", "当前模型名称无效，请检查 Provider 配置。"),
    ("PROVIDER_INSUFFICIENT_BALANCE", "模型服务账户余额或配额不足，请充值后重试。"),
    ("PROVIDER_FORBIDDEN", "模型服务拒绝访问当前模型，请检查账号权限。"),
    ("PROVIDER_REQUEST_REJECTED", "模型服务拒绝了本次请求内容，请调整输入后重试。"),
    (
      "PROVIDER_OUTPUT_TRUNCATED",
      "PRD 输出达到长度限制，系统重试后仍未能完整生成。可以精简需求描述或降低目标篇幅后重新运行。"
    ),
    (
      "PROVIDER_OUTPUT_UNFINISHED",
      "模型提前结束了 PRD 输出，系统重试后仍未得到完整文档，请重新运行。"
    ),
    ("PROVIDER_OUTPUT_INTERRUPTED", "模型服务在生成过程中暂时中断，请稍后重新生成。"),
    (
      "PROVIDER_OUTPUT_INCOMPLETE",
      "模型生成的文档不完整（可能被输出长度限制截断），请重新运行。"
    ),
    (
      "PROVIDER_CONTENT_FILTERED",
      "模型服务的内容安全策略拦截了本次生成，请调整需求描述后重试。"
    ),
    ("PROVIDER_ERROR", "模型服务调用失败，请稍后重试。"),
    ("PROVIDER_UNAVAILABLE", "模型服务不可用，请检查 Provider 配置。"),
    ("RUN_TIMEOUT", "任务运行超时，请缩小需求范围后重试。"),
    ("STRUCTURED_OUTPUT_INVALID", "模型返回的数据格式无效，请重新运行。"),
    ("WORKFLOW_FAILED", "工作流未能完成，请重新运行。"),
    ("APP_SHUTTING_DOWN", "服务正在关闭，请稍后重试。"),
    ("RUN_TERMINAL", "该任务已经结束，无法继续执行此操作。"),
    ("RUN_NOT_PAUSABLE", "当前阶段暂时无法暂停。"),
    ("RUN_NOT_PAUSED", "该任务当前并未处于暂停状态。"),
    ("INTERNAL_ERROR", "服务发生内部错误，请稍后重试。")
  ]

def localizedErrorMessage (code : Option String) : String :=
  (code.bind (Record.get? errorMessages)).getD "操作失败，请稍后重试。"

end ErrorMessages

@[simp]
theorem runStatus?_value (status : RunStatus) : runStatus? status.value = some status := by
  cases status <;> decide

@[simp]
theorem Status.ofString_value (status : RunStatus) : ofString status.value = .run status := by
  simp [ofString]

end Client

end AgenticPrd
