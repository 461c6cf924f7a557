import AgenticPrd.Client.RunReducer
import Mathlib.Logic.Function.Basic

/-!
What a view shows of a run: its status, the documents that are complete, the reviews and the scores
of its versions, the best version and the outcome. The counts of findings are left aside.
-/

namespace AgenticPrd

namespace Client

@[ext]
structure Shown where
  status : Option Status
  completed : ℚ → Option String
  reviews : ℚ → Option Reviews
  scores : ℚ → Option VersionScore
  best : Option ℚ × Option ℚ
  outcome : Option RunOutcome

def VersionScore.uncounted (score : VersionScore) : VersionScore :=
  { score with severity := countSeverities [] }

def RunOutcome.uncounted (outcome : RunOutcome) : RunOutcome :=
  { outcome with severity := countSeverities [] }

def completedContent (drafts : Drafts) (version : ℚ) : Option String :=
  ((Record.get? drafts version).filter VersionDraft.complete).map VersionDraft.content

def shown (view : RunViewState) : Shown :=
  {
    status := view.status
    completed := completedContent view.drafts
    reviews := Record.get? view.reviewsByVersion
    scores := fun version => (Record.get? view.scoresByVersion version).map VersionScore.uncounted
    best := (view.bestVersion, view.bestScore)
    outcome := view.outcome.map RunOutcome.uncounted
  }

variable {view : RunViewState} {event : RunEvent}

section Drafts

variable {drafts : Drafts} {version : ℚ} {draft : VersionDraft}

theorem completedContent_set_complete (h : draft.complete = true) :
    completedContent (Record.set drafts version draft)
      =
    Function.update (completedContent drafts) version (some draft.content) := by
  funext v
  unfold completedContent
  rw [Record.get?_set, Function.update_apply]
  split
  . simp [Option.filter, h]
  . rfl

-- A draft in progress takes no place of a document that is complete.
theorem completedContent_set (h : draft.complete = false)
    (hnone : completedContent drafts version = none) :
    completedContent (Record.set drafts version draft) = completedContent drafts := by
  funext v
  unfold completedContent at hnone ⊢
  rw [Record.get?_set]
  split
  . next heq =>
    rw [heq, hnone]
    simp [Option.filter, h]
  . rfl

end Drafts

section Events

theorem shown_quiet
    (h : event.event ∈ [RunEventType.runStarted, .nodeStarted, .revisionPlanned, .telemetryUpdated]) :
    shown (applyEvent view event) = shown view := by
  simp only [List.mem_cons, List.not_mem_nil, or_false] at h
  rcases h with h | h | h | h
  . unfold applyEvent
    rw [h]
    rfl
  . unfold applyEvent
    rw [h]
    dsimp only
    split <;> rfl
  . unfold applyEvent applyPlan
    rw [h]
    dsimp only
    split <;> rfl
  . unfold applyEvent
    rw [h]
    rfl

theorem shown_streamed (h : event.event = .prdStreamReset ∨ event.event = .prdDelta)
    (hnone : (shown view).completed (eventVersion event) = none) :
    shown (applyEvent view event) = shown view := by
  have hdrafts : completedContent (applyEvent view event).drafts = completedContent view.drafts := by
    rw [applyEvent_drafts]
    unfold eventDrafts
    rcases h with h | h
    . rw [h]
      dsimp only
      unfold applyStreamReset
      dsimp only
      split
      . split
        . rfl
        . exact completedContent_set rfl hnone
      . exact completedContent_set rfl hnone
    . rw [h]
      dsimp only
      rw [applyDelta_eq]
      split
      . exact completedContent_set rfl hnone
      . rfl
  ext1
  all_goals try exact hdrafts
  all_goals
    unfold shown applyEvent
    rcases h with h | h
    . rw [h]
    . rw [h]
      dsimp only
      split <;> rfl

theorem shown_generated (h : event.event = .prdGenerated) :
    shown (applyEvent view event)
      =
    {
      shown view with
      completed := Function.update (shown view).completed (eventVersion event)
        (some ((stringPayload event.payload "content").getD ""))
    } := by
  have hdrafts := applyEvent_drafts view event
  unfold eventDrafts at hdrafts
  rw [h] at hdrafts
  ext1
  case completed =>
    unfold shown
    dsimp only
    rw [hdrafts]
    exact completedContent_set_complete rfl
  all_goals
    unfold shown applyEvent
    rw [h]

theorem shown_reviewed {role : ReviewRole} (h : event.event = .reviewCompleted)
    (hrole : (stringPayload event.payload "role").bind reviewRole? = some role) :
    shown (applyEvent view event)
      =
    {
      shown view with
      reviews := Function.update (shown view).reviews event.iteration
        (some (Function.update (((shown view).reviews event.iteration).getD fun _ => none) role
          (some (normalizeReview event.payload))))
    } := by
  unfold applyEvent applyReview
  rw [h, hrole]
  ext1
  case reviews =>
    funext version
    unfold shown
    dsimp only
    rw [Record.get?_set, Function.update_apply]
  all_goals rfl

theorem shown_scored {bestVersion bestScore : ℚ} (h : event.event = .scoresUpdated)
    (hversion : optionalNumberPayload event.payload "best_version" = some bestVersion)
    (hscore : optionalNumberPayload event.payload "best_score" = some bestScore) :
    shown (applyEvent view event)
      =
    {
      shown view with
      scores := Function.update (shown view).scores event.iteration (some {
        version := event.iteration
        tech := numberPayload event.payload "tech" 0
        ux := numberPayload event.payload "ux" 0
        biz := numberPayload event.payload "biz" 0
        overall := numberPayload event.payload "overall" 0
        severity := countSeverities []
      })
      best := (some bestVersion, some bestScore)
    } := by
  unfold applyEvent applyScores
  rw [h]
  dsimp only
  rw [hversion, hscore]
  ext1
  case scores =>
    funext version
    unfold shown
    dsimp only
    rw [Record.get?_set, Function.update_apply]
    split <;> rfl
  all_goals rfl

theorem shown_moved {status : RunStatus}
    (h : event.event = .statusChanged ∨ event.event = .pauseRequested)
    (hcurrent : stringPayload event.payload "current" = some status.value) :
    shown (applyEvent view event) = { shown view with status := some (.run status) } := by
  have hstatus : (statusPayload event.payload).filter (fun s => s ≠ .other "")
      = some (.run status) := by
    unfold statusPayload
    rw [hcurrent, Option.map_some, Status.ofString_value]
    rfl
  unfold applyEvent
  rcases h with h | h
  . rw [h]
    dsimp only
    rw [hstatus]
    rfl
  . rw [h]
    dsimp only
    rw [hstatus]
    rfl

-- The status that an event stands for by itself.
def impliedStatus : RunEventType → Option RunStatus
  | .runPaused => some .paused
  | .runResumed => some .optimizing
  | .runCancelled => some .cancelled
  | .runFailed => some .failed
  | _ => none

theorem shown_implied {status : RunStatus} (h : impliedStatus event.event = some status) :
    shown (applyEvent view event) = { shown view with status := some (.run status) } := by
  unfold applyEvent
  generalize event.event = type at h
  cases type <;> simp only [impliedStatus, Option.some.injEq, reduceCtorEq] at h
  all_goals
    subst h
    rfl

-- What the two outcomes of a run make of the status and of the gate.
def Concludes (type : RunEventType) (status : RunStatus) (gatePassed : Bool) : Prop :=
  (type = .runCompleted ∧ status = .completed ∧ gatePassed = true)
    ∨
  (type = .maxIterationsReached ∧ status = .maxIterationsReached ∧ gatePassed = false)

theorem shown_concluded {status : RunStatus} {gatePassed : Bool} {bestVersion bestScore : ℚ}
    (h : Concludes event.event status gatePassed)
    (hversion : optionalNumberPayload event.payload "best_version" = some bestVersion)
    (hscore : optionalNumberPayload event.payload "best_score" = some bestScore) :
    shown (applyEvent view event)
      =
    {
      shown view with
      status := some (.run status)
      best := (some bestVersion, some bestScore)
      outcome := some
        (outcomeFromPayload event.payload event.iteration gatePassed none).uncounted
    } := by
  unfold applyEvent applyOutcome
  rcases h with ⟨h, rfl, rfl⟩ | ⟨h, rfl, rfl⟩
  . rw [h]
    unfold shown outcomeFromPayload
    simp only [hversion, hscore]
    rfl
  . rw [h]
    unfold shown outcomeFromPayload
    simp only [hversion, hscore]
    rfl

end Events

end Client

end AgenticPrd
