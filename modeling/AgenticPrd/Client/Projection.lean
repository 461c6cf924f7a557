import AgenticPrd.Client.RunReducer

/-!
What one event does to each part of a view, one equation for a part.
-/

namespace AgenticPrd

namespace Client

variable (state : RunViewState) (event : RunEvent)

def eventReviews : List (ℚ × Reviews) :=
  match event.event with
  | .reviewCompleted =>
    match (stringPayload event.payload "role").bind reviewRole? with
    | none => state.reviewsByVersion
    | some role =>
      let reviews : Reviews :=
        (Record.get? state.reviewsByVersion event.iteration).getD fun _ => none
      Record.set state.reviewsByVersion event.iteration
        (Function.update reviews role (some (normalizeReview event.payload)))
  | _ => state.reviewsByVersion

theorem applyEvent_reviewsByVersion :
    (applyEvent state event).reviewsByVersion = eventReviews state event := by
  unfold applyEvent eventReviews
  dsimp only
  cases event.event with
  | prdDelta =>
    dsimp only
    cases applyDelta state (numberPayload event.payload "version" event.iteration) event.payload <;>
      rfl
  | statusChanged | pauseRequested | nodeStarted =>
    dsimp only
    split <;> rfl
  | reviewCompleted =>
    dsimp only
    unfold applyReview
    cases (stringPayload event.payload "role").bind reviewRole? <;> rfl
  | revisionPlanned =>
    dsimp only
    unfold applyPlan
    dsimp only
    split <;> rfl
  | _ => rfl

theorem applyEvent_latestSequence : (applyEvent state event).latestSequence = event.sequence := by
  unfold applyEvent
  dsimp only
  cases event.event with
  | prdDelta =>
    dsimp only
    cases applyDelta state (numberPayload event.payload "version" event.iteration) event.payload <;>
      rfl
  | statusChanged | pauseRequested | nodeStarted =>
    dsimp only
    split <;> rfl
  | reviewCompleted =>
    dsimp only
    unfold applyReview
    split <;> rfl
  | revisionPlanned =>
    dsimp only
    unfold applyPlan
    dsimp only
    split <;> rfl
  | _ => rfl

-- The status that an event brings to the view.
def eventStatus (event : RunEvent) : Option Status :=
  match event.event with
  | .statusChanged | .pauseRequested =>
    (statusPayload event.payload).filter fun status => status ≠ .other ""
  | .runPaused => some (.run .paused)
  | .runResumed => some (.run .optimizing)
  | .runCompleted => some (.run .completed)
  | .maxIterationsReached => some (.run .maxIterationsReached)
  | .runCancelled => some (.run .cancelled)
  | .runFailed => some (.run .failed)
  | _ => none

theorem applyEvent_status :
    (applyEvent state event).status = (eventStatus event <|> state.status) := by
  unfold applyEvent eventStatus
  dsimp only
  cases event.event with
  | prdDelta =>
    dsimp only
    cases applyDelta state (numberPayload event.payload "version" event.iteration) event.payload <;>
      rfl
  | statusChanged | pauseRequested =>
    dsimp only
    split
    . next status hstatus =>
      rw [hstatus]
      rfl
    . next hstatus =>
      rw [hstatus]
      rfl
  | nodeStarted =>
    dsimp only
    split <;> rfl
  | reviewCompleted =>
    dsimp only
    unfold applyReview
    split <;> rfl
  | revisionPlanned =>
    dsimp only
    unfold applyPlan
    dsimp only
    split <;> rfl
  | _ => rfl

-- The version and the score that the event sends, or else the ones that the view comes to itself.
def eventBest : Option ℚ × Option ℚ :=
  let payload := event.payload
  let kept :=
    match event.event with
    | .scoresUpdated =>
      let overall := numberPayload payload "overall" 0
      if state.bestScore.all fun score => score < overall then
        (some event.iteration, some overall)
      else
        (state.bestVersion, state.bestScore)
    | _ => (state.bestVersion, state.bestScore)
  match event.event with
  | .scoresUpdated | .runCompleted | .maxIterationsReached =>
    (
      optionalNumberPayload payload "best_version" <|> kept.1,
      optionalNumberPayload payload "best_score" <|> kept.2
    )
  | _ => kept

theorem applyEvent_best :
    ((applyEvent state event).bestVersion, (applyEvent state event).bestScore)
      =
    eventBest state event := by
  unfold applyEvent eventBest
  dsimp only
  cases event.event with
  | prdDelta =>
    dsimp only
    cases applyDelta state (numberPayload event.payload "version" event.iteration) event.payload <;>
      rfl
  | statusChanged | pauseRequested | nodeStarted =>
    dsimp only
    split <;> rfl
  | reviewCompleted =>
    dsimp only
    unfold applyReview
    split <;> rfl
  | scoresUpdated =>
    dsimp only
    unfold applyScores
    dsimp only
    split <;> rfl
  | revisionPlanned =>
    dsimp only
    unfold applyPlan
    dsimp only
    split <;> rfl
  | _ => rfl

-- What a snapshot shows of the nodes.
def nodes (snapshot : RunSnapshot) : Option String × List (String × NodeStatus) :=
  (snapshot.activeNode, snapshot.nodeStatuses)

-- The node that an event tells of, with its new status.
def eventNode (event : RunEvent) : Option (String × NodeStatus) :=
  match event.event with
  | .nodeStarted =>
    ((stringPayload event.payload "node").filter fun node => node ≠ "").map
      fun node => (node, .running)
  | .prdGenerated => some ("generator", .succeeded)
  | .reviewCompleted =>
    ((stringPayload event.payload "role").bind reviewRole?).map
      fun role => (role.value ++ "_reviewer", .succeeded)
  | .scoresUpdated => some ("aggregator", .succeeded)
  | .revisionPlanned => some ("optimizer", .succeeded)
  | _ => none

theorem applyEvent_nodes :
    (applyEvent state event).snapshot.map nodes
      =
    match eventNode event with
    | none => state.snapshot.map nodes
    | some (node, status) => (withNodeStatus state.snapshot node status).map nodes := by
  unfold applyEvent eventNode
  dsimp only
  cases event.event with
  | prdDelta =>
    dsimp only
    cases applyDelta state (numberPayload event.payload "version" event.iteration) event.payload <;>
      rfl
  | statusChanged | pauseRequested =>
    dsimp only
    split <;> rfl
  | nodeStarted =>
    dsimp only
    cases (stringPayload event.payload "node").filter fun node => node ≠ "" <;> rfl
  | reviewCompleted =>
    dsimp only
    unfold applyReview
    cases (stringPayload event.payload "role").bind reviewRole? <;> rfl
  | revisionPlanned =>
    dsimp only
    unfold applyPlan
    dsimp only
    split <;> rfl
  | telemetryUpdated => cases hsnapshot : state.snapshot <;> simp [withTelemetry, nodes]
  | _ => rfl

def eventPlan : Json :=
  match event.event with
  | .revisionPlanned =>
    let plan := Value.field (.obj event.payload) "revision_plan"
    if Value.truthy plan then plan else .null
  | _ => state.pendingRevisionPlan

theorem applyEvent_pendingRevisionPlan :
    (applyEvent state event).pendingRevisionPlan = eventPlan state event := by
  unfold applyEvent eventPlan
  dsimp only
  cases event.event with
  | prdDelta =>
    dsimp only
    cases applyDelta state (numberPayload event.payload "version" event.iteration) event.payload <;>
      rfl
  | statusChanged | pauseRequested | nodeStarted =>
    dsimp only
    split <;> rfl
  | reviewCompleted =>
    dsimp only
    unfold applyReview
    split <;> rfl
  | revisionPlanned =>
    dsimp only
    unfold applyPlan
    dsimp only
    split <;> rfl
  | _ => rfl

theorem applyEvent_pendingRevisionPlan_other {state : RunViewState} {event : RunEvent}
    (h : event.event ≠ .revisionPlanned) :
    (applyEvent state event).pendingRevisionPlan = state.pendingRevisionPlan := by
  rw [applyEvent_pendingRevisionPlan]
  unfold eventPlan
  cases hevent : event.event with
  | revisionPlanned => contradiction
  | _ => rfl

-- What a snapshot has of the versions. No event adds to it.
def committed (snapshot : RunSnapshot) : List PRDVersion × ℚ :=
  (snapshot.versions, snapshot.currentIteration)

theorem withNodeStatus_committed (snapshot : Option RunSnapshot) (node : String)
    (status : NodeStatus) :
    (withNodeStatus snapshot node status).map committed = snapshot.map committed := by
  cases snapshot <;> rfl

theorem applyEvent_committed :
    (applyEvent state event).snapshot.map committed = state.snapshot.map committed := by
  have hmarked := withNodeStatus_committed state.snapshot
  unfold applyEvent
  dsimp only
  cases event.event with
  | prdDelta =>
    dsimp only
    cases applyDelta state (numberPayload event.payload "version" event.iteration) event.payload <;>
      rfl
  | statusChanged | pauseRequested =>
    dsimp only
    split <;> rfl
  | nodeStarted =>
    dsimp only
    split
    . exact hmarked _ _
    . rfl
  | reviewCompleted =>
    dsimp only
    unfold applyReview
    split
    . rfl
    . exact hmarked _ _
  | revisionPlanned =>
    dsimp only
    unfold applyPlan
    dsimp only
    split <;> exact hmarked _ _
  | prdGenerated | scoresUpdated => exact hmarked _ _
  | telemetryUpdated => cases hsnapshot : state.snapshot <;> simp [withTelemetry, committed]
  | _ => rfl

section Accepted

-- The events that a view applies one after the other, none of them dropped.
def Accepts : RunViewState → List RunEvent → Prop
  | _, [] => True
  | view, event :: events =>
    ¬Ignores view event ∧ Accepts (runReducer view (.eventReceived event)) events

instance Accepts.decidable : (view : RunViewState) → (events : List RunEvent) →
    Decidable (Accepts view events)
  | _, [] => .isTrue trivial
  | view, event :: events =>
    have := Accepts.decidable (runReducer view (.eventReceived event)) events
    inferInstanceAs (Decidable (_ ∧ _))

def receive (view : RunViewState) (events : List RunEvent) : RunViewState :=
  events.foldl (fun view event => runReducer view (.eventReceived event)) view

end Accepted

end Client

end AgenticPrd
