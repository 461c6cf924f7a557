import AgenticPrd.Client.Projection
import AgenticPrd.Client.UseAgentRun
import Mathlib.Tactic.Linarith

/-!
The reducer drops the events of a run that has ended on view. STATUS_UPDATED does not know of this
lock, and the response behind it does not say which events of the run it has seen.
-/

namespace AgenticPrd

namespace Client

open Transition

structure Frozen (state state' : RunViewState) : Prop where
  status : state'.status = state.status
  outcome : state'.outcome = state.outcome
  drafts : state'.drafts = state.drafts
  scores : state'.scoresByVersion = state.scoresByVersion

/--
The answer to a control request. Its status is the one that the run had once the event `asOf` was
committed, which the answer does not say.
-/
structure ControlResponse where
  status : RunStatus
  asOf : ℚ

inductive Arrival where
  | event (event : RunEvent)
  | response (response : ControlResponse)

/--
A view with the sequence as of which it shows the status of the run.
-/
structure Dated where
  view : RunViewState
  asOf : ℚ

namespace Dated

def receive (dated : Dated) : Arrival → Dated
  | .event event =>
    {
      view := runReducer dated.view (.eventReceived event)
      asOf :=
        if Ignores dated.view event ∨ eventStatus event = none then
          dated.asOf
        else
          event.sequence
    }
  | .response response =>
    {
      view := (controlActions (.ok response.status)).foldl runReducer dated.view
      asOf :=
        if dated.view.status = some (.run response.status) then
          max dated.asOf response.asOf
        else
          response.asOf
    }

def step (dated : Dated) (arrival : Arrival) : Option Dated :=
  some (dated.receive arrival)

-- The status on view is not older than that of an event that has been applied.
def UpToDate (dated : Dated) : Prop :=
  ∀ event ∈ dated.view.events, (eventStatus event).isSome = true → event.sequence ≤ dated.asOf

structure Valid (dated : Dated) : Prop where
  upToDate : dated.UpToDate
  received : ∀ event ∈ dated.view.events, event.sequence ≤ dated.view.latestSequence

-- A response with another status comes before any event that is newer than it.
def OnTime (dated : Dated) : Arrival → Prop
  | .event _ => True
  | .response response =>
    dated.view.status = some (.run response.status)
      ∨
    ∀ event ∈ dated.view.events, (eventStatus event).isSome = true →
      event.sequence ≤ response.asOf

instance (dated : Dated) : (arrival : Arrival) → Decidable (dated.OnTime arrival)
  | .event _ => .isTrue trivial
  | .response _ => inferInstanceAs (Decidable (_ ∨ ∀ event ∈ dated.view.events, _ → _))

end Dated

section Lock

variable {state state' state'' : RunViewState}

theorem Frozen.refl (state : RunViewState) : Frozen state state :=
  {
    status := rfl
    outcome := rfl
    drafts := rfl
    scores := rfl
  }

theorem Frozen.symm (h : Frozen state state') : Frozen state' state :=
  {
    status := h.status.symm
    outcome := h.outcome.symm
    drafts := h.drafts.symm
    scores := h.scores.symm
  }

theorem Frozen.trans (h : Frozen state state') (h' : Frozen state' state'') :
    Frozen state state'' :=
  {
    status := h'.status.trans h.status
    outcome := h'.outcome.trans h.outcome
    drafts := h'.drafts.trans h.drafts
    scores := h'.scores.trans h.scores
  }

theorem Frozen.locked (h : Frozen state state') (hlocked : Locked state) : Locked state' := by
  unfold Locked
  rw [h.status]
  exact hlocked

-- A locked view ignores every event, so that STATUS_UPDATED is the only action that may change it.
theorem frozen_step_iff {action : RunAction} (hlocked : Locked state)
    (hkeeps : action.keepsRun = true) :
    Frozen state (runReducer state action)
      ↔
    ∀ status, action = .statusUpdated status → state.status = some (.run status) := by
  cases action with
  | eventReceived event =>
    have hignores : Ignores state event := .inr (.inr hlocked)
    simp [runReducer, hignores, Frozen.refl]
  | statusUpdated status =>
    simp only [RunAction.statusUpdated.injEq, forall_eq']
    constructor
    . intro h
      exact h.status.symm
    . intro h
      constructor <;> simp [runReducer, h]
  | createStarted | runSelected | snapshotLoaded | reset => contradiction
  | _ =>
    simp only [reduceCtorEq, false_implies, implies_true, iff_true]
    constructor <;> rfl

theorem frozen_cons_iff {action : RunAction} {actions : List RunAction}
    (h : Frozen state (runReducer state action)) :
    (∀ before, before <+: action :: actions → Frozen state (before.foldl runReducer state))
      ↔
    ∀ before, before <+: actions →
      Frozen (runReducer state action) (before.foldl runReducer (runReducer state action)) := by
  constructor
  . intro hall before hprefix
    apply h.symm.trans
    exact hall (action :: before) (List.prefix_cons_inj action |>.mpr hprefix)
  . intro hall before hprefix
    cases before with
    | nil => exact Frozen.refl state
    | cons first before =>
      obtain ⟨rfl, hrest⟩ := List.cons_prefix_cons.mp hprefix
      exact h.trans (hall before hrest)

/--
A terminal view stays as it is under actions that keep the run on view, at every moment, exactly
when each STATUS_UPDATED among them carries its own status.
-/
theorem frozen_iff {actions : List RunAction} (hlocked : Locked state)
    (hkeeps : ∀ action ∈ actions, action.keepsRun = true) :
    (∀ before, before <+: actions → Frozen state (before.foldl runReducer state))
      ↔
    ∀ status, .statusUpdated status ∈ actions → state.status = some (.run status) := by
  induction actions generalizing state with
  | nil =>
    simp only [List.prefix_nil, forall_eq, List.not_mem_nil, false_implies, implies_true, iff_true]
    exact Frozen.refl state
  | cons action actions ih =>
    rw [List.forall_mem_cons] at hkeeps
    have hstep := frozen_step_iff hlocked hkeeps.1
    constructor
    . intro hall
      have hfirst : Frozen state (runReducer state action) :=
        hall [action] (List.prefix_append [action] actions)
      rw [frozen_cons_iff hfirst, ih (hfirst.locked hlocked) hkeeps.2] at hall
      intro status hmem
      cases List.mem_cons.mp hmem with
      | inl heq => exact hstep.mp hfirst status heq.symm
      | inr hrest =>
        rw [← hfirst.status]
        exact hall status hrest
    . intro hall
      have hfirst : Frozen state (runReducer state action) := by
        apply hstep.mpr
        intro status heq
        apply hall
        simp [heq]
      rw [frozen_cons_iff hfirst, ih (hfirst.locked hlocked) hkeeps.2]
      intro status hmem
      rw [hfirst.status]
      apply hall
      simp [hmem]

end Lock

namespace Dated

variable {dated : Dated}

theorem applyEvent_events (state : RunViewState) (event : RunEvent) :
    (applyEvent state event).events = state.events ++ [event]
      ∧
    (applyEvent state event).latestSequence = event.sequence := by
  unfold applyEvent applyReview applyPlan applyScores applyOutcome
  dsimp only
  split
  all_goals first
    | exact ⟨rfl, rfl⟩
    | split <;> exact ⟨rfl, rfl⟩

theorem Valid.event {event : RunEvent} (h : dated.Valid) :
    (dated.receive (.event event)).Valid := by
  by_cases hignores : Ignores dated.view event
  . have heq : dated.receive (.event event) = dated := by
      simp [receive, runReducer, hignores]
    rw [heq]
    exact h
  . have hview : (dated.receive (.event event)).view = applyEvent dated.view event := by
      simp [receive, runReducer, hignores]
    obtain ⟨hevents, hlatest⟩ := applyEvent_events dated.view event
    rw [← hview] at hevents hlatest
    have hlater : dated.view.latestSequence < event.sequence := by
      simp only [Ignores, not_or, not_le] at hignores
      exact hignores.2.1
    constructor
    . intro e he hcarries
      rw [hevents, List.mem_append, List.mem_singleton] at he
      have hasOf : (dated.receive (.event event)).asOf
          = if eventStatus event = none then dated.asOf else event.sequence := by
        simp [receive, hignores]
      rw [hasOf]
      cases he with
      | inl hold =>
        have hreceived := h.received e hold
        split
        . exact h.upToDate e hold hcarries
        . linarith
      | inr heq =>
        subst heq
        split
        . next hnone => simp [hnone] at hcarries
        . exact le_refl _
    . intro e he
      rw [hevents, List.mem_append, List.mem_singleton] at he
      rw [hlatest]
      cases he with
      | inl hold =>
        have := h.received e hold
        linarith
      | inr heq => rw [heq]

theorem Valid.response {response : ControlResponse} (h : dated.Valid)
    (hontime : dated.OnTime (.response response)) :
    (dated.receive (.response response)).Valid := by
  constructor
  . intro e he hcarries
    have hold := h.upToDate e he hcarries
    simp only [receive]
    split
    . exact le_max_of_le_left hold
    . next hstatus =>
      cases hontime with
      | inl heq => contradiction
      | inr htime => exact htime e he hcarries
  . exact h.received

theorem Valid.receive {arrival : Arrival} (h : dated.Valid) (hontime : dated.OnTime arrival) :
    (dated.receive arrival).Valid := by
  cases arrival with
  | event event => exact h.event
  | response response => exact h.response hontime

theorem onTime_of_upToDate {arrival : Arrival} (h : (dated.receive arrival).UpToDate) :
    dated.OnTime arrival := by
  cases arrival with
  | event event => trivial
  | response response =>
    simp only [OnTime]
    by_cases hstatus : dated.view.status = some (.run response.status)
    . exact .inl hstatus
    . right
      intro e he hcarries
      have := h e he hcarries
      simpa [receive, hstatus] using this

/--
The view is up to date after every arrival exactly when each response is on time.
-/
theorem upToDate_iff {arrivals : List Arrival} (h : dated.Valid) :
    (∀ before, before <+: arrivals → (before.foldl receive dated).UpToDate)
      ↔
    Allowed step OnTime dated arrivals := by
  induction arrivals generalizing dated with
  | nil =>
    simp only [List.prefix_nil, forall_eq, List.foldl_nil, Allowed, iff_true]
    exact h.upToDate
  | cons arrival arrivals ih =>
    simp only [Allowed, step, Option.mem_def, Option.some.injEq, forall_eq']
    constructor
    . intro hall
      have hfirst := hall [arrival] (List.prefix_append [arrival] arrivals)
      have hontime := onTime_of_upToDate hfirst
      refine ⟨hontime, (ih (h.receive hontime)).mp ?_⟩
      intro before hprefix
      exact hall (arrival :: before) (List.prefix_cons_inj arrival |>.mpr hprefix)
    . intro hall before hprefix
      cases before with
      | nil => exact h.upToDate
      | cons first before =>
        obtain ⟨rfl, hrest⟩ := List.cons_prefix_cons.mp hprefix
        exact (ih (h.receive hall.1)).mpr hall.2 before hrest

def load (runId : RunId) (status : RunStatus) (latestEventSequence : ℚ) : Dated :=
  {
    view :=
      [
        .runSelected runId,
        .snapshotLoaded (freshSnapshot runId status latestEventSequence)
      ].foldl runReducer initialRunViewState
    asOf := latestEventSequence
  }

theorem Valid.load (runId : RunId) (status : RunStatus) (latestEventSequence : ℚ) :
    (load runId status latestEventSequence).Valid := by
  constructor
  . intro event hmem
    contradiction
  . intro event hmem
    contradiction

end Dated

/--
A terminal view is locked, and control responses do not go back in time, exactly when STATUS_UPDATED
respects the lock and the responses are on time.
-/
theorem terminal_locked_and_upToDate {state : RunViewState} {dated : Dated}
    (actions : List RunAction) (arrivals : List Arrival) (hlocked : Locked state)
    (hkeeps : ∀ action ∈ actions, action.keepsRun = true) (hvalid : dated.Valid) :
    (
      (∀ before, before <+: actions → Frozen state (before.foldl runReducer state))
        ↔
      ∀ status, .statusUpdated status ∈ actions → state.status = some (.run status)
    )
      ∧
    (
      (∀ before, before <+: arrivals → (before.foldl Dated.receive dated).UpToDate)
        ↔
      Allowed Dated.step Dated.OnTime dated arrivals
    ) :=
  ⟨frozen_iff hlocked hkeeps, Dated.upToDate_iff hvalid⟩

def pauseRequestedEvent (sequence : ℚ) : RunEvent :=
  {
    runId := "a"
    sequence
    event := .pauseRequested
    timestamp := "2026-01-01T00:00:00Z"
    iteration := 1
    payload := [("current", .str RunStatus.pauseRequested.value)]
  }

def runCompletedEvent (sequence : ℚ) : RunEvent :=
  {
    runId := "a"
    sequence
    event := .runCompleted
    timestamp := "2026-01-01T00:00:00Z"
    iteration := 1
    payload := [("current", .str RunStatus.completed.value)]
  }

-- The run is asked to pause and completes all the same.
def endedArrivals : List Arrival :=
  [.event (pauseRequestedEvent 10), .event (runCompletedEvent 14)]

def ended : Dated :=
  endedArrivals.foldl Dated.receive (Dated.load "a" .reviewing 9)

theorem terminal_locked_and_upToDate_ended :
    Frozen ended.view (runReducer ended.view (.eventReceived (pauseRequestedEvent 15)))
      ∧ ended.UpToDate := by
  have hlocked : Locked ended.view := by
    decide +kernel
  have hkeeps : ∀ action ∈ [RunAction.eventReceived (pauseRequestedEvent 15)],
      action.keepsRun = true := by
    simp [RunAction.keepsRun]
  have hresult := terminal_locked_and_upToDate _ endedArrivals hlocked hkeeps
    (Dated.Valid.load "a" .reviewing 9)
  constructor
  . apply hresult.1.mpr _ [.eventReceived (pauseRequestedEvent 15)]
    . exact List.prefix_rfl
    . simp
  . apply hresult.2.mpr _ endedArrivals
    . exact List.prefix_rfl
    . decide +kernel

-- The response to the pause request comes after the end of the run.
theorem not_terminal_locked_and_upToDate :
    (
      ¬∀ (state : RunViewState) (actions : List RunAction), Locked state →
        (∀ action ∈ actions, action.keepsRun = true) →
          Frozen state (actions.foldl runReducer state)
    )
      ∧
    ¬∀ (dated : Dated) (arrivals : List Arrival), dated.Valid →
        (arrivals.foldl Dated.receive dated).UpToDate := by
  have hstatus : ended.view.status = some (.run .completed) := by
    decide +kernel
  constructor
  . intro hclaim
    have hkeeps : ∀ action ∈ [RunAction.statusUpdated .pauseRequested],
        action.keepsRun = true := by
      simp [RunAction.keepsRun]
    have hfrozen := hclaim ended.view _ (by decide +kernel) hkeeps
    have hsame := hfrozen.status
    rw [hstatus] at hsame
    contradiction
  . intro hclaim
    have hupToDate := hclaim (Dated.load "a" .reviewing 9)
      (endedArrivals ++ [.response { status := .pauseRequested, asOf := 10 }])
      (Dated.Valid.load "a" .reviewing 9)
    have hnewer : ended.view.events.any fun event =>
        (eventStatus event).isSome && decide (10 < event.sequence) := by
      decide +kernel
    simp only [List.any_eq_true, Bool.and_eq_true, decide_eq_true_eq] at hnewer
    obtain ⟨event, hmem, hcarries, hlater⟩ := hnewer
    have hdate := hupToDate event (by rwa [List.foldl_append]) hcarries
    rw [List.foldl_append] at hdate
    have hasOf : (ended.receive (.response { status := .pauseRequested, asOf := 10 })).asOf
        = 10 := by
      simp [Dated.receive, hstatus]
    have hle : event.sequence
        ≤ (ended.receive (.response { status := .pauseRequested, asOf := 10 })).asOf := hdate
    linarith

end Client

end AgenticPrd
