import AgenticPrd.Client.UseAgentRun

/-!
Responses to control requests. The continuation of `runControl` is the only one without the session
guard, so a response is folded into whatever run is on view.
-/

namespace AgenticPrd

namespace Client

open Transition

-- The fields that a control response writes, and what they decide.
structure Untouched (state state' : RunViewState) : Prop where
  status : state'.status = state.status
  pendingControl : state'.pendingControl = state.pendingControl
  isCreating : state'.isCreating = state.isCreating
  error : state'.error = state.error
  ignores : ∀ event, Ignores state' event ↔ Ignores state event

-- The view holds already what the response brings.
def RunViewState.Repeats (state : RunViewState) : Except Failure RunStatus → Prop
  | .ok status => state.status = some (.run status) ∧ state.pendingControl = none
  | .error failure =>
    state.isCreating = false ∧ state.pendingControl = none
      ∧ state.error = some (messageFromError failure)

def Request.isControl : Request → Bool
  | control _ => true
  | _ => false

namespace Hook

def ShowsOther (hook : Hook) (runId : RunId) : Prop :=
  ∃ shown, hook.state.runId = some shown ∧ shown ≠ runId

-- A response for a run leaves the view of another run alone.
def Confined (hook : Hook) : HookLabel → Prop
  | .reply i reply =>
    ∀ runId, hook.requests[i]? = some (.control runId) → hook.ShowsOther runId →
      ∀ hook' ∈ hook.reply i reply, Untouched hook.state hook'.state
  | _ => True

-- A response that meets another run on view brings nothing new to it.
def Harmless (hook : Hook) : HookLabel → Prop
  | .reply i (.controlled result) =>
    ∀ runId, hook.requests[i]? = some (.control runId) → hook.ShowsOther runId →
      hook.state.Repeats result
  | _ => True

def controlInFlight (hook : Hook) : Bool :=
  hook.requests.any Request.isControl

-- No run is put on view while a control request is in flight.
def Undisturbed (hook : Hook) : HookLabel → Prop
  | .mount => hook.controlInFlight = false
  | .selectRun selected => some selected ≠ hook.state.runId → hook.controlInFlight = false
  | .reply _ (.created (.ok _)) => hook.controlInFlight = false
  | _ => True

instance (hook : Hook) : (label : HookLabel) → Decidable (hook.Undisturbed label)
  | .mount => inferInstanceAs (Decidable (_ = false))
  | .selectRun _ => inferInstanceAs (Decidable (_ → _ = false))
  | .reply _ (.created (.ok _)) => inferInstanceAs (Decidable (_ = false))
  | .reply _ (.created (.error _)) => .isTrue trivial
  | .reply _ (.snapshot _) => .isTrue trivial
  | .reply _ (.controlled _) => .isTrue trivial
  | .unmount => .isTrue trivial
  | .createRun => .isTrue trivial
  | .runControl _ => .isTrue trivial
  | .retryConnection => .isTrue trivial
  | .newRun => .isTrue trivial
  | .selectVersion _ => .isTrue trivial
  | .clearError => .isTrue trivial
  | .sourceOpen _ => .isTrue trivial
  | .sourceMessage .. => .isTrue trivial
  | .sourceError .. => .isTrue trivial

section Response

variable {hook : Hook} {runId : RunId}

theorem reply_control {i : Nat} {result : Except Failure RunStatus}
    (h : hook.requests[i]? = some (.control runId)) :
    hook.reply i (.controlled result)
      = some ((hook.settle i).controlled result) := by
  simp [reply, h, answer]

theorem untouched_controlled {state : RunViewState} {result : Except Failure RunStatus}
    (hstate : hook.state = state) :
    Untouched state (hook.controlled result).state ↔ state.Repeats result := by
  subst hstate
  cases result with
  | ok status =>
    constructor
    . intro h
      have hstatus := h.status
      have hpending := h.pendingControl
      simp only [controlled, controlActions, dispatch, List.foldl_cons, List.foldl_nil,
        runReducer] at *
      exact ⟨hstatus.symm, hpending.symm⟩
    . intro h
      simp only [RunViewState.Repeats] at h
      constructor <;>
        simp [controlled, controlActions, dispatch, runReducer, Ignores, Locked, h]
  | error failure =>
    constructor
    . intro h
      have hcreating := h.isCreating
      have hpending := h.pendingControl
      have herror := h.error
      simp only [controlled, controlActions, dispatch, List.foldl_cons, List.foldl_nil,
        runReducer] at *
      exact ⟨hcreating.symm, hpending.symm, herror.symm⟩
    . intro h
      simp only [RunViewState.Repeats] at h
      constructor <;>
        simp [controlled, controlActions, dispatch, runReducer, Ignores, Locked, h]

theorem confined_iff_harmless (hook : Hook) (label : HookLabel) :
    hook.Confined label ↔ hook.Harmless label := by
  cases label with
  | reply i reply =>
    simp only [Confined]
    cases reply with
    | controlled result =>
      simp only [Harmless]
      apply forall_congr'
      intro runId
      apply imp_congr_right
      intro h
      rw [reply_control h]
      simp only [Option.mem_def, Option.some.injEq, forall_eq']
      apply imp_congr_right
      intro _
      apply untouched_controlled
      rfl
    | created result =>
      simp only [Harmless, iff_true]
      intro runId h
      simp [Hook.reply, h, answer]
    | snapshot result =>
      simp only [Harmless, iff_true]
      intro runId h
      simp [Hook.reply, h, answer]
  | _ => simp [Confined, Harmless]

end Response

end Hook

def Request.session? : Request → Option Nat
  | createRun session => some session
  | hydrate _ session => some session
  | recover _ session => some session
  | control _ => none

def Request.runId? : Request → Option RunId
  | createRun _ => none
  | hydrate runId _ => some runId
  | recover runId _ => some runId
  | control runId => some runId

namespace Hook

-- The requests whose continuation would pass the session guard.
def underWay (hook : Hook) : Nat :=
  hook.requests.countP fun request => request.session? = some hook.session

-- The source that would pass it.
def live (hook : Hook) : Option EventSource :=
  (hook.source.bind fun i => hook.sources[i]?).filter fun source => source.session = hook.session

structure Bounded (hook : Hook) : Prop where
  requests : ∀ request ∈ hook.requests, ∀ session ∈ request.session?, session ≤ hook.session
  sources : ∀ source ∈ hook.sources, source.session ≤ hook.session

/--
All that may still touch the view is about one run. Within a session, at most one of a request and
a source does.
-/
structure Aimed (runId : RunId) (hook : Hook) : Prop where
  bounded : hook.Bounded
  shown : hook.state.runId = some runId ∨ hook.state.runId = none
  requests :
    ∀ request ∈ hook.requests, request.session?.all (· = hook.session) = true →
      ∀ r ∈ request.runId?, r = runId
  single : hook.underWay ≤ 1
  live : ∀ source ∈ hook.live, hook.underWay = 0 ∧ source.runId = runId

section Aimed

variable {hook hook' : Hook} {runId : RunId}

theorem dispatch_state (hook : Hook) (actions : List RunAction) :
    (hook.dispatch actions).state = actions.foldl runReducer hook.state :=
  rfl

-- Nothing but the view and the URL has changed.
theorem Aimed.congr (h : hook.Aimed runId) (hsession : hook'.session = hook.session)
    (hsources : hook'.sources = hook.sources) (hsource : hook'.source = hook.source)
    (hrequests : hook'.requests = hook.requests)
    (hshown : hook'.state.runId = some runId ∨ hook'.state.runId = none) : hook'.Aimed runId := by
  have hunderWay : hook'.underWay = hook.underWay := by
    simp [underWay, hrequests, hsession]
  have hlive : hook'.live = hook.live := by
    simp [Hook.live, hsession, hsources, hsource]
  constructor
  . constructor
    . rw [hrequests, hsession]
      exact h.bounded.requests
    . rw [hsources, hsession]
      exact h.bounded.sources
  . exact hshown
  . rw [hrequests, hsession]
    exact h.requests
  . rw [hunderWay]
    exact h.single
  . rw [hlive, hunderWay]
    exact h.live

theorem Aimed.dispatch {actions : List RunAction} (h : hook.Aimed runId)
    (hactions : ∀ action ∈ actions, action.keepsRun = true) :
    (hook.dispatch actions).Aimed runId := by
  refine h.congr rfl rfl rfl rfl ?_
  rw [dispatch_state, foldl_runReducer_runId hactions]
  exact h.shown

theorem Aimed.closeSource (h : hook.Aimed runId) : hook.closeSource.Aimed runId := by
  constructor
  . exact { requests := h.bounded.requests, sources := h.bounded.sources }
  . exact h.shown
  . exact h.requests
  . exact h.single
  . simp [Hook.live, Hook.closeSource]

theorem mem_live_iff {source : EventSource} :
    source ∈ hook.live
      ↔
    (∃ i, hook.source = some i ∧ hook.sources[i]? = some source)
      ∧ source.session = hook.session := by
  simp [Hook.live, Option.filter_eq_some_iff, Option.bind_eq_some_iff]

theorem underWay_eq_zero_iff :
    hook.underWay = 0 ↔ ∀ request ∈ hook.requests, request.session? ≠ some hook.session := by
  simp [underWay, List.countP_eq_zero]

theorem underWay_request (hook : Hook) (request : Request) :
    (hook.request request).underWay
      =
    hook.underWay + if request.session? = some hook.session then 1 else 0 := by
  unfold underWay Hook.request
  simp only [List.countP_append, List.countP_singleton, decide_eq_true_eq]

theorem Aimed.nextSession (h : hook.Aimed runId) :
    hook.nextSession.Aimed runId ∧ hook.nextSession.underWay = 0 ∧ hook.nextSession.live = none := by
  have hzero : hook.nextSession.underWay = 0 := by
    rw [underWay_eq_zero_iff]
    intro request hmem heq
    have := h.bounded.requests request hmem _ heq
    simp only [Hook.nextSession] at this
    omega
  have hlive : hook.nextSession.live = none := by
    rw [Option.eq_none_iff_forall_not_mem]
    intro source hsource
    rw [mem_live_iff] at hsource
    obtain ⟨⟨i, _, hi⟩, hsession⟩ := hsource
    have := h.bounded.sources source (List.mem_of_getElem? hi)
    simp only [Hook.nextSession] at hsession
    omega
  refine ⟨?_, hzero, hlive⟩
  constructor
  . constructor
    . intro request hmem session hsession
      have := h.bounded.requests request hmem session hsession
      simp only [Hook.nextSession]
      omega
    . intro source hmem
      have := h.bounded.sources source hmem
      simp only [Hook.nextSession]
      omega
  . exact h.shown
  . intro request hmem hsession
    apply h.requests request hmem
    rw [underWay_eq_zero_iff] at hzero
    have := hzero request hmem
    cases hnone : request.session? with
    | none => rfl
    | some session => simp_all
  . omega
  . simp [hlive]

theorem Aimed.request {request : Request} (h : hook.Aimed runId)
    (hsession : ∀ session ∈ request.session?,
      session = hook.session ∧ hook.underWay = 0 ∧ hook.live = none)
    (hrunId : ∀ r ∈ request.runId?, r = runId) : (hook.request request).Aimed runId := by
  have hunderWay := underWay_request hook request
  constructor
  . constructor
    . intro other hmem session hother
      simp only [Hook.request, List.mem_append, List.mem_singleton] at hmem
      cases hmem with
      | inl hmem => exact h.bounded.requests other hmem session hother
      | inr heq =>
        subst heq
        rw [(hsession session hother).1]
        exact Nat.le_refl _
    . exact h.bounded.sources
  . exact h.shown
  . intro other hmem
    simp only [Hook.request, List.mem_append, List.mem_singleton] at hmem
    cases hmem with
    | inl hmem => exact h.requests other hmem
    | inr heq =>
      subst heq
      intro _
      exact hrunId
  . have := h.single
    split at hunderWay
    . next heq =>
      have := hsession _ heq
      omega
    . omega
  . intro source hsource
    have hlive := h.live source hsource
    refine ⟨?_, hlive.2⟩
    split at hunderWay
    . next heq =>
      have hnone := (hsession _ heq).2.2
      have hsome : source ∈ hook.live := hsource
      simp [hnone] at hsome
    . omega

theorem not_mem_of_controlInFlight (h : hook.controlInFlight = false) (r : RunId) :
    Request.control r ∉ hook.requests := by
  intro hmem
  simp only [controlInFlight, List.any_eq_false] at h
  exact h _ hmem rfl

-- Another run is put on view.
theorem Aimed.redirect {selected : RunId} (h : hook.Aimed runId) (hzero : hook.underWay = 0)
    (hlive : hook.live = none) (hcontrols : ∀ r, Request.control r ∉ hook.requests) :
    (hook.dispatch [.runSelected selected]).Aimed selected := by
  constructor
  . exact { requests := h.bounded.requests, sources := h.bounded.sources }
  . exact .inl rfl
  . intro request hmem hsession
    rw [underWay_eq_zero_iff] at hzero
    have hne := hzero request hmem
    cases request with
    | control r => exact absurd hmem (hcontrols r)
    | _ => simp_all [Request.session?, Hook.dispatch]
  . exact h.single
  . have hnone : (hook.dispatch [.runSelected selected]).live = none := hlive
    simp [hnone]

theorem Aimed.settle (h : hook.Aimed runId) (i : Nat) : (hook.settle i).Aimed runId := by
  have hle : (hook.settle i).underWay ≤ hook.underWay :=
    List.Sublist.countP_le (List.eraseIdx_sublist _ _)
  have := h.single
  constructor
  . constructor
    . intro request hmem
      exact h.bounded.requests request (List.mem_of_mem_eraseIdx hmem)
    . exact h.bounded.sources
  . exact h.shown
  . intro request hmem
    exact h.requests request (List.mem_of_mem_eraseIdx hmem)
  . omega
  . intro source hsource
    have hlive := h.live source hsource
    refine ⟨?_, hlive.2⟩
    omega

-- The continuation that passes the guard is the only one of its session.
theorem Aimed.settle_current {i : Nat} {request : Request} (h : hook.Aimed runId)
    (hi : hook.requests[i]? = some request) (hsession : request.session? = some hook.session) :
    (hook.settle i).underWay = 0 ∧ (hook.settle i).live = none := by
  have hsingle := h.single
  have hcount : hook.underWay = (hook.settle i).underWay + 1 := by
    obtain ⟨hlt, hget⟩ := List.getElem?_eq_some_iff.mp hi
    have hsplit := List.take_append_drop i hook.requests
    rw [List.drop_eq_getElem_cons hlt, hget] at hsplit
    unfold underWay Hook.settle
    simp only
    rw [List.eraseIdx_eq_take_drop_succ]
    conv_lhs => rw [← hsplit]
    simp only [List.countP_append, List.countP_cons, hsession, decide_true, if_true]
    omega
  constructor
  . omega
  . rw [Option.eq_none_iff_forall_not_mem]
    intro source hsource
    have := (h.live source hsource).1
    omega

theorem Aimed.setSource {i : Nat} {source source' : EventSource} (h : hook.Aimed runId)
    (hi : hook.sources[i]? = some source) (hrunId : source'.runId = source.runId)
    (hsession : source'.session = source.session) : (hook.setSource i source').Aimed runId := by
  constructor
  . constructor
    . exact h.bounded.requests
    . intro other hmem
      cases List.mem_or_eq_of_mem_set hmem with
      | inl hold => exact h.bounded.sources other hold
      | inr heq =>
        rw [heq, hsession]
        exact h.bounded.sources source (List.mem_of_getElem? hi)
  . exact h.shown
  . exact h.requests
  . exact h.single
  . intro other hother
    rw [mem_live_iff] at hother
    simp only [Hook.setSource] at hother
    obtain ⟨⟨j, hj, hget⟩, hcurrent⟩ := hother
    rw [List.getElem?_set] at hget
    split at hget
    . next heq =>
      subst heq
      simp only [(List.getElem?_eq_some_iff.mp hi).1, if_true, Option.some.injEq] at hget
      subst hget
      rw [hsession] at hcurrent
      rw [hrunId]
      exact h.live source (mem_live_iff.mpr ⟨⟨i, hj, hi⟩, hcurrent⟩)
    . exact h.live other (mem_live_iff.mpr ⟨⟨j, hj, hget⟩, hcurrent⟩)

theorem Aimed.connect {afterSequence : ℚ} {session : Nat} (h : hook.Aimed runId)
    (hzero : hook.underWay = 0) : (hook.connect runId afterSequence session).Aimed runId := by
  unfold Hook.connect
  split
  . next hcurrent =>
    simp only [isCurrent, Bool.and_eq_true, beq_iff_eq] at hcurrent
    constructor
    . constructor
      . exact h.bounded.requests
      . intro source hmem
        simp only [List.mem_append, List.mem_singleton] at hmem
        cases hmem with
        | inl hmem => exact h.bounded.sources source hmem
        | inr heq =>
          rw [heq]
          exact Nat.le_of_eq hcurrent.2
    . exact h.shown
    . exact h.requests
    . exact h.single
    . intro source hsource
      refine ⟨hzero, ?_⟩
      rw [mem_live_iff] at hsource
      simp [Hook.dispatch, Hook.closeSource] at hsource
      rw [← hsource.1]
  . exact h

theorem Aimed.loaded {session : Nat} {snapshot : RunSnapshot} (h : hook.Aimed runId)
    (hzero : hook.underWay = 0) (hsnapshot : snapshot.runId = runId) :
    (hook.loaded runId session snapshot).Aimed runId := by
  have hloaded : (hook.dispatch [.snapshotLoaded snapshot]).Aimed runId := by
    refine h.congr rfl rfl rfl rfl (.inl ?_)
    simp [dispatch_state, runReducer, loadSnapshot, hsnapshot]
  unfold Hook.loaded
  dsimp only
  split
  . apply hloaded.dispatch
    simp [RunAction.keepsRun]
  . apply hloaded.connect
    exact hzero

section Answer

variable {requested : RunId} {session : Nat} {result : Except Failure RunSnapshot}

theorem Aimed.hydrated (h : hook.Aimed runId)
    (hcurrent : hook.isCurrent session = true → requested = runId ∧ hook.underWay = 0)
    (hresult : ∀ snapshot, result = .ok snapshot → snapshot.runId = requested) :
    (hook.hydrated requested session result).Aimed runId := by
  cases result with
  | ok snapshot =>
    simp only [Hook.hydrated]
    split
    . next hguard =>
      obtain ⟨rfl, hzero⟩ := hcurrent hguard
      exact h.loaded hzero (hresult snapshot rfl)
    . exact h
  | error failure =>
    simp only [Hook.hydrated]
    split
    . refine h.closeSource.congr rfl rfl rfl rfl (.inr ?_)
      rfl
    . exact h

theorem Aimed.recovered (h : hook.Aimed runId)
    (hcurrent : hook.isCurrent session = true → requested = runId ∧ hook.underWay = 0)
    (hresult : ∀ snapshot, result = .ok snapshot → snapshot.runId = requested) :
    (hook.recovered requested session result).Aimed runId := by
  cases result with
  | ok snapshot =>
    simp only [Hook.recovered]
    split
    . next hguard =>
      obtain ⟨rfl, hzero⟩ := hcurrent hguard
      exact h.loaded hzero (hresult snapshot rfl)
    . exact h
  | error failure =>
    simp only [Hook.recovered]
    split
    . apply h.dispatch
      simp [RunAction.keepsRun]
    . exact h

end Answer

theorem Aimed.created {session : Nat} {result : Except Failure RunId} (h : hook.Aimed runId)
    (hcurrent : session = hook.session → hook.underWay = 0 ∧ hook.live = none)
    (hcontrols : ∀ selected, result = .ok selected → ∀ r, Request.control r ∉ hook.requests) :
    ∃ selected, (hook.created session result).Aimed selected := by
  cases result with
  | ok selected =>
    simp only [Hook.created]
    split
    . next hguard =>
      simp only [isCurrent, Bool.and_eq_true, beq_iff_eq] at hguard
      obtain ⟨hzero, hlive⟩ := hcurrent hguard.2
      refine ⟨selected, ?_⟩
      have hurl : Aimed runId { hook with url := some selected } :=
        h.congr rfl rfl rfl rfl h.shown
      apply (hurl.redirect hzero hlive (hcontrols selected rfl)).request
      . intro s hs
        simp only [Request.session?, Option.mem_def, Option.some.injEq] at hs
        exact ⟨hs ▸ hguard.2, hzero, hlive⟩
      . simp [Request.runId?]
    . exact ⟨runId, h⟩
  | error failure =>
    simp only [Hook.created]
    split
    . refine ⟨runId, ?_⟩
      have hurl : Aimed runId { hook with url := none } := h.congr rfl rfl rfl rfl h.shown
      apply hurl.dispatch
      simp [RunAction.keepsRun]
    . exact ⟨runId, h⟩

theorem Aimed.controlled {result : Except Failure RunStatus} (h : hook.Aimed runId) :
    (hook.controlled result).Aimed runId := by
  apply h.dispatch
  cases result with
  | ok status => simp [controlActions, RunAction.keepsRun]
  | error failure => simp [controlActions, RunAction.keepsRun]

-- A snapshot comes for the run that was asked for.
theorem answer_snapshot {request : Request} {requested : RunId} {session : Nat}
    {result : Except Failure RunSnapshot}
    (hrequest : request = .hydrate requested session ∨ request = .recover requested session)
    (hanswer : hook.answer request (.snapshot result) = some hook') :
    (∀ snapshot, result = .ok snapshot → snapshot.runId = requested)
      ∧
    (hook' = hook.hydrated requested session result
      ∨ hook' = hook.recovered requested session result) := by
  cases result with
  | ok snapshot =>
    cases hrequest with
    | inl heq =>
      subst heq
      simp only [answer, Option.ite_none_right_eq_some, Option.some.injEq] at hanswer
      simp [hanswer.1, ← hanswer.2]
    | inr heq =>
      subst heq
      simp only [answer, Option.ite_none_right_eq_some, Option.some.injEq] at hanswer
      simp [hanswer.1, ← hanswer.2]
  | error failure =>
    cases hrequest with
    | inl heq =>
      subst heq
      simp only [answer, Option.some.injEq] at hanswer
      simp [← hanswer]
    | inr heq =>
      subst heq
      simp only [answer, Option.some.injEq] at hanswer
      simp [← hanswer]

theorem Aimed.snapshot {i : Nat} {request : Request} {requested : RunId} {session : Nat}
    {result : Except Failure RunSnapshot} (h : hook.Aimed runId)
    (hi : hook.requests[i]? = some request)
    (hrequest : request = .hydrate requested session ∨ request = .recover requested session)
    (hanswer : (hook.settle i).answer request (.snapshot result) = some hook') :
    hook'.Aimed runId := by
  obtain ⟨hresult, heq⟩ := answer_snapshot hrequest hanswer
  have hsession : request.session? = some session ∧ request.runId? = some requested := by
    cases hrequest with
    | inl h => simp [h, Request.session?, Request.runId?]
    | inr h => simp [h, Request.session?, Request.runId?]
  have hcurrent : (hook.settle i).isCurrent session = true →
      requested = runId ∧ (hook.settle i).underWay = 0 := by
    intro hguard
    simp only [isCurrent, Bool.and_eq_true, beq_iff_eq] at hguard
    have hnow : request.session? = some hook.session := by
      rw [hsession.1, hguard.2]
      rfl
    constructor
    . apply h.requests request (List.mem_of_getElem? hi)
      . simp [hnow]
      . exact hsession.2
    . exact (h.settle_current hi hnow).1
  cases heq with
  | inl heq =>
    rw [heq]
    exact (h.settle i).hydrated hcurrent hresult
  | inr heq =>
    rw [heq]
    exact (h.settle i).recovered hcurrent hresult

theorem Aimed.reply {i : Nat} {reply : Reply} (h : hook.Aimed runId)
    (hundisturbed : hook.Undisturbed (.reply i reply)) (hreply : hook.reply i reply = some hook') :
    ∃ selected, hook'.Aimed selected := by
  unfold Hook.reply at hreply
  split at hreply
  . next request hi =>
    cases request with
    | createRun session =>
      cases reply with
      | created result =>
        cases hreply
        apply (h.settle i).created
        . intro hsession
          exact h.settle_current hi (congrArg some hsession)
        . intro selected hok r hmem
          subst hok
          exact not_mem_of_controlInFlight hundisturbed r (List.mem_of_mem_eraseIdx hmem)
      | _ => contradiction
    | hydrate requested session =>
      cases reply with
      | snapshot result => exact ⟨runId, h.snapshot hi (.inl rfl) hreply⟩
      | _ => contradiction
    | recover requested session =>
      cases reply with
      | snapshot result => exact ⟨runId, h.snapshot hi (.inr rfl) hreply⟩
      | _ => contradiction
    | control requested =>
      cases reply with
      | controlled result =>
        cases hreply
        exact ⟨runId, (h.settle i).controlled⟩
      | _ => contradiction
  . contradiction

-- A session that starts with a request for the run on view.
theorem Aimed.hydrate (h : hook.Aimed runId) (hzero : hook.underWay = 0)
    (hlive : hook.live = none) : (hook.request (.hydrate runId hook.session)).Aimed runId := by
  apply h.request
  . intro session hsession
    simp only [Request.session?, Option.mem_def, Option.some.injEq] at hsession
    exact ⟨hsession.symm, hzero, hlive⟩
  . simp [Request.runId?]

theorem Aimed.mount (h : hook.Aimed runId) (hundisturbed : hook.Undisturbed .mount) :
    ∃ selected, hook.mount.Aimed selected := by
  have hmounted : Aimed runId { hook with mounted := true } := h.congr rfl rfl rfl rfl h.shown
  obtain ⟨hnext, hzero, hlive⟩ := hmounted.nextSession
  unfold Hook.mount
  dsimp only
  split
  . next selected heq =>
    refine ⟨selected, ?_⟩
    have hcontrols := not_mem_of_controlInFlight hundisturbed
    exact (hnext.redirect hzero hlive hcontrols).hydrate hzero hlive
  . exact ⟨runId, hmounted⟩

theorem Aimed.unmount (h : hook.Aimed runId) : hook.unmount.Aimed runId :=
  h.nextSession.1.closeSource.congr rfl rfl rfl rfl h.shown

theorem Aimed.createRun (h : hook.Aimed runId) : hook.createRun.Aimed runId := by
  obtain ⟨hnext, hzero, hlive⟩ := h.nextSession
  have hstarted : (hook.nextSession.closeSource.dispatch [.createStarted]).Aimed runId := by
    refine hnext.closeSource.congr rfl rfl rfl rfl (.inr ?_)
    rfl
  apply hstarted.request
  . intro session hsession
    simp only [Request.session?, Option.mem_def, Option.some.injEq] at hsession
    exact ⟨hsession.symm, hzero, rfl⟩
  . simp [Request.runId?]

theorem Aimed.selectRun {selected : RunId} (h : hook.Aimed runId)
    (hundisturbed : hook.Undisturbed (.selectRun selected)) :
    ∃ selected', (hook.selectRun selected).Aimed selected' := by
  unfold Hook.selectRun
  split
  . exact ⟨runId, h⟩
  . next hselected =>
    rw [not_or] at hselected
    obtain ⟨hnext, hzero, hlive⟩ := h.nextSession
    have hurl : Aimed runId { hook.nextSession.closeSource with url := some selected } :=
      hnext.closeSource.congr rfl rfl rfl rfl h.shown
    refine ⟨selected, ?_⟩
    have hcontrols := not_mem_of_controlInFlight (hundisturbed hselected.2)
    exact (hurl.redirect hzero rfl hcontrols).hydrate hzero rfl

theorem Aimed.runControl {control : Control} (h : hook.Aimed runId) :
    (hook.runControl control).Aimed runId := by
  unfold Hook.runControl
  split
  . next requested hshown _ =>
    have hrun : hook.state.runId = some requested := (Option.filter_eq_some_iff.mp hshown).1
    have hstarted : (hook.dispatch [.controlStarted control]).Aimed runId := by
      apply h.dispatch
      simp [RunAction.keepsRun]
    apply hstarted.request
    . simp [Request.session?]
    . intro r hr
      simp only [Request.runId?, Option.mem_def, Option.some.injEq] at hr
      have hview := h.shown
      simp only [hrun, Option.some.injEq, reduceCtorEq, or_false] at hview
      rw [← hr, hview]
  . exact h

theorem Aimed.retryConnection (h : hook.Aimed runId) : hook.retryConnection.Aimed runId := by
  unfold Hook.retryConnection
  split
  . next requested hshown =>
    have hrun : hook.state.runId = some requested := (Option.filter_eq_some_iff.mp hshown).1
    have hview := h.shown
    simp only [hrun, Option.some.injEq, reduceCtorEq, or_false] at hview
    subst hview
    obtain ⟨hnext, hzero, hlive⟩ := h.nextSession
    have hcleared : (hook.nextSession.closeSource.dispatch
        [.clearError, .connectionChanged .recovering]).Aimed requested := by
      apply hnext.closeSource.dispatch
      simp [RunAction.keepsRun]
    exact hcleared.hydrate hzero rfl
  . exact h

theorem Aimed.newRun (h : hook.Aimed runId) : hook.newRun.Aimed runId := by
  refine h.nextSession.1.closeSource.congr rfl rfl rfl rfl (.inr ?_)
  rfl

theorem Aimed.sourceOpen {i : Nat} {source : EventSource} (h : hook.Aimed runId)
    (hi : hook.sources[i]? = some source) : (hook.sourceOpen i source).Aimed runId := by
  unfold Hook.sourceOpen
  split
  . exact h
  . apply Aimed.dispatch
    . exact h.setSource hi rfl rfl
    . simp [RunAction.keepsRun]

theorem Aimed.sourceMessage {i : Nat} {source : EventSource} {data : Option Json}
    (h : hook.Aimed runId) : (hook.sourceMessage i source data).Aimed runId := by
  unfold Hook.sourceMessage
  split
  . exact h
  . split
    . apply h.dispatch
      simp [RunAction.keepsRun]
    . next event _ =>
      have hreceived : (hook.dispatch [.eventReceived event]).Aimed runId := by
        apply h.dispatch
        simp [RunAction.keepsRun]
      dsimp only
      split
      . apply hreceived.closeSource.dispatch
        simp [RunAction.keepsRun]
      . exact hreceived

theorem Aimed.sourceError {i : Nat} {source : EventSource} {closed : Bool} (h : hook.Aimed runId)
    (hi : hook.sources[i]? = some source) : (hook.sourceError i source closed).Aimed runId := by
  unfold Hook.sourceError
  split
  . exact h
  . next hguard =>
    simp only [not_or, not_not] at hguard
    obtain ⟨hsession, _, hsource⟩ := hguard
    have hlive := h.live source (mem_live_iff.mpr ⟨⟨i, hsource, hi⟩, hsession⟩)
    dsimp only
    split
    . apply Aimed.dispatch
      . exact h.setSource hi rfl rfl
      . simp [RunAction.keepsRun]
    . apply Aimed.request
      . apply Aimed.dispatch
        . apply Aimed.closeSource
          exact h.setSource hi rfl rfl
        . simp [RunAction.keepsRun]
      . intro session hs
        simp only [Request.session?, Option.mem_def, Option.some.injEq] at hs
        exact ⟨hs ▸ hsession, hlive.1, rfl⟩
      . simp [Request.runId?, hlive.2]

theorem Aimed.step {label : HookLabel} (h : hook.Aimed runId)
    (hundisturbed : hook.Undisturbed label) (hstep : hook.step label = some hook') :
    ∃ selected, hook'.Aimed selected := by
  cases label with
  | mount =>
    cases hstep
    exact h.mount hundisturbed
  | unmount =>
    cases hstep
    exact ⟨runId, h.unmount⟩
  | createRun =>
    cases hstep
    exact ⟨runId, h.createRun⟩
  | selectRun selected =>
    cases hstep
    exact h.selectRun hundisturbed
  | runControl control =>
    cases hstep
    exact ⟨runId, h.runControl⟩
  | retryConnection =>
    cases hstep
    exact ⟨runId, h.retryConnection⟩
  | newRun =>
    cases hstep
    exact ⟨runId, h.newRun⟩
  | selectVersion version =>
    cases hstep
    refine ⟨runId, h.dispatch ?_⟩
    simp [RunAction.keepsRun]
  | clearError =>
    cases hstep
    refine ⟨runId, h.dispatch ?_⟩
    simp [RunAction.keepsRun]
  | reply i reply => exact h.reply hundisturbed hstep
  | sourceOpen i =>
    simp only [Hook.step, Option.map_eq_some_iff] at hstep
    obtain ⟨source, hi, rfl⟩ := hstep
    exact ⟨runId, h.sourceOpen hi⟩
  | sourceMessage i data =>
    simp only [Hook.step, Option.map_eq_some_iff] at hstep
    obtain ⟨source, _, rfl⟩ := hstep
    exact ⟨runId, h.sourceMessage⟩
  | sourceError i closed =>
    simp only [Hook.step, Option.map_eq_some_iff] at hstep
    obtain ⟨source, hi, rfl⟩ := hstep
    exact ⟨runId, h.sourceError hi⟩

theorem Aimed.harmless (h : hook.Aimed runId) (label : HookLabel) : hook.Harmless label := by
  cases label with
  | reply i reply =>
    cases reply with
    | controlled result =>
      intro requested hi hother
      have heq : requested = runId := by
        apply h.requests _ (List.mem_of_getElem? hi) rfl
        rfl
      obtain ⟨shown, hshown, hne⟩ := hother
      have hview := h.shown
      simp only [hshown, Option.some.injEq, reduceCtorEq, or_false] at hview
      rw [hview, heq] at hne
      contradiction
    | _ => trivial
  | _ => trivial

theorem Aimed.init (url : Option RunId) : (init url).Aimed "" := by
  constructor
  . constructor <;> simp [Hook.init]
  . exact .inr rfl
  . simp [Hook.init]
  . simp [underWay, Hook.init]
  . simp [Hook.live, Hook.init]

end Aimed

/--
In every run of the hook, control responses keep to the view of their own run exactly when each
response that meets another run on view brings nothing new to it. They all do when no run is put on
view while a control request is in flight.
-/
theorem control_response_confined (url : Option RunId) (labels : List HookLabel) :
    (Allowed step Confined (init url) labels ↔ Allowed step Harmless (init url) labels)
      ∧
    (Allowed step Undisturbed (init url) labels → Allowed step Confined (init url) labels) := by
  have hiff : Allowed step Confined (init url) labels ↔ Allowed step Harmless (init url) labels :=
    allowed_congr confined_iff_harmless labels
  refine ⟨hiff, ?_⟩
  intro hundisturbed
  rw [hiff]
  apply hundisturbed.imp (I := fun hook => ∃ runId, hook.Aimed runId)
  . exact ⟨"", Aimed.init url⟩
  . intro hook label hook' hinv hlabel hstep
    obtain ⟨runId, haimed⟩ := hinv
    exact haimed.step hlabel hstep
  . intro hook label hinv _
    obtain ⟨runId, haimed⟩ := hinv
    exact haimed.harmless label

-- Run "a" has been cancelled when run "b" is selected.
theorem control_response_confined_cancel :
    Allowed step Confined (init (some "a"))
      [
        .mount,
        .reply 0 (.snapshot (.ok (freshSnapshot "a" .reviewing 9))),
        .runControl .cancel,
        .reply 0 (.controlled (.ok .cancelled)),
        .selectRun "b"
      ] := by
  apply (control_response_confined _ _).2
  decide +kernel

-- Run "b" is selected while run "a" is being cancelled.
def switchLabels : List HookLabel :=
  [
    .mount,
    .reply 0 (.snapshot (.ok (freshSnapshot "a" .reviewing 9))),
    .runControl .cancel,
    .selectRun "b",
    .reply 1 (.snapshot (.ok (freshSnapshot "b" .generating 4)))
  ]

theorem not_control_response_confined :
    ¬∀ url labels, Allowed step Confined (init url) labels := by
  intro hclaim
  have hexec :
      (exec step (init (some "a")) switchLabels).any (fun hook =>
        hook.requests == [.control "a"]
          && hook.state.runId == some "b"
          && hook.state.status == some (.run .generating)) := by
    decide +kernel
  simp only [Option.any_eq_true, Bool.and_eq_true, beq_iff_eq] at hexec
  obtain ⟨hook, hrun, ⟨hrequests, hshown⟩, hstatus⟩ := hexec
  have hcancelled := hclaim (some "a") (switchLabels ++ [.reply 0 (.controlled (.ok .cancelled))])
  have hi : hook.requests[0]? = some (.control "a") := by
    rw [hrequests]
    rfl
  have hother : hook.ShowsOther "a" := ⟨"b", hshown, by decide⟩
  have huntouched := (hcancelled.last hrun) "a" hi hother _ (reply_control hi)
  have hsame := huntouched.status
  rw [hstatus] at hsame
  have hchanged : ((hook.settle 0).controlled (.ok .cancelled)).state.status
      = some (.run .cancelled) := rfl
  rw [hchanged] at hsame
  contradiction

end Hook

end Client

end AgenticPrd
