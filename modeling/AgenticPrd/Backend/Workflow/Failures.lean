import AgenticPrd.Backend.Workflow.Plot

/-!
What leaves a node by raising, when the database does not fail: a timeout, the cancellation, what the
provider has raised, and what the workflow raises about an answer of the provider. A node that raises
has not moved the plot on, and one that does not has by its own commit or not at all.
-/

namespace AgenticPrd

namespace Workflow

open RunManager Prog

variable {env : Env} {G G' : Plot → Prop} {F F' : Exn → Prop} {w : World}

-- What the workflow may raise of its own accord is among the exceptions.
structure Permits (F : Exn → Prop) : Prop where
  timeout : F .timeoutError
  cancelled : F .workflowCancelled
  illegal : ∀ exn, Illegal exn → F exn

section Await

-- A wait that is settled already will raise one of `F`.
def Settles (F : Exn → Prop) : Await → Prop
  | .waiting => True
  | .settling exn => F exn

variable (hpermits : Permits F)

include hpermits

theorem within_checkCancel : Within (Sane G) F (fun _ => True) (checkCancel env) := by
  unfold checkCancel
  apply Within.bind within_get
  intro w _
  split
  . exact .throw hpermits.cancelled
  . apply Within.bind within_remainingRunSeconds
    intro remaining _
    split
    . exact .throw hpermits.timeout
    . exact .pure trivial

theorem within_beginAwait {call : Option ProviderCall} :
    Within (Sane G) F (Settles F) (beginAwait env call) := by
  unfold beginAwait
  apply Within.tryCatch (E := F)
  . apply Within.bind (within_checkCancel hpermits)
    intro _ _
    apply Within.bind within_remainingRunSeconds
    intro _ _
    split
    . exact .pure trivial
    . next call =>
      apply Within.bind (within_update (f := World.called call) fun _ => ⟨rfl, rfl⟩)
      intro _ _
      exact .pure trivial
  . intro exn hexn
    exact .pure hexn

theorem within_awaitResult {α : Type} {await : Await} {answer : Answer α} (hawait : Settles F await)
    (haccepts : await.accepts w answer = true)
    (hraised : ∀ exn, answer = .raised exn → F exn.toExn) :
    Within (Sane G) F (fun value => answer = .returned value) (awaitResult await answer) := by
  cases await with
  | settling exn => exact .throw hawait
  | waiting =>
    cases answer with
    | returned value => exact .pure rfl
    | raised exn => exact .throw (hraised exn rfl)
    | timedOut => exact .throw hpermits.timeout
    | cancelled => exact .throw hpermits.cancelled
    | settled => contradiction

end Await

section Structured

variable {T : Type} {model : Json → Option T} {call : ProviderCall} {repair : Json → ProviderCall}
  {answer : Answer ProviderStructuredResult} {structured : StructuredPc} {attempt : Nat}

-- The answer has not been read as the model.
def Unread (model : Json → Option T) (answer : Answer ProviderStructuredResult) : Prop :=
  ∃ result, answer = .returned result ∧ model result.value = none

-- The wait of a structured call raises one of `F`, and there is something unreadable to repair.
structure AwaitsCall (F : Exn → Prop) (unread : Prop) (structured : StructuredPc) : Prop where
  settles : Settles F structured.await
  unread : ∀ result await, structured = .repairing result await → unread

-- What a structured call goes on with.
def Evolves {T : Type} (F : Exn → Prop) (model : Json → Option T)
    (answer : Answer ProviderStructuredResult) :
    StructuredPc ⊕ (ProviderStructuredResult × T) → Prop
  | .inl structured => AwaitsCall F (Unread model answer) structured
  | .inr (_, parsed) => ∃ result, answer = .returned result ∧ model result.value = some parsed

variable (hpermits : Permits F)

include hpermits

theorem within_structuredCall {unread : Prop} :
    Within (Sane G) F (AwaitsCall F unread) (structuredCall env attempt call) := by
  unfold structuredCall
  apply Within.bind (within_beginAwait hpermits)
  intro await hawait
  exact .pure ⟨hawait, by simp⟩

theorem within_structuredWake (hawait : Settles F structured.await)
    (haccepts : structured.await.accepts w answer = true)
    (hraised : ∀ exn, answer = .raised exn → F exn.toExn)
    (hinvalid : ∀ result await, structured = .repairing result await → Unread model answer →
      F .validationError) :
    Within (Sane G) F (Evolves F model answer)
      (structuredWake env model call repair answer structured) := by
  cases structured with
  | calling attempt await =>
    unfold structuredWake
    apply Within.bind (P := fun result => ∀ r ∈ result, answer = .returned r)
    . apply Within.tryCatch (E := F)
      . apply Within.bind (within_awaitResult hpermits hawait haccepts hraised)
        intro result hresult
        exact .pure (by simpa using hresult)
      . intro exn hexn
        split
        . exact .pure (by simp)
        . exact .throw hexn
    . intro result hresult
      cases result with
      | none =>
        dsimp only
        apply Within.bind (within_structuredCall hpermits)
        intro next hnext
        exact .pure hnext
      | some result =>
        have hanswer : answer = .returned result := hresult result rfl
        dsimp only
        cases hmodel : model result.value with
        | some parsed => exact .pure ⟨result, hanswer, hmodel⟩
        | none =>
          dsimp only
          apply Within.bind (within_beginAwait hpermits)
          intro next hnext
          apply Within.pure
          refine ⟨hnext, ?_⟩
          intro _ _ _
          exact ⟨result, hanswer, hmodel⟩
  | repairing result await =>
    unfold structuredWake
    apply Within.bind (within_awaitResult hpermits hawait haccepts hraised)
    intro repaired hrepaired
    cases hmodel : model repaired.value with
    | some parsed => exact .pure ⟨repaired, hrepaired, hmodel⟩
    | none => exact .throw (hinvalid result await rfl ⟨repaired, hrepaired, hmodel⟩)

end Structured

section Reviewer

variable {role : ReviewRole} {frame : NodeFrame} {structured : StructuredPc}
  {answer : Answer ProviderStructuredResult}

-- A node that has just called its provider, from a snapshot of `G`.
def Called (G : Plot → Prop) (F : Exn → Prop) (frame : NodeFrame) (structured : StructuredPc) : Prop :=
  G frame.state.plot ∧ AwaitsCall F False structured

theorem within_reviewerNode (hpermits : Permits F) (hadmits : Admits G F) :
    Within (Sane G) F
      (fun pc => ∃ frame structured, pc = .suspended frame structured ∧ Called G F frame structured)
      (reviewerNode env role) := by
  unfold reviewerNode
  apply Within.bind (within_checkCancel hpermits)
  intro _ _
  apply Within.bind within_monotonic
  intro started _
  apply Within.bind (within_markNode hadmits)
  intro _ _
  apply Within.bind within_get
  intro w h
  apply Within.bind (within_structuredCall hpermits)
  intro structured hstructured
  exact .pure ⟨_, _, rfl, h.1, hstructured⟩

variable (hpermits : Permits F) (hadmits' : Admits G' F')
  (hiteration : ValidIteration frame.state.currentIteration)

include hpermits hadmits' hiteration

theorem shifts_commitReview {result : ProviderStructuredResult} {review : RoleReview}
    (hother : review.role ≠ role → F .validationError)
    (hreview : review.role = role → ∀ p, G p → G' (p.reviewed role review)) :
    Shifts (Sane G) (Sane G') F F' (fun _ => False) (fun pc => pc = .done)
      (commitReview env role frame result review) := by
  unfold commitReview
  split
  . next hrole =>
    apply Within.bind_shifts (within_checkCancel hpermits)
    intro _ _
    apply Within.bind_shifts within_get
    intro w _
    apply Shifts.bind
    . apply shifts_commit hadmits'
      intro s hs
      unfold finishReview
      split
      . exact ⟨rfl, hpermits.cancelled⟩
      . exact hreview hrole s.plot hs
    . intro _ _
      apply Within.bind (within_recordUsage hadmits')
      intro _ _
      apply Within.bind within_monotonic
      intro now _
      apply Within.bind (within_recordTiming hadmits' hiteration (Nat.le_refl 1))
      intro _ _
      exact .pure rfl
  . next hrole => exact (Within.throw (hother hrole)).shifts

theorem shifts_reviewerWake {env : WorkflowEnv}
    (hawait : Settles F structured.await) (haccepts : structured.await.accepts w answer = true)
    (hraised : ∀ exn, answer = .raised exn → F exn.toExn)
    (hinvalid : ∀ result await, structured = .repairing result await →
      Unread env.roleReview answer → F .validationError)
    (hother : ∀ review, Answers env.roleReview answer review → review.role ≠ role →
      F .validationError)
    (hreview : ∀ review, Answers env.roleReview answer review → review.role = role → ∀ p, G p →
      G' (p.reviewed role review)) :
    Shifts (Sane G) (Sane G') F F'
      (fun pc => ∃ next, pc = .suspended frame next ∧ AwaitsCall F (Unread env.roleReview answer) next)
      (fun pc => pc = .done) (reviewerWake env role frame structured answer) := by
  unfold reviewerWake
  apply Within.bind_shifts (within_structuredWake hpermits hawait haccepts hraised hinvalid)
  intro outcome houtcome
  cases outcome with
  | inl next => exact (Within.pure ⟨next, rfl, houtcome⟩).shifts
  | inr pair =>
    obtain ⟨result, review⟩ := pair
    apply Shifts.mono (shifts_commitReview hpermits hadmits' hiteration (hother review houtcome)
      (hreview review houtcome))
    . intro _ hfalse
      exact hfalse.elim
    . intro pc hpc
      exact hpc

end Reviewer

section Generator

variable {state : RunSnapshot} {plan : Option RevisionPlan} {attempt : Nat} {frame : GeneratorFrame}

-- The attempt goes on with what the event reports.
structure Meets (frame : GeneratorFrame) (event : ProviderTextEvent)
    (frame' : GeneratorFrame) : Prop where
  state : frame'.state = frame.state
  plan : frame'.plan = frame.plan
  attempt : frame'.attempt = frame.attempt
  usage : frame'.usage = event.usage.or frame.usage

-- What the attempt may raise about the stream that has ended.
structure Closes (F : Exn → Prop) (frame : GeneratorFrame) : Prop where
  invalid :
    ∀ error, PrdDocument.validateGeneratedPrd frame.content frame.finishReason = .error error →
      F (.providerError error)
  unmetered :
    ∀ validated, PrdDocument.validateGeneratedPrd frame.content frame.finishReason = .ok validated →
      frame.usage = none → F (.providerError .retryable)

-- An attempt that has just opened its stream.
structure OpensStream (F : Exn → Prop) (state : RunSnapshot) (plan : Option RevisionPlan) (attempt : Nat)
    (frame : GeneratorFrame) : Prop where
  state : frame.state = state
  plan : frame.plan = plan
  attempt : frame.attempt = attempt
  usage : frame.usage = none
  settles : Settles F frame.await

theorem within_restartRecord : Within (Sane G) F (fun _ => True) (restartRecord env) := by
  unfold restartRecord
  apply Within.bind within_monotonic
  intro now _
  exact within_update fun _ => ⟨rfl, rfl⟩

theorem within_recordSeconds : Within (Sane G) F (fun _ => True) (recordSeconds env) := by
  unfold recordSeconds
  apply Within.bind within_get
  intro w _
  apply Within.bind within_monotonic
  intro now _
  exact .pure trivial

theorem within_noteUsage {usage : Option TokenUsage} :
    Within (Sane G) F (fun frame' => frame' = { frame with usage := usage.or frame.usage })
      (noteUsage usage frame) := by
  cases usage with
  | none => exact .pure rfl
  | some usage =>
    unfold noteUsage
    dsimp only
    apply Within.bind
    . apply within_update
      intro _
      exact ⟨rfl, rfl⟩
    . intro _ _
      exact .pure rfl

theorem within_commitBeginStream (hadmits : Admits G F) (hpending : ∀ p, G p → p.IsPending) :
    Within (Sane G) F (fun s => G s.plot) (commitBeginStream env state attempt) := by
  have hbegin : Within (fun s => G s.plot) F (fun _ => True) (modify (beginStream attempt)) :=
    within_draft hpending fun _ => ⟨_, _, rfl⟩
  unfold commitBeginStream
  split
  . exact within_commit hadmits hbegin
  . exact within_commit hadmits hbegin

variable (hpermits : Permits F)

include hpermits

theorem within_awaitEvent :
    Within (Sane G) F (fun frame' => ∃ await, frame' = { frame with await } ∧ Settles F await)
      (awaitEvent env frame) := by
  unfold awaitEvent
  apply Within.bind within_monotonic
  intro now _
  split
  . exact .throw hpermits.timeout
  . apply Within.bind (within_beginAwait hpermits)
    intro await hawait
    exact .pure ⟨await, rfl, hawait⟩

theorem within_openStream :
    Within (Sane G) F (OpensStream F state plan attempt) (openStream env state plan attempt) := by
  unfold openStream
  apply Within.bind (within_update (f := World.called _) fun _ => ⟨rfl, rfl⟩)
  intro _ _
  apply Within.bind within_monotonic
  intro lastFlush _
  apply Within.bind within_monotonic
  intro now _
  apply Within.bind within_remainingRunSeconds
  intro remaining _
  apply Within.mono (within_awaitEvent hpermits)
  rintro _ ⟨await, rfl, hawait⟩
  exact ⟨rfl, rfl, rfl, rfl, hawait⟩

variable (hadmits : Admits G F) (hpending : ∀ p, G p → p.IsPending)

include hadmits hpending

theorem within_commitDelta {delta : String} :
    Within (Sane G) F (fun s => G s.plot) (commitDelta env state attempt delta) := by
  unfold commitDelta
  apply Within.bind (within_checkCancel hpermits)
  intro _ _
  apply Within.bind within_get
  intro w _
  apply within_commit hadmits
  unfold appendDelta
  split
  . exact .throw hpermits.cancelled
  . exact within_draft hpending fun _ => ⟨_, _, rfl⟩

theorem within_flush {now : ℚ} :
    Within (Sane G) F (fun frame' => ∃ buffer lastFlush, frame' = { frame with buffer, lastFlush })
      (flush env frame now) := by
  unfold flush
  split
  . apply Within.bind (within_commitDelta hpermits hadmits hpending)
    intro _ _
    exact .pure ⟨_, _, rfl⟩
  . exact .pure ⟨_, _, rfl⟩

theorem within_consumeEvent {event : ProviderTextEvent} :
    Within (Sane G) F (Meets frame event) (consumeEvent env frame event) := by
  unfold consumeEvent
  dsimp only
  apply Within.bind within_monotonic
  intro now _
  apply Within.bind (within_flush hpermits hadmits hpending)
  rintro _ ⟨buffer, lastFlush, rfl⟩
  apply Within.bind within_noteUsage
  rintro _ rfl
  cases event.finishReason with
  | none => exact .pure ⟨rfl, rfl, rfl, rfl⟩
  | some reason =>
    dsimp only
    split
    . exact .pure ⟨rfl, rfl, rfl, rfl⟩
    . exact .pure ⟨rfl, rfl, rfl, rfl⟩

theorem within_endStream (hcloses : Closes F frame) :
    Within (Sane G) F
      (fun result =>
        PrdDocument.validateGeneratedPrd frame.content frame.finishReason = .ok result.1)
      (endStream env frame) := by
  unfold endStream
  dsimp only
  split
  case' isTrue =>
    apply Within.bind (within_commitDelta hpermits hadmits hpending)
    intro _ _
  all_goals
    apply Within.bind (P := fun validated =>
      PrdDocument.validateGeneratedPrd frame.content frame.finishReason = .ok validated)
    . unfold validatedPrd
      split
      . next error herror => exact .throw (hcloses.invalid error herror)
      . next validated hvalidated => exact .pure hvalidated
    . intro validated hvalidated
      cases husage : frame.usage with
      | none => exact .throw (hcloses.unmetered validated hvalidated husage)
      | some usage => exact .pure hvalidated

-- What the attempt has come to: it waits for the next event, or its document is accepted.
def Yields (F : Exn → Prop) (frame : GeneratorFrame) (answer : Answer (Option ProviderTextEvent)) :
    GeneratorFrame ⊕ (String × TokenUsage) → Prop
  | .inl frame' =>
    ∃ event, answer = .returned (some event) ∧ Meets frame event frame' ∧ Settles F frame'.await
  | .inr (validated, _) =>
    answer = .returned none
      ∧ PrdDocument.validateGeneratedPrd frame.content frame.finishReason = .ok validated

theorem within_resumeStream {answer : Answer (Option ProviderTextEvent)}
    (hawait : Settles F frame.await) (haccepts : frame.await.accepts w answer = true)
    (hraised : ∀ exn, answer = .raised exn → F exn.toExn)
    (hcloses : answer = .returned none → Closes F frame) :
    Within (Sane G) F (Yields F frame answer) (resumeStream env frame answer) := by
  unfold resumeStream
  apply Within.bind (within_awaitResult hpermits hawait haccepts hraised)
  intro event hevent
  cases event with
  | none =>
    dsimp only
    apply Within.bind (within_endStream hpermits hadmits hpending (hcloses hevent))
    intro result hresult
    exact .pure ⟨hevent, hresult⟩
  | some event =>
    dsimp only
    apply Within.bind (within_consumeEvent hpermits hadmits hpending)
    intro noted hnoted
    apply Within.bind (within_awaitEvent hpermits)
    rintro _ ⟨await, rfl, hawait'⟩
    apply Within.pure
    exact ⟨event, hevent, ⟨hnoted.state, hnoted.plan, hnoted.attempt, hnoted.usage⟩, hawait'⟩

omit hpermits hpending in
-- Only the first attempt leads on to another one.
theorem within_attemptFailed (hiteration : ValidIteration state.currentIteration)
    (hattempt : 1 ≤ attempt) {exn : Exn} (hexn : F exn) :
    Within (Sane G) F (fun _ => attempt < 2) (attemptFailed env state attempt exn) := by
  have hlast : Within (Sane G) F (fun _ => attempt < 2)
      (if 2 ≤ attempt then throw exn else pure () : Prog World Exn Unit) := by
    split
    . exact .throw hexn
    . next hfirst => exact .pure (Nat.lt_of_not_le hfirst)
  unfold attemptFailed
  apply Within.bind within_recordSeconds
  intro seconds _
  apply Within.bind within_get
  intro w1 _
  apply Within.bind (within_recordTiming hadmits hiteration hattempt)
  intro _ _
  apply Within.bind within_get
  intro w2 _
  dsimp only
  cases w2.record.usage with
  | none => exact hlast
  | some usage =>
    apply Within.bind (within_recordUsage hadmits)
    intro _ _
    exact hlast

end Generator

section Attempts

variable {state : RunSnapshot} {plan : Option RevisionPlan} {attempt : Nat} {frame : GeneratorFrame}

-- The version that an attempt makes of its document.
structure Composed (state : RunSnapshot) (plan : Option RevisionPlan) (content : String)
    (version : PRDVersion) : Prop where
  iteration : version.version = state.currentIteration
  content : version.content = content
  plan : version.revisionPlan = plan
  evaluation : version.evaluation = none

variable (hpermits : Permits F) (hiteration : ValidIteration state.currentIteration)

include hpermits hiteration

theorem shifts_commitVersion (hadmits' : Admits G' F') (hpending : ∀ p, G p → p.IsPending) (hattempt : 1 ≤ attempt) {content : String}
    {usage : TokenUsage}
    (hwritten : ∀ version, Composed state plan content version → ∀ p, G p → G' (p.written version)) :
    Shifts (Sane G) (Sane G') F F' (fun _ => False) (fun pc => pc = .reviewing fun _ => .ready)
      (commitVersion env state plan attempt content usage) := by
  unfold commitVersion
  apply Within.bind_shifts (within_checkCancel hpermits)
  intro _ _
  apply Within.bind_shifts within_recordSeconds
  intro elapsed _
  apply Within.bind_shifts within_utcNow
  intro now _
  obtain ⟨version, hsome, hversion, hcontent, hevaluation, hplan⟩ :=
    PRDVersion.validate?_eq_some hiteration content now plan usage
  rw [hsome]
  dsimp only
  apply Within.bind_shifts within_get
  intro w _
  apply Shifts.bind
  . apply shifts_commit hadmits'
    intro s hs
    unfold finishGeneration
    split
    . exact ⟨rfl, hpermits.cancelled⟩
    . have hiteration' : s.currentIteration = s.versions.length + 1 := hpending _ hs
      have hplot : ({
          s with
          versions := s.versions ++ [version]
          currentPrd := content
          currentPrdAttempt := attempt
          pendingRevisionPlan := none
          nodeStatuses := Function.update s.nodeStatuses .generator .succeeded
          activeNode := none
        } : RunSnapshot).plot = s.plot.written version := by
        simp [RunSnapshot.plot, Plot.written, hiteration', hcontent]
      rw [wp_modify, hplot]
      exact hwritten version ⟨hversion, hcontent, hplan, hevaluation⟩ s.plot hs
  . intro _ _
    apply Within.bind (within_recordUsage hadmits')
    intro _ _
    apply Within.bind
    . apply within_recordTiming hadmits' _ hattempt
      rw [hversion]
      exact hiteration
    . intro _ _
      apply Within.bind (within_setStage hadmits' rfl)
      intro _ _
      exact .pure rfl

variable (hadmits : Admits G F) (hpending : ∀ p, G p → p.IsPending)

include hadmits hpending

omit hpermits hpending in
theorem shifts_runAttempt {I' : World → Prop} {P P' : Pc → Prop}
    {Q : GeneratorFrame ⊕ (String × TokenUsage) → Prop}
    {body : Prog World Exn (GeneratorFrame ⊕ (String × TokenUsage))} {retry : Prog World Exn Pc}
    (hattempt : 1 ≤ attempt) (hbody : Within (Sane G) F Q body)
    (hopened : ∀ opened, Q (.inl opened) → P (.generating opened))
    (hversion : ∀ content usage, Q (.inr (content, usage)) →
      Shifts (Sane G) I' F F' P P' (commitVersion env state plan attempt content usage))
    (hretry : attempt < 2 → Shifts (Sane G) I' F F' P P' retry) :
    Shifts (Sane G) I' F F' P P' (runAttempt env state plan attempt body retry) := by
  unfold runAttempt
  apply Within.bind_shifts (P := fun outcome =>
    (outcome = none → attempt < 2) ∧ ∀ result, outcome = some result → Q result)
  . apply Within.tryCatch (E := F)
    . apply Within.bind hbody
      intro result hresult
      exact .pure (by simpa using hresult)
    . intro exn hexn
      split
      . apply Within.bind (within_attemptFailed hadmits hiteration hattempt hexn)
        intro _ hfirst
        exact .pure ⟨fun _ => hfirst, by simp⟩
      . exact .throw hexn
  . rintro outcome ⟨hfirst, hresult⟩
    cases outcome with
    | none => exact hretry (hfirst rfl)
    | some result =>
      cases result with
      | inl opened => exact (Within.pure (hopened opened (hresult _ rfl))).shifts
      | inr pair => exact hversion pair.1 pair.2 (hresult _ rfl)

-- An attempt that opens its stream makes no version yet.
theorem within_startAttempt {P : Pc → Prop} {retry : Prog World Exn Pc} (hattempt : 1 ≤ attempt)
    (hopened : ∀ opened, OpensStream F state plan attempt opened → P (.generating opened))
    (hretry : attempt < 2 → Within (Sane G) F P retry) :
    Within (Sane G) F P (startAttempt env state plan attempt retry) := by
  unfold startAttempt
  apply Within.bind within_restartRecord
  intro _ _
  apply Within.bind (within_commitBeginStream hadmits hpending)
  intro _ _
  apply Shifts.within (E := F) (Q := fun _ => False)
  apply shifts_runAttempt hiteration hadmits hattempt
    (Q := fun result => ∃ opened, result = .inl opened ∧ OpensStream F state plan attempt opened)
  . apply Within.bind (within_openStream hpermits)
    intro opened hopens
    exact .pure ⟨opened, rfl, hopens⟩
  . rintro opened ⟨_, ⟨⟩, hopens⟩
    exact hopened opened hopens
  . rintro _ _ ⟨_, hinr, _⟩
    contradiction
  . intro hfirst
    exact (hretry hfirst).shifts

theorem within_retryAttempt {P : Pc → Prop} (hattempt : attempt < 2)
    (hopened : ∀ opened, OpensStream F state plan 2 opened → P (.generating opened)) :
    Within (Sane G) F P (retryAttempt env state plan attempt) := by
  unfold retryAttempt
  rw [if_pos hattempt]
  apply within_startAttempt hpermits hiteration hadmits hpending (by decide) hopened
  intro hthird
  contradiction

end Attempts

section Generation

variable {frame : GeneratorFrame} {answer : Answer (Option ProviderTextEvent)}

-- The generation waits for the next event, or it has been tried anew.
inductive Waits (F : Exn → Prop) (frame : GeneratorFrame) :
    Answer (Option ProviderTextEvent) → GeneratorFrame → Prop where
  | next {event : ProviderTextEvent} {frame' : GeneratorFrame} (hmeets : Meets frame event frame')
    (hsettles : Settles F frame'.await) : Waits F frame (.returned (some event)) frame'
  | anew {answer : Answer (Option ProviderTextEvent)} {opened : GeneratorFrame}
    (hfirst : frame.attempt = 1) (hopens : OpensStream F frame.state frame.plan 2 opened) :
    Waits F frame answer opened

theorem shifts_generatorWake (hpermits : Permits F) (hadmits : Admits G F) (hadmits' : Admits G' F')
    (hpending : ∀ p, G p → p.IsPending)
    (hiteration : ValidIteration frame.state.currentIteration) (hattempt : 1 ≤ frame.attempt)
    (hawait : Settles F frame.await) (haccepts : frame.await.accepts w answer = true)
    (hraised : ∀ exn, answer = .raised exn → F exn.toExn)
    (hcloses : answer = .returned none → Closes F frame)
    (hwritten : answer = .returned none → ∀ content version,
      PrdDocument.validateGeneratedPrd frame.content frame.finishReason = .ok content →
      Composed frame.state frame.plan content version → ∀ p, G p → G' (p.written version)) :
    Shifts (Sane G) (Sane G') F F'
      (fun pc => ∃ opened, pc = .generating opened ∧ Waits F frame answer opened)
      (fun pc => answer = .returned none ∧ pc = .reviewing fun _ => .ready)
      (generatorWake env frame answer) := by
  unfold generatorWake
  apply shifts_runAttempt hiteration hadmits hattempt
    (within_resumeStream hpermits hadmits hpending hawait haccepts hraised hcloses)
  . rintro opened ⟨event, rfl, hmeets, hsettles⟩
    exact ⟨opened, rfl, .next hmeets hsettles⟩
  . rintro content usage ⟨hanswer, hvalid⟩
    apply Shifts.mono (shifts_commitVersion hpermits hiteration hadmits' hpending hattempt
      (hwritten hanswer content · hvalid))
    . intro _ hfalse
      exact hfalse.elim
    . intro _ hpc
      exact ⟨hanswer, hpc⟩
  . intro hfirst
    apply Within.shifts
    apply within_retryAttempt hpermits hiteration hadmits hpending hfirst
    intro opened hopens
    exact ⟨opened, rfl, .anew (by omega) hopens⟩

end Generation

section Nodes

theorem within_begin (hadmits : Admits G F) :
    Within (Sane G) F (fun pc => pc = .toGenerator) (begin env) := by
  unfold begin
  apply Within.bind within_get
  intro w _
  apply Within.bind within_utcNow
  intro now _
  apply Within.bind
  . apply within_commit hadmits
    apply within_modify
    intro s
    rfl
  . intro _ _
    exact .pure rfl

theorem within_generatorNode (hpermits : Permits F) (hadmits : Admits G F)
    (hpending : ∀ p, G p → p.IsPending) :
    Within (Sane G) F
      (fun pc => ∃ state attempt opened, pc = .generating opened ∧ G state.plot ∧ 1 ≤ attempt
        ∧ attempt ≤ 2 ∧ OpensStream F state state.pendingRevisionPlan attempt opened)
      (generatorNode env) := by
  unfold generatorNode
  apply Within.bind (within_checkCancel hpermits)
  intro _ _
  apply Within.bind (within_setStage hadmits rfl)
  intro state hstate
  have hiteration : ValidIteration state.currentIteration := hadmits.iteration _ hstate
  apply Within.bind (within_markNode hadmits)
  intro _ _
  dsimp only
  apply Within.bind within_restartRecord
  intro _ _
  apply within_startAttempt hpermits hiteration hadmits hpending (Nat.le_refl 1)
  . intro opened hopens
    exact ⟨state, 1, opened, rfl, hstate, Nat.le_refl 1, by decide, hopens⟩
  . intro hfirst
    apply within_retryAttempt hpermits hiteration hadmits hpending hfirst
    intro opened hopens
    exact ⟨state, 2, opened, rfl, hstate, by decide, Nat.le_refl 2, hopens⟩

theorem length_modifyLast {α : Type} (f : α → α) (l : List α) : (l.modifyLast f).length = l.length := by
  rcases List.eq_nil_or_concat l with rfl | ⟨l', a, rfl⟩
  . rfl
  . simp [List.modifyLast_concat]

theorem shifts_commitEvaluation (hadmits : Admits G' F') {state : RunSnapshot}
    {evaluation : EvaluationResult} (hjudged : ∀ p, G p → G' (p.judged evaluation))
    (hconcluded : ∀ p, G' p → G' p.concluded) :
    Shifts (Sane G) (Sane G') F F' (fun _ => False) (fun pc => pc = .routing ∨ pc = .aggregatorParked)
      (commitEvaluation env state evaluation) := by
  unfold commitEvaluation
  dsimp only
  apply Shifts.bind
  . apply shifts_commit hadmits
    intro s hs
    have hplot : ∀ bestScore bestVersion,
        (aggregate evaluation bestScore bestVersion s).plot = s.plot.judged evaluation := by
      intro bestScore bestVersion
      simp [RunSnapshot.plot, Plot.judged, aggregate, length_modifyLast]
    rw [wp_modify, hplot]
    exact hjudged s.plot hs
  . intro state' _
    split
    . apply Within.bind (within_conclude hadmits rfl hconcluded)
      intro _ _
      exact .pure (.inl rfl)
    . split
      . apply Within.bind (within_conclude hadmits rfl hconcluded)
        intro _ _
        exact .pure (.inl rfl)
      . split
        . apply Within.bind (within_enterPaused hadmits)
          intro _ _
          exact .pure (.inr rfl)
        . apply Within.bind (within_setStage hadmits rfl)
          intro _ _
          exact .pure (.inl rfl)

theorem shifts_aggregatorNode (hpermits : Permits F) (hadmits : Admits G F) (hadmits' : Admits G' F')
    (hreviews : ∀ p, G p → ∀ role, ∃ review, p.reviews role = some review ∧ review.role = role)
    (hjudged : ∀ q evaluation, G q → q.JudgedBy evaluation → ∀ p, G p → G' (p.judged evaluation))
    (hconcluded : ∀ p, G' p → G' p.concluded) :
    Shifts (Sane G) (Sane G') F F' (fun _ => False) (fun pc => pc = .routing ∨ pc = .aggregatorParked)
      (aggregatorNode env) := by
  unfold aggregatorNode
  apply Within.bind_shifts (within_checkCancel hpermits)
  intro _ _
  apply Within.bind_shifts (within_setStage hadmits rfl)
  intro _ _
  apply Within.bind_shifts (within_markNode hadmits)
  intro _ _
  apply Within.bind_shifts within_get
  intro w h
  obtain ⟨tech, htech, htechRole⟩ := hreviews _ h.1 .tech
  obtain ⟨ux, hux, huxRole⟩ := hreviews _ h.1 .ux
  obtain ⟨biz, hbiz, hbizRole⟩ := hreviews _ h.1 .biz
  change w.snapshot.reviews .tech = some tech at htech
  change w.snapshot.reviews .ux = some ux at hux
  change w.snapshot.reviews .biz = some biz at hbiz
  dsimp only
  rw [htech, hux, hbiz]
  obtain ⟨evaluation, hsome, rfl, rfl, rfl, _⟩ := EvaluationResult.validate?_average htechRole huxRole
    hbizRole (tech.feedback ++ ux.feedback ++ biz.feedback)
  dsimp only
  rw [hsome]
  exact shifts_commitEvaluation hadmits' (hjudged _ evaluation h.1 ⟨htech, hux, hbiz⟩) hconcluded

theorem within_aggregatorWake (hpermits : Permits F) :
    Within (Sane G) F (fun pc => pc = .routing) (aggregatorWake env) := by
  unfold aggregatorWake
  apply Within.bind (within_checkCancel hpermits)
  intro _ _
  exact .pure rfl

end Nodes

section Optimizer

variable {frame : NodeFrame} {structured : StructuredPc} {answer : Answer ProviderStructuredResult}

-- The optimizer is parked, or it has called for a plan.
def Enters (G : Plot → Prop) (F : Exn → Prop) (pc : Pc) : Prop :=
  (∃ staged, pc = .optimizerParked staged)
    ∨
  ∃ frame structured, pc = .optimizing frame structured ∧ Called G F frame structured

variable (hpermits : Permits F) (hadmits : Admits G F)

include hpermits hadmits

section Start

variable (hevaluated : ∀ p, G p → p.latestEvaluation ≠ none)

include hevaluated

theorem within_startOptimizer : Within (Sane G) F (Enters G F) (startOptimizer env) := by
  unfold startOptimizer
  apply Within.bind within_monotonic
  intro started _
  apply Within.bind (within_markNode hadmits)
  intro _ _
  apply Within.bind within_get
  intro w h
  have hsome : w.snapshot.latestEvaluation ≠ none := hevaluated _ h.1
  split
  . next hnone => exact absurd hnone hsome
  . apply Within.bind (within_structuredCall hpermits)
    intro structured hstructured
    exact .pure (.inr ⟨_, _, rfl, h.1, hstructured⟩)

theorem within_stageOptimizer : Within (Sane G) F (Enters G F) (stageOptimizer env) := by
  unfold stageOptimizer
  apply Within.bind (within_setStage hadmits rfl)
  intro stage _
  split
  . apply Within.bind (within_enterPaused hadmits)
    intro _ _
    exact .pure (.inl ⟨_, rfl⟩)
  . exact within_startOptimizer hpermits hadmits hevaluated

theorem within_optimizerNode : Within (Sane G) F (Enters G F) (optimizerNode env) := by
  unfold optimizerNode
  apply Within.bind (within_checkCancel hpermits)
  intro _ _
  apply Within.bind within_get
  intro w _
  split
  . apply Within.bind (within_enterPaused hadmits)
    intro _ _
    exact .pure (.inl ⟨_, rfl⟩)
  . exact within_stageOptimizer hpermits hadmits hevaluated

theorem within_optimizerUnpark {staged : Bool} :
    Within (Sane G) F (Enters G F) (optimizerUnpark env staged) := by
  unfold optimizerUnpark
  apply Within.bind (within_checkCancel hpermits)
  intro _ _
  split
  . apply Within.bind (within_setStage hadmits rfl)
    intro _ _
    exact within_startOptimizer hpermits hadmits hevaluated
  . exact within_stageOptimizer hpermits hadmits hevaluated

end Start

omit hadmits

variable (hadmits' : Admits G' F') (hiteration : ValidIteration frame.state.currentIteration)

include hadmits' hiteration

theorem shifts_commitPlan {result : ProviderStructuredResult} {plan : RevisionPlan}
    (hwritten : ∀ p, G p → p.IsWritten) (hadvanced : ∀ p, G p → G' p.advanced) :
    Shifts (Sane G) (Sane G') F F' (fun _ => False) (fun pc => pc = .toGenerator)
      (commitPlan env frame result plan) := by
  unfold commitPlan
  apply Within.bind_shifts (within_checkCancel hpermits)
  intro _ _
  apply Within.bind_shifts within_get
  intro w _
  apply Shifts.bind
  . apply shifts_commit hadmits'
    intro s hs
    unfold finishOptimizer
    split
    . exact ⟨rfl, hpermits.cancelled⟩
    . have hiteration' : s.currentIteration = s.versions.length := hwritten _ hs
      have hplot : ({
          s with
          pendingRevisionPlan := some plan
          pendingUserOverride := none
          nodeStatuses := Function.update s.nodeStatuses .optimizer .succeeded
          activeNode := none
          currentIteration := s.currentIteration + 1
          reviews := fun _ => none
        } : RunSnapshot).plot = s.plot.advanced := by
        simp [RunSnapshot.plot, Plot.advanced, hiteration']
      rw [wp_modify, hplot]
      exact hadvanced s.plot hs
  . intro _ _
    apply Within.bind (within_recordUsage hadmits')
    intro _ _
    apply Within.bind within_monotonic
    intro now _
    apply Within.bind (within_recordTiming hadmits' hiteration (Nat.le_refl 1))
    intro _ _
    apply Within.bind (within_setStage hadmits' rfl)
    intro _ _
    exact .pure rfl

theorem shifts_optimizerWake {env : WorkflowEnv} (hevaluated : frame.state.latestEvaluation ≠ none)
    (hawait : Settles F structured.await) (haccepts : structured.await.accepts w answer = true)
    (hraised : ∀ exn, answer = .raised exn → F exn.toExn)
    (hinvalid : ∀ result await, structured = .repairing result await →
      Unread env.revisionPlan answer → F .validationError)
    (hwritten : ∀ p, G p → p.IsWritten)
    (hadvanced : ∀ plan, Answers env.revisionPlan answer plan → ∀ p, G p → G' p.advanced) :
    Shifts (Sane G) (Sane G') F F'
      (fun pc =>
        ∃ next, pc = .optimizing frame next ∧ AwaitsCall F (Unread env.revisionPlan answer) next)
      (fun pc => pc = .toGenerator) (optimizerWake env frame structured answer) := by
  unfold optimizerWake
  split
  . next hnone => exact absurd hnone hevaluated
  . apply Within.bind_shifts (within_structuredWake hpermits hawait haccepts hraised hinvalid)
    intro outcome houtcome
    cases outcome with
    | inl next => exact (Within.pure ⟨next, rfl, houtcome⟩).shifts
    | inr pair =>
      obtain ⟨result, plan⟩ := pair
      apply Shifts.mono
        (shifts_commitPlan hpermits hadmits' hiteration hwritten (hadvanced plan houtcome))
      . intro _ hfalse
        exact hfalse.elim
      . intro _ hpc
        exact hpc

end Optimizer

end Workflow

end AgenticPrd
