import AgenticPrd.Backend.Workflow.Nodes

/-!
Every step of a run keeps the invariant: a step of the workflow or of a reviewer by the rule of the
node, and a control request because it finds the run in a status that the node allows for.
-/

namespace AgenticPrd

namespace Workflow

open RunManager Prog Transition

variable {origin w : World}

section Task

variable {env : Env}

theorem wp_begin_sound (h : Suspended origin .created w) : wp (begin env) w (Suspended origin) (Raised origin) := by
  have hw := h.sound
  obtain ⟨hat, hlive, hstreams⟩ := h.pc
  unfold begin
  rw [wp_bind, wp_get, wp_bind]
  apply wp_utcNow_sound hw
  intro now w1 hw1 hview1
  rw [wp_bind]
  apply wp_commit_quiet hw1 rfl rfl rfl
  . simp [RunEventType.ending, RunEventType.isStream]
  . exact .started
  . intro w2 hw2 hview2
    rw [wp_pure]
    refine { sound := hw2, pc := ?_ }
    rw [hview2, hview1]
    exact ⟨hat, hlive.mono (by simp), hstreams⟩

theorem Raised.finished {exn : Exn} (h : Raised origin exn w)
    (hended : w.cancelSignal = true ∨ w.view.status.isTerminal = true) :
    Suspended origin (.finished (some exn)) w := by
  refine { sound := h.sound, pc := ⟨h.steady.stage, ?_, ?_⟩ }
  . cases h.steady.live with
    | inl hcancelled => exact .inl hcancelled
    | inr hlive =>
      obtain ⟨hcancel, hnot, _⟩ := hlive
      have hterminal : w.view.status.isTerminal = true := by
        cases hended with
        | inl hset =>
          have hclear : w.cancelSignal = false := hcancel
          rw [hset] at hclear
          contradiction
        | inr hterminal => exact hterminal
      right
      refine ⟨hcancel, ?_⟩
      generalize w.view.status = status at hterminal hnot
      cases status <;> simp_all [RunStatus.isTerminal]
  . intro e he
    cases he
    exact h.legal

theorem wp_failUnlessCancelled_sound {exn : Exn} {code message : String} {retryable : Bool}
    {E : Exn → World → Prop} (h : Raised origin exn w) (hcode : LengthIn code 100)
    (hmessage : 1 ≤ message.length) :
    wp (failUnlessCancelled env code message retryable) w
      (fun _ => Suspended origin (.finished (some exn))) E := by
  unfold failUnlessCancelled
  rw [wp_bind, wp_get, wp_ite]
  split
  . next hset =>
    have hcancelled := h.steady.live
    rw [wp_bind]
    apply wp_finalizeCancel_idle
    . rcases hcancelled with hcancelled | hlive
      . rw [hcancelled.2]
        simp
      . exact hlive.2.2
    . exact h.finished (.inl hset)
  . next hclear =>
    rw [wp_bind]
    apply wp_failRun_sound h.sound hcode hmessage
    . intro hterminal
      exact h.finished (.inr hterminal)
    . intro hopen w1 hw1 hview1
      obtain ⟨stage, hat⟩ := h.steady.stage
      have hcancel : w.cancelSignal = false := by simpa using hclear
      refine { sound := hw1, pc := ⟨⟨stage, ?_⟩, ?_, ?_⟩ }
      . rw [hview1]
        apply hat.withStatus
        . rfl
        . exact RunStatus.not_outcome hopen
        . simp [View.withStatus]
      . rw [hview1]
        right
        exact ⟨hcancel, by simp [View.withStatus]⟩
      . intro e he
        cases he
        exact h.legal

theorem wp_workflowExcept_sound {exn : Exn} (h : Raised origin exn w) :
    wp (workflowExcept env exn) w (Suspended origin) fun _ _ => False := by
  unfold workflowExcept
  rw [wp_tryCatch, wp_bind]
  cases exn with
  | workflowCancelled =>
    have hset := h.cancelled rfl
    unfold runExcept
    rw [wp_bind]
    apply wp_finalizeCancel_idle
    . rcases h.steady.live with hcancelled | hlive
      . rw [hcancelled.2]
        simp
      . exact hlive.2.2
    . exact h.finished (.inl hset)
  | providerError error =>
    exact wp_failUnlessCancelled_sound h error.code_length error.userMessage_length.1
  | timeoutError => exact wp_failUnlessCancelled_sound h (by decide) (by decide)
  | validationError => exact wp_failUnlessCancelled_sound h (by decide) (by decide)
  | _ =>
    -- `run` handles no other exception, and `_run_workflow` does.
    unfold runExcept
    rw [wp_throw, wp_bind]
    exact wp_failUnlessCancelled_sound h (by decide) (by decide)

theorem Keeps.runTask {program : Prog World Exn Pc} (h : wp program w (Suspended origin) (Raised origin)) :
    Keeps origin (runTask env program w) := by
  have htask : wp (tryCatch program (workflowExcept env)) w (Suspended origin) fun _ _ => False := by
    rw [wp_tryCatch]
    apply wp_mono h
    . intro pc w' hsuspended
      exact hsuspended
    . intro exn w' hraised
      exact wp_workflowExcept_sound hraised
  unfold Workflow.runTask
  unfold wp at htask
  split
  . next heq =>
    rw [heq] at htask
    exact htask
  . next heq =>
    rw [heq] at htask
    contradiction

end Task

section Reviewers

variable {role : ReviewRole} {reviewers : ReviewRole → ReviewerPc}

theorem ReviewerInv.frame {v v' : View} {pc : ReviewerPc} (h : ReviewerInv v role pc)
    (hcancel : v.cancelSignal = true → v'.cancelSignal = true)
    (hreviews : v'.loop.reviews role = v.loop.reviews role) : ReviewerInv v' role pc := by
  have hawait : ∀ await, AwaitInv v await → AwaitInv v' await := by
    intro await hinv
    cases await with
    | waiting => trivial
    | settling exn => exact ⟨hinv.1, fun heq => hcancel (hinv.2 heq)⟩
  cases pc with
  | ready => trivial
  | suspended frame structured => exact ⟨h.1, hawait _ h.2⟩
  | done =>
    unfold ReviewerInv
    rw [hreviews]
    exact h
  | raised exn => exact ⟨h.1, fun heq => hcancel (h.2 heq)⟩

theorem At.reviews {v : View} {stage : Stage} (h : At v stage)
    (reviews : ReviewRole → Option RoleReview) :
    At { v with loop := { v.loop with reviews } } stage := by
  have hshape := h.shape
  exact {
    shape := {
      numbered := hshape.numbered
      bounded := hshape.bounded
      iteration_le := hshape.iteration_le
      max_le := hshape.max_le
      iteration := hshape.iteration
      earlier := hshape.earlier
      streams := hshape.streams
      streams_later := hshape.streams_later
    }
    facts := by
      have hfacts := h.facts
      cases stage <;> exact hfacts
    completed := h.completed
    exhausted := h.exhausted
  }

theorem Suspended.reviewer {w' : World} {pc : ReviewerPc} (h : Suspended origin (.reviewing reviewers) w)
    (hpc : Reviewing origin role w.view pc w') :
    Suspended origin (.reviewing (Function.update reviewers role pc)) w' := by
  obtain ⟨hat, hlive, hinv⟩ := h.pc
  obtain ⟨reviews, hview, hothers⟩ := hpc.view
  refine { sound := hpc.sound, pc := ⟨?_, ?_, ?_⟩ }
  . rw [hview]
    exact hat.reviews reviews
  . rw [hview]
    exact hlive
  . intro other
    by_cases hother : other = role
    . rw [hother, Function.update_self]
      exact hpc.pc
    . rw [Function.update_of_ne hother]
      apply (hinv other).frame
      . rw [hview]
        exact id
      . rw [hview]
        exact hothers other hother

theorem Keeps.runReviewer {program : Prog World Exn ReviewerPc}
    (h : Suspended origin (.reviewing reviewers) w)
    (hprogram : wp program w (Reviewing origin role w.view)
      fun exn => Reviewing origin role w.view (.raised exn)) :
    Keeps origin (runReviewer role reviewers program w) := by
  unfold Workflow.runReviewer
  unfold wp at hprogram
  split
  . next heq =>
    rw [heq] at hprogram
    exact h.reviewer hprogram
  . next heq =>
    rw [heq] at hprogram
    exact h.reviewer hprogram

theorem Suspended.steady (h : Suspended origin (.reviewing reviewers) w) : Steady w.view := by
  obtain ⟨hat, hlive, _⟩ := h.pc
  exact Steady.of_live hat hlive (by simp) (by simp)

theorem Suspended.raised {exn : Exn} (h : Suspended origin (.reviewing reviewers) w)
    (hraised : reviewers role = .raised exn) : Raised origin exn w := by
  obtain ⟨_, _, hinv⟩ := h.pc
  have hrole := hinv role
  rw [hraised] at hrole
  exact {
    sound := h.sound
    steady := h.steady
    legal := hrole.1
    cancelled := hrole.2
  }

theorem Suspended.joined (h : Suspended origin (.reviewing reviewers) w)
    (hdone : ∀ role, (reviewers role).isDone = true) : Suspended origin .toAggregator w := by
  obtain ⟨hat, hlive, hinv⟩ := h.pc
  refine { sound := h.sound, pc := ⟨hat, hlive, ?_⟩ }
  intro role
  have hrole := hinv role
  have hisDone := hdone role
  cases hpc : reviewers role with
  | done =>
    rw [hpc] at hrole
    exact hrole
  | _ =>
    rw [hpc] at hisDone
    contradiction

theorem Keeps.stepReviewer {env : WorkflowEnv} {label : Label} {c : Config}
    (h : Suspended origin (.reviewing reviewers) w)
    (hstep : stepReviewer env w reviewers label = some c) : Keeps origin c := by
  cases label with
  | reviewerEnter role =>
    dsimp only [Workflow.stepReviewer] at hstep
    split at hstep
    . cases hstep
      exact Keeps.runReviewer h (wp_reviewerNode_sound h.sound h.pc.1 h.pc.2.1)
    . contradiction
  | reviewerWake role answer =>
    dsimp only [Workflow.stepReviewer] at hstep
    split at hstep
    . next frame structured hpc =>
      split at hstep
      . next haccepts =>
        cases hstep
        apply Keeps.runReviewer h
        apply wp_reviewerWake_sound h.sound h.pc.1 h.pc.2.1 _ haccepts
        rw [← hpc]
        exact h.pc.2.2 role
      . contradiction
    . contradiction
  | reviewersJoin =>
    dsimp only [Workflow.stepReviewer] at hstep
    split at hstep
    . next hdone =>
      cases hstep
      apply h.joined
      simp only [Bool.and_eq_true] at hdone
      intro role
      cases role with
      | tech => exact hdone.1.1
      | ux => exact hdone.1.2
      | biz => exact hdone.2
    . contradiction
  | reviewersFail role =>
    dsimp only [Workflow.stepReviewer] at hstep
    split at hstep
    . next exn hpc =>
      cases hstep
      apply Keeps.runTask
      rw [wp_throw]
      exact h.raised hpc
    . contradiction
  | _ => contradiction

end Reviewers

section Requests

def pausable : List RunStatus :=
  [.generating, .reviewing, .aggregating, .optimizing]

def paused (v : View) : View :=
  v.withStatus .pauseRequested

def cancelled (v : View) : View :=
  { v.withStatus .cancelled with cancelSignal := true, resumeSignal := true }

variable {v : View} {stage : Stage} {statuses : List RunStatus}

theorem At.paused (h : At v stage) (hstatus : v.status ∈ pausable) : At (paused v) stage := by
  apply h.withStatus
  . rfl
  . generalize v.status = status at hstatus
    cases status <;> simp_all [pausable]
  . simp [Workflow.paused, View.withStatus]

theorem Live.paused (h : Live statuses v) (hstatus : v.status ∈ pausable)
    (hmem : RunStatus.pauseRequested ∈ statuses) : Live statuses (paused v) := by
  cases h with
  | inl hcancelled =>
    rw [hcancelled.2] at hstatus
    simp [pausable] at hstatus
  | inr hlive => exact .inr ⟨hlive.1, hmem⟩

-- Nothing but its status makes a run miss a pause request.
theorem Live.not_pausable (h : Live statuses v) (hstatus : v.status ∈ pausable)
    (hnone : ∀ status ∈ statuses, status ∉ pausable) : False := by
  cases h with
  | inl hcancelled =>
    rw [hcancelled.2] at hstatus
    simp [pausable] at hstatus
  | inr hlive => exact hnone v.status hlive.2 hstatus

theorem Parked.paused (h : Parked v) (hstatus : v.status ∈ pausable) : Parked (paused v) := by
  refine ⟨h.1.paused hstatus (by simp), ?_⟩
  intro hcancel
  have hresume := h.2 hcancel
  have hnot : v.status ≠ .paused := by
    intro heq
    rw [heq] at hstatus
    simp [pausable] at hstatus
  change RunStatus.pauseRequested = .paused ↔ v.resumeSignal = false
  rw [← hresume]
  simp [hnot]

theorem PcInv.paused {pc : Pc} (h : PcInv v pc) (hstatus : v.status ∈ pausable) :
    PcInv (paused v) pc := by
  cases pc with
  | created => exact (h.2.1.not_pausable hstatus (by decide)).elim
  | toGenerator =>
    obtain ⟨hat, hlive, hstreams⟩ := h
    exact ⟨hat.paused hstatus, hlive.paused hstatus (by simp), hstreams⟩
  | generating frame =>
    obtain ⟨hgenerating, hframe⟩ := h
    refine ⟨?_, hframe⟩
    exact {
      stage := hgenerating.stage.paused hstatus
      live := hgenerating.live.paused hstatus (by simp)
      iteration := hgenerating.iteration
      streams := hgenerating.streams
      attempt := hgenerating.attempt
      plan := hgenerating.plan
    }
  | reviewing reviewers =>
    obtain ⟨hat, hlive, hinv⟩ := h
    refine ⟨hat.paused hstatus, hlive.paused hstatus (by simp), ?_⟩
    intro role
    exact (hinv role).frame id rfl
  | toAggregator =>
    obtain ⟨hat, hlive, hreviews⟩ := h
    exact ⟨hat.paused hstatus, hlive.paused hstatus (by simp), hreviews⟩
  | aggregatorParked => exact ⟨h.1.paused hstatus, h.2.paused hstatus⟩
  | routing =>
    rcases h with ⟨hat, hlive⟩ | ⟨_, hlive⟩ | ⟨_, hlive⟩
    . exact .inl ⟨hat.paused hstatus, hlive.paused hstatus (by simp)⟩
    . exact (hlive.not_pausable hstatus (by decide)).elim
    . exact (hlive.not_pausable hstatus (by decide)).elim
  | toOptimizer => exact ⟨h.1.paused hstatus, h.2.paused hstatus (by simp)⟩
  | optimizerParked staged => exact ⟨h.1.paused hstatus, h.2.paused hstatus⟩
  | optimizing frame structured =>
    obtain ⟨hat, hlive, hcurrent, hstructured⟩ := h
    refine ⟨hat.paused hstatus, hlive.paused hstatus (by simp), ?_, hstructured⟩
    exact ⟨hcurrent.iteration, hcurrent.userOverride⟩
  | finished exn => exact (h.2.1.not_pausable hstatus (by decide)).elim

theorem Live.not_paused (h : Live statuses v) (hstatus : v.status = .paused)
    (hnone : RunStatus.paused ∉ statuses) : False := by
  cases h with
  | inl hcancelled =>
    rw [hcancelled.2] at hstatus
    contradiction
  | inr hlive =>
    rw [hstatus] at hlive
    exact hnone hlive.2

theorem PcInv.parked {pc : Pc} (h : PcInv v pc) (hstatus : v.status = .paused) :
    ∃ label, wake pc = some label := by
  cases pc with
  | created => exact (h.2.1.not_paused hstatus (by decide)).elim
  | toGenerator => exact (h.2.1.not_paused hstatus (by decide)).elim
  | generating frame => exact (h.1.live.not_paused hstatus (by decide)).elim
  | reviewing reviewers => exact (h.2.1.not_paused hstatus (by decide)).elim
  | toAggregator => exact (h.2.1.not_paused hstatus (by decide)).elim
  | aggregatorParked => exact ⟨_, rfl⟩
  | routing =>
    rcases h with ⟨_, hlive⟩ | ⟨_, hlive⟩ | ⟨_, hlive⟩ <;>
      exact (hlive.not_paused hstatus (by decide)).elim
  | toOptimizer => exact (h.2.not_paused hstatus (by decide)).elim
  | optimizerParked staged => exact ⟨_, rfl⟩
  | optimizing frame structured => exact (h.2.1.not_paused hstatus (by decide)).elim
  | finished exn => exact (h.2.1.not_paused hstatus (by decide)).elim

theorem At.withOverride (h : At v stage) (userOverride : Option String) :
    At { v with loop := { v.loop with pendingUserOverride := userOverride } } stage := by
  have hshape := h.shape
  exact {
    shape := {
      numbered := hshape.numbered
      bounded := hshape.bounded
      iteration_le := hshape.iteration_le
      max_le := hshape.max_le
      iteration := hshape.iteration
      earlier := hshape.earlier
      streams := hshape.streams
      streams_later := hshape.streams_later
    }
    facts := by
      have hfacts := h.facts
      cases stage <;> exact hfacts
    completed := h.completed
    exhausted := h.exhausted
  }

theorem PcInv.resumed {userOverride : Option String} {pc : Pc} (h : PcInv v pc)
    (hstatus : v.status = .paused) : PcInv (resumedView userOverride v) pc := by
  have hparked : At v .judged ∧ Parked v → At (resumedView userOverride v) .judged
      ∧ Parked (resumedView userOverride v) := by
    rintro ⟨hat, hlive, hsignal⟩
    refine ⟨?_, ?_, ?_⟩
    . apply (hat.withOverride userOverride).withStatus
      . rfl
      . simp [hstatus]
      . simp [resumedView, View.withStatus]
    . cases hlive with
      | inl hcancelled =>
        rw [hstatus] at hcancelled
        simp at hcancelled
      | inr hlive => exact .inr ⟨hlive.1, by simp [resumedView, View.withStatus]⟩
    . simp [resumedView, View.withStatus]
  cases pc with
  | aggregatorParked => exact hparked h
  | optimizerParked staged => exact hparked h
  | _ =>
    obtain ⟨label, hlabel⟩ := h.parked hstatus
    contradiction

theorem At.cancelled (h : At v stage) (hopen : v.status.isTerminal = false) :
    At (cancelled v) stage := by
  apply h.withStatus
  . rfl
  . exact RunStatus.not_outcome hopen
  . simp [Workflow.cancelled, View.withStatus]

theorem Live.cancelled : Live statuses (cancelled v) :=
  .inl ⟨rfl, rfl⟩

theorem Parked.cancelled : Parked (cancelled v) :=
  ⟨Live.cancelled, by simp [Workflow.cancelled]⟩

theorem AwaitInv.cancelled {await : Await} (h : AwaitInv v await) :
    AwaitInv (cancelled v) await := by
  cases await with
  | waiting => trivial
  | settling exn => exact ⟨h.1, fun _ => rfl⟩

theorem PcInv.cancelled {pc : Pc} (h : PcInv v pc) (hopen : v.status.isTerminal = false) :
    PcInv (cancelled v) pc := by
  cases pc with
  | created => exact ⟨h.1.cancelled hopen, Live.cancelled, h.2.2⟩
  | toGenerator => exact ⟨h.1.cancelled hopen, Live.cancelled, h.2.2⟩
  | generating frame =>
    obtain ⟨hgenerating, hplan, hattempt, hawait⟩ := h
    refine ⟨?_, hplan, hattempt, hawait.cancelled⟩
    exact {
      stage := hgenerating.stage.cancelled hopen
      live := Live.cancelled
      iteration := hgenerating.iteration
      streams := hgenerating.streams
      attempt := hgenerating.attempt
      plan := hgenerating.plan
    }
  | reviewing reviewers =>
    obtain ⟨hat, hlive, hinv⟩ := h
    refine ⟨hat.cancelled hopen, Live.cancelled, ?_⟩
    intro role
    apply (hinv role).frame
    . intro _
      rfl
    . rfl
  | toAggregator => exact ⟨h.1.cancelled hopen, Live.cancelled, h.2.2⟩
  | aggregatorParked => exact ⟨h.1.cancelled hopen, Parked.cancelled⟩
  | routing =>
    rcases h with ⟨hat, _⟩ | ⟨hat, _⟩ | ⟨hat, _⟩
    . exact .inl ⟨hat.cancelled hopen, Live.cancelled⟩
    . exact .inr (.inl ⟨hat.cancelled hopen, Live.cancelled⟩)
    . exact .inr (.inr ⟨hat.cancelled hopen, Live.cancelled⟩)
  | toOptimizer => exact ⟨h.1.cancelled hopen, Live.cancelled⟩
  | optimizerParked staged => exact ⟨h.1.cancelled hopen, Parked.cancelled⟩
  | optimizing frame structured =>
    obtain ⟨hat, _, hcurrent, hstructured⟩ := h
    refine ⟨hat.cancelled hopen, Live.cancelled, ?_, AwaitInv.cancelled hstructured⟩
    exact ⟨hcurrent.iteration, hcurrent.userOverride⟩
  | finished exn =>
    obtain ⟨⟨stage, hat⟩, _, hlegal⟩ := h
    exact ⟨⟨stage, hat.cancelled hopen⟩, Live.cancelled, hlegal⟩

theorem serve_world {P : World → Prop} {c : Config} {request : Prog World Exn RunSnapshot}
    (hrequest : wp request c.world (fun _ => P) (fun _ => P)) : P (serve c request).world := by
  unfold serve
  unfold wp at hrequest
  split at hrequest
  . next heq =>
    rw [heq]
    exact hrequest
  . next heq =>
    rw [heq]
    exact hrequest

theorem Keeps.serve {c : Config} {request : Prog World Exn RunSnapshot}
    (hrequest : wp request c.world (fun _ => Suspended origin c.pc) (fun _ => Suspended origin c.pc)) :
    Keeps origin (serve c request) :=
  serve_world hrequest

theorem Keeps.requestPause {env : Env} {c : Config} (h : Keeps origin c) :
    Keeps origin (Workflow.serve c (RunManager.requestPause env)) := by
  apply Keeps.serve
  apply wp_requestPause_sound h.sound h
  intro hstatus w' hw' hview'
  refine { sound := hw', pc := ?_ }
  rw [hview']
  exact h.pc.paused hstatus

theorem Keeps.resumeRun {env : Env} {c : Config} {userOverride : Option String} (h : Keeps origin c) :
    Keeps origin (Workflow.serve c (RunManager.resumeRun env userOverride)) := by
  apply Keeps.serve
  apply wp_resumeRun_sound h.sound (fun _ _ => h)
  intro hstatus w' hw' hview'
  refine { sound := hw', pc := ?_ }
  rw [hview']
  exact h.pc.resumed hstatus

theorem Keeps.cancelRun {env : Env} {c : Config} (h : Keeps origin c) :
    Keeps origin (Workflow.serve c (RunManager.cancelRun env)) := by
  apply Keeps.serve
  apply wp_cancelRun_sound h.sound (fun _ => h) (fun _ _ => h)
  intro hopen w' hw' hview'
  refine { sound := hw', pc := ?_ }
  rw [hview']
  exact h.pc.cancelled hopen

end Requests

theorem Keeps.stepTask {env : WorkflowEnv} {pc : Pc} {label : Label} {c : Config}
    (h : Suspended origin pc w) (hstep : stepTask env w pc label = some c) : Keeps origin c := by
  unfold Workflow.stepTask at hstep
  split at hstep
  . cases hstep
    exact Keeps.runTask (wp_begin_sound h)
  . cases hstep
    exact Keeps.runTask (wp_generatorNode_sound h)
  . split at hstep
    . next haccepts =>
      cases hstep
      exact Keeps.runTask (wp_generatorWake_sound h haccepts)
    . contradiction
  . exact Keeps.stepReviewer h hstep
  . cases hstep
    exact Keeps.runTask (wp_aggregatorNode_sound h)
  . split at hstep
    . next hreleased =>
      cases hstep
      exact Keeps.runTask (wp_aggregatorWake_sound h hreleased)
    . contradiction
  . cases hstep
    exact Keeps.runTask (wp_routeAfterAggregate_sound h)
  . cases hstep
    exact Keeps.runTask (wp_optimizerNode_sound h)
  . split at hstep
    . next hreleased =>
      cases hstep
      exact Keeps.runTask (wp_optimizerUnpark_sound h hreleased)
    . contradiction
  . split at hstep
    . next haccepts =>
      cases hstep
      exact Keeps.runTask (wp_optimizerWake_sound h haccepts)
    . contradiction
  . contradiction

theorem Keeps.step {env : WorkflowEnv} {label : Label} {c c' : Config} (h : Keeps origin c)
    (hstep : step env c label = some c') : Keeps origin c' := by
  cases label with
  | requestPause =>
    cases hstep
    exact h.requestPause
  | resumeRun userOverride =>
    cases hstep
    exact h.resumeRun
  | cancelRun =>
    cases hstep
    exact h.cancelRun
  | _ => exact Keeps.stepTask h hstep

theorem Keeps.steps {env : WorkflowEnv} {c c' : Config} (h : Keeps origin c)
    (hrun : Reaches (Workflow.step env) c c') : Keeps origin c' := by
  apply hrun.invariant h
  intro c l c' hc _ hstep
  exact hc.step hstep

theorem Keeps.inv {c : Config} (h : Keeps origin c) : Inv c :=
  {
    sound := h.sound.restart
    pc := h.pc
  }

section Init

variable {env : Env} {runId : RunId} {request : CreateRunRequest} {outputLanguage : String}
  {bufferSize : Nat}

theorem Holds.init {snapshot : RunSnapshot} {streams : Nat → Nat} (hversions : snapshot.versions = [])
    (hprd : snapshot.currentPrd = "") (hattempt : snapshot.currentPrdAttempt = 1) :
    Holds { version := 1, stream := none } snapshot.text streams := by
  constructor
  . simp [RunSnapshot.text, hversions]
  . exact .of_none rfl
  . simp
  . intro _
    exact .inl ⟨hprd, hattempt⟩
  . intro _ _ _
    exact ⟨hprd, hattempt⟩

theorem Sound.init {env : Env} {runId : RunId} {request : CreateRunRequest} {outputLanguage : String}
    {bufferSize : Nat} : Sound (init env runId request outputLanguage bufferSize).world
      (init env runId request outputLanguage bufferSize).world :=
  {
    grown := List.prefix_rfl
    rows_le := by simp [Workflow.init, create, SQLiteEventStore.createRun]
    iteration := by simp [ValidIteration, Workflow.init, create, createSnapshot]
    chain := by
      apply List.isChain_singleton
    last := rfl
    row_status := rfl
    latest := rfl
    row_latest := Nat.le_refl _
    ended := by simp [Workflow.init, create, SQLiteEventStore.createRun]
    closed := by simp [Workflow.init, create, createSnapshot, RunStatus.isTerminal]
    disk := by
      intro entry hentry
      simp only [Workflow.init, create, List.mem_singleton] at hentry
      rw [hentry]
      apply consistent_save
      simp
    logged := {
      increasing := List.Pairwise.nil
      le := by simp [Workflow.init, create, events]
      reached := .inl rfl
      buffered := List.nil_suffix
      rows_eq := rfl
    }
    evicted := fun _ _ hbuffered => hbuffered
    told := ⟨_, .nil, Holds.init rfl rfl rfl⟩
    history := ⟨[], rfl, .nil⟩
    rows := fun _ hrow => .inl hrow
  }

theorem Inv.init : Inv (init env runId request outputLanguage bufferSize) := by
  have hrange := request.iterations_range
  have hlive : Live [.queued] (Workflow.init env runId request outputLanguage bufferSize).world.view := by
    right
    exact ⟨rfl, List.mem_singleton.mpr rfl⟩
  refine { sound := Sound.init, pc := ⟨?_, hlive, rfl⟩ }
  exact {
    shape := {
      numbered := rfl
      bounded := Nat.zero_le _
      iteration_le := hrange.1
      max_le := hrange.2
      iteration := .inr rfl
      earlier := by simp [Workflow.init, create, createSnapshot, World.view]
      streams := by
        intro i
        exact Nat.zero_le 2
      streams_later := by
        intro i _
        rfl
    }
    facts := ⟨rfl, by simp [Workflow.init, create, createSnapshot, World.view]⟩
    completed := by simp [Workflow.init, create, createSnapshot, World.view]
    exhausted := by simp [Workflow.init, create, createSnapshot, World.view]
  }

end Init

theorem Reachable.keeps {env : WorkflowEnv} {runId : RunId} {request : CreateRunRequest}
    {outputLanguage : String} {bufferSize : Nat} {c : Config}
    (h : Reachable env runId request outputLanguage bufferSize c) :
    Keeps (init env.toEnv runId request outputLanguage bufferSize).world c :=
  Keeps.steps Inv.init h

theorem Reachable.inv {env : WorkflowEnv} {runId : RunId} {request : CreateRunRequest}
    {outputLanguage : String} {bufferSize : Nat} {c : Config}
    (h : Reachable env runId request outputLanguage bufferSize c) : Inv c :=
  h.keeps.inv

theorem Reachable.history {env : WorkflowEnv} {runId : RunId} {request : CreateRunRequest}
    {outputLanguage : String} {bufferSize : Nat} {c : Config}
    (h : Reachable env runId request outputLanguage bufferSize c) :
    History (init env.toEnv runId request outputLanguage bufferSize).world.snapshot c.world.journal
      c.world.snapshot := by
  obtain ⟨later, hjournal, hhistory⟩ := h.keeps.sound.history
  have hall : c.world.journal = later := hjournal
  rw [hall]
  exact hhistory

end Workflow

end AgenticPrd
