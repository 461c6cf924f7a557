import AgenticPrd.Backend.RunManager.Spec

/-!
One rule for each operation of the run manager, from a sound world on: it raises nothing that the
rule does not name, and the rule says what becomes of the view.
-/

namespace AgenticPrd

namespace RunManager

open Prog

variable {env : Env} {origin w : World} {E : Exn → World → Prop}

section Clock

theorem wp_monotonic_sound {Q : ℚ → World → Prop} (hw : Sound origin w)
    (hQ : ∀ now w', Sound origin w' → w'.view = w.view → Q now w') : wp (monotonic env) w Q E := by
  rw [wp_monotonic]
  apply hQ
  . exact hw.congr rfl rfl rfl rfl rfl rfl
  . rfl

theorem wp_utcNow_sound {Q : Timestamp → World → Prop} (hw : Sound origin w)
    (hQ : ∀ now w', Sound origin w' → w'.view = w.view → Q now w') : wp (utcNow env) w Q E := by
  rw [wp_utcNow]
  apply hQ
  . exact hw.congr rfl rfl rfl rfl rfl rfl
  . rfl

theorem wp_remainingRunSeconds_sound {Q : ℚ → World → Prop} (hw : Sound origin w)
    (hQ : ∀ remaining w', Sound origin w' → w'.view = w.view → Q remaining w') :
    wp (remainingRunSeconds env) w Q E := by
  obtain ⟨elapsed, ticks, _, h⟩ := activeElapsed_run env w
  unfold remainingRunSeconds
  rw [wp_bind, wp_of_run_ok h, wp_pure]
  apply hQ
  . exact hw.congr rfl rfl rfl rfl rfl rfl
  . rfl

end Clock

variable {Q : RunSnapshot → World → Prop}

theorem Lawful.quiet {s : RunSnapshot} {event : Option RunEventType} {payload : Payload}
    (hiteration : ValidIteration s.currentIteration)
    (hlatest : s.latestEventSequence = w.snapshot.latestEventSequence)
    (hstatus : s.status = w.snapshot.status)
    (hending : ∀ e ∈ event, e.ending = none)
    (htext : TextMove w.snapshot.text s.text w.view.loop.streams event payload)
    (hchange : Change w.snapshot event payload s) : Lawful w s event payload :=
  {
    iteration := hiteration
    latest := hlatest
    status := .inl hstatus
    transient := by
      intro _ _ _
      exact hstatus
    ending := by
      intro e he status hsome
      rw [hending e he] at hsome
      contradiction
    closing := by
      intro _
      exact .inl hstatus
    text := htext
    change := hchange
  }

theorem wp_commit_modify {f : RunSnapshot → RunSnapshot} {event : Option RunEventType}
    {payload : RunSnapshot → Payload} (hw : Sound origin w)
    (hlaw : Lawful w (f w.snapshot) event (payload (f w.snapshot)))
    (hQ : ∀ w', Sound origin w' → w'.view = (w.mapSnapshot f).view → Q w'.snapshot w') :
    wp (commit env .none (modify f) event payload) w Q E := by
  apply wp_commit_sound hw
  rw [wp_modify]
  exact ⟨hlaw, hQ⟩

-- A mutation that touches nothing the control flow depends on.
theorem wp_commit_quiet {f : RunSnapshot → RunSnapshot} {event : Option RunEventType}
    {payload : RunSnapshot → Payload} (hw : Sound origin w) (hview : (w.mapSnapshot f).view = w.view)
    (htext : (f w.snapshot).text = w.snapshot.text)
    (hlatest : (f w.snapshot).latestEventSequence = w.snapshot.latestEventSequence)
    (hevent : ∀ e ∈ event, e.ending = none ∧ e.isStream = false)
    (hchange : Change w.snapshot event (payload (f w.snapshot)) (f w.snapshot))
    (hQ : ∀ w', Sound origin w' → w'.view = w.view → Q w'.snapshot w') :
    wp (commit env .none (modify f) event payload) w Q E := by
  have hstatus : (f w.snapshot).status = w.snapshot.status := congrArg View.status hview
  have hiteration : (f w.snapshot).currentIteration = w.snapshot.currentIteration :=
    congrArg (fun v => v.loop.currentIteration) hview
  apply wp_commit_modify hw
  . apply Lawful.quiet
    . rw [hiteration]
      exact hw.iteration
    . exact hlatest
    . exact hstatus
    . intro e he
      exact (hevent e he).1
    . apply TextMove.keep htext
      intro e he
      exact (hevent e he).2
    . exact hchange
  . rw [hview]
    exact hQ

theorem wp_markNode_sound {node : Node} {role : Option ReviewRole} (hw : Sound origin w)
    (hopen : w.view.status.isTerminal = false) (hcalls : w.snapshot.Calls node)
    (hQ : ∀ w', Sound origin w' → w'.view = w.view → w'.snapshot.activeNode = some node →
      Q w'.snapshot w') :
    wp (markNode env node .running role) w Q E := by
  apply wp_commit_stamped hw
  rw [wp_modify]
  constructor
  . apply Lawful.quiet
    . exact hw.iteration
    . rfl
    . rfl
    . simp [RunEventType.ending]
    . exact .keep rfl (by simp [RunEventType.isStream])
    . exact .marked hopen hcalls
  . rintro w' hw' hview ⟨sequence, hstamped⟩
    apply hQ w' hw' hview
    rw [hstamped.activeNode]
    simp [markSnapshot]

theorem wp_recordUsage_sound {node : Node} {usage : TokenUsage} (hw : Sound origin w)
    (hQ : ∀ w', Sound origin w' → w'.view = w.view → Q w'.snapshot w') :
    wp (recordUsage env node usage) w Q E := by
  apply wp_commit_quiet hw rfl rfl rfl _ .used hQ
  simp [RunEventType.ending, RunEventType.isStream]

theorem wp_recordTiming_sound {node : Node} {version attempt : Nat} {seconds : ℚ}
    {succeeded : Bool} {usage : Option TokenUsage} (hw : Sound origin w) (hversion : ValidIteration version)
    (hattempt : 1 ≤ attempt) (hQ : ∀ w', Sound origin w' → w'.view = w.view → Q w'.snapshot w') :
    wp (recordTiming env node version attempt seconds succeeded usage) w Q E := by
  unfold recordTiming
  have hseconds : 0 ≤ Rounding.round (max 0 seconds) 2 := by
    have h : ((0 : ℤ) : ℚ) ≤ max 0 seconds := by simp
    exact_mod_cast Rounding.le_round 2 h
  obtain ⟨timing, hsome, _⟩ := NodeTiming.validate?_eq_some node hversion hattempt
    hseconds succeeded ((usage.map TokenUsage.inputTokens).getD 0)
    ((usage.map TokenUsage.outputTokens).getD 0)
  apply wp_commit_sound hw
  unfold timingMutation
  dsimp only
  rw [hsome, wp_modify]
  refine ⟨?_, hQ⟩
  apply Lawful.quiet
  . exact hw.iteration
  . rfl
  . rfl
  . simp
  . exact .keep rfl (by simp)
  . exact .timed

-- What a resume makes of the view.
def resumedView (userOverride : Option String) (v : View) : View :=
  {
    v.withStatus .optimizing with
    resumeSignal := true
    loop := { v.loop with pendingUserOverride := userOverride }
  }

-- What `set_stage` makes of the status.
def staged (status target : RunStatus) : RunStatus :=
  if status = .pauseRequested ∨ status = .cancelRequested then status else target

theorem wp_setStage_sound {target : RunStatus} (hw : Sound origin w)
    (hlegal : w.view.status = .pauseRequested ∨ w.view.status = target
      ∨ w.view.status.canTransition target = true)
    (htarget : target.isTerminal = false)
    (hQ : ∀ w', Sound origin w' → w'.view = w.view.withStatus (staged w.view.status target) →
      Q w'.snapshot w') :
    wp (setStage env target) w Q E := by
  have hsame : w.view = w.view.withStatus w.snapshot.status := rfl
  rw [World.view_status] at hQ hlegal
  unfold setStage
  rw [wp_bind, wp_get]
  by_cases hheld : w.snapshot.status = .pauseRequested ∨ w.snapshot.status = .cancelRequested
  . rw [if_pos hheld, wp_pure]
    apply hQ w hw
    unfold staged
    rw [if_pos hheld]
    exact hsame
  . rw [if_neg hheld]
    unfold staged at hQ
    rw [if_neg hheld] at hQ
    by_cases heq : w.snapshot.status = target
    . rw [if_pos heq, wp_pure]
      apply hQ w hw
      rw [← heq]
      exact hsame
    . rw [if_neg heq]
      apply wp_transition_sound hw
      . rcases hlegal with hpause | hsame | hlegal
        . exact absurd (.inl hpause) hheld
        . exact absurd hsame heq
        . exact hlegal
      . exact ⟨rfl, rfl⟩
      . simp [htarget, RunEventType.ending]
      . exact .stage htarget
      . exact hQ

theorem wp_enterPaused_sound (hw : Sound origin w)
    (hlegal : w.view.status.canTransition .paused = true)
    (hQ : ∀ snapshot w', Sound origin w' →
      w'.view = { w.view.withStatus .paused with resumeSignal := false } → Q snapshot w') :
    wp (enterPaused env) w Q E := by
  unfold enterPaused
  rw [wp_bind, wp_get, wp_bind]
  apply wp_transition_sound hw hlegal ⟨rfl, rfl⟩ rfl .paused
  intro w1 hw1 hview1
  rw [wp_bind]
  apply wp_monotonic_sound hw1
  intro now w2 hw2 hview2
  rw [wp_bind, wp_modify, wp_pure]
  apply hQ
  . exact hw2.congr rfl rfl rfl rfl rfl rfl
  . rw [← hview1, ← hview2]
    rfl

theorem wp_failRun_sound {code message : String} {retryable : Bool} (hw : Sound origin w)
    (hcode : LengthIn code 100) (hmessage : 1 ≤ message.length)
    (hended : w.view.status.isTerminal = true → Q w.snapshot w)
    (hQ : w.view.status.isTerminal = false → ∀ w', Sound origin w' → w'.view = w.view.withStatus .failed →
      Q w'.snapshot w') :
    wp (failRun env code message retryable) w Q E := by
  unfold failRun
  rw [wp_bind, wp_get]
  split
  . next hterminal => exact hended hterminal
  . next hterminal =>
    have hopen : w.snapshot.status.isTerminal = false := by simpa using hterminal
    rw [wp_bind]
    apply wp_utcNow_sound hw
    intro now w1 hw1 hview1
    have hstatus1 : w1.snapshot.status = w.snapshot.status := congrArg View.status hview1
    apply wp_commit_modify hw1
    . exact {
        iteration := hw1.iteration
        latest := rfl
        status := by
          right
          rw [hstatus1]
          exact RunStatus.canTransition_failed hopen
        transient := by simp [RunEventType.isTransient]
        ending := by
          intro e he status hending
          cases he
          cases hending
          rw [hstatus1]
          exact ⟨hopen, rfl⟩
        closing := by
          intro _
          exact .inr ⟨.runFailed, rfl, rfl⟩
        text := .keep rfl (by simp [RunEventType.isStream])
        change := .failed (by rw [hstatus1]; exact hopen) hcode hmessage
      }
    . intro w2 hw2 hview2
      apply hQ hopen w2 hw2
      rw [hview2, ← hview1]
      rfl

theorem wp_finalizeCancel_idle (hstatus : w.view.status ≠ .cancelRequested)
    (hQ : Q w.snapshot w) : wp (finalizeCancel env) w Q E := by
  unfold finalizeCancel
  rw [wp_bind, wp_get]
  split
  . exact hQ
  . rw [World.view_status] at hstatus
    rw [if_pos hstatus]
    exact hQ

theorem wp_finalizeCancel_sound (hw : Sound origin w) (hstatus : w.view.status = .cancelRequested)
    (hQ : ∀ w', Sound origin w' → w'.view = w.view.withStatus .cancelled → Q w'.snapshot w') :
    wp (finalizeCancel env) w Q E := by
  rw [World.view_status] at hstatus
  unfold finalizeCancel
  rw [wp_bind, wp_get]
  simp only [hstatus]
  apply wp_transition_sound hw _ ⟨rfl, rfl⟩ rfl .cancelled hQ
  rw [hstatus]
  rfl

section Requests

variable {P : World → Prop}

theorem wp_requestPause_sound (hw : Sound origin w) (hsame : P w)
    (hP : w.view.status ∈ [RunStatus.generating, .reviewing, .aggregating, .optimizing] →
      ∀ w', Sound origin w' → w'.view = w.view.withStatus .pauseRequested → P w') :
    wp (requestPause env) w (fun _ => P) (fun _ => P) := by
  unfold requestPause
  rw [wp_bind, wp_get]
  split
  . exact hsame
  . split
    . exact hsame
    . split
      . next hpausable =>
        apply wp_transition_sound hw _ ⟨rfl, rfl⟩ rfl .pauseRequested (hP hpausable)
        generalize w.snapshot.status = status at hpausable
        cases status <;> simp_all [RunStatus.canTransition, RunStatus.allowedTransitions]
      . exact hsame

theorem wp_resumeRun_sound {userOverride : Option String} (hw : Sound origin w)
    (hE : w.view.status ≠ .paused → ∀ exn, E exn w)
    (hP : w.view.status = .paused → ∀ w', Sound origin w' →
      w'.view = resumedView userOverride w.view → P w') :
    wp (resumeRun env userOverride) w (fun _ => P) E := by
  have hpop : ∀ {R : Unit → World → Prop}, (∀ w', Sound origin w' → w'.view = w.view → R () w') →
      wp (popPaused env) w R E := by
    intro R hR
    unfold popPaused
    rw [wp_bind, wp_get]
    split
    . exact hR w hw rfl
    . rw [wp_bind]
      apply wp_monotonic_sound hw
      intro now w1 hw1 hview1
      rw [wp_modify]
      apply hR
      . exact hw1.congr rfl rfl rfl rfl rfl rfl
      . exact hview1
  unfold resumeRun
  rw [wp_bind, wp_get]
  split
  . next hpaused =>
    rw [wp_bind]
    apply hpop
    intro w1 hw1 hview1
    have hstatus1 : w1.snapshot.status = .paused := by
      rw [← hpaused]
      exact congrArg View.status hview1
    rw [wp_bind]
    apply wp_commit_sound hw1
    unfold resumeMutation
    rw [wp_bind, wp_get, wp_bind, wp_requireTransition, hstatus1]
    refine ⟨?_, ?_⟩
    . exact {
        iteration := hw1.iteration
        latest := rfl
        status := by
          right
          rw [hstatus1]
          rfl
        transient := by simp [RunEventType.isTransient]
        ending := by simp [RunEventType.ending]
        closing := by simp [RunSnapshot.withStatus, RunStatus.isTerminal]
        text := .keep rfl (by simp [RunEventType.isStream])
        change := .resumed hstatus1
      }
    . intro w2 hw2 hview2
      rw [wp_bind, wp_modify, wp_pure]
      apply hP hpaused
      . exact hw2.congr rfl rfl rfl rfl rfl rfl
      . rw [← hview1]
        change { w2.view with resumeSignal := true } = _
        rw [hview2]
        rfl
  . next hpaused => exact hE hpaused _

theorem canTransition_cancelRequested {status : RunStatus} (h : status.isTerminal = false)
    (hne : status ≠ .cancelRequested) : status.canTransition .cancelRequested = true := by
  cases status <;> simp_all [RunStatus.isTerminal, RunStatus.canTransition,
    RunStatus.allowedTransitions]

theorem wp_cancelRun_sound (hw : Sound origin w) (hsame : w.view.status = .cancelled → P w)
    (hE : w.view.status.isTerminal = true → ∀ exn, E exn w)
    (hP : w.view.status.isTerminal = false → ∀ w', Sound origin w' →
      w'.view
        = { w.view.withStatus .cancelled with cancelSignal := true, resumeSignal := true } → P w') :
    wp (cancelRun env) w (fun _ => P) E := by
  have hfinish : ∀ w1, Sound origin w1 → w1.view = w.view.withStatus .cancelRequested →
      w.view.status.isTerminal = false →
      wp (finalizeCancel env) w1.setCancel (fun _ => P) E := by
    intro w1 hw1 hview1 hopen
    have hcancel : Sound origin w1.setCancel := hw1.congr rfl rfl rfl rfl rfl rfl
    have hview : w1.setCancel.view
        = { w.view.withStatus .cancelRequested with cancelSignal := true, resumeSignal := true } := by
      rw [← hview1]
      rfl
    apply wp_finalizeCancel_sound hcancel
    . rw [hview]
      rfl
    . intro w2 hw2 hview2
      apply hP hopen w2 hw2
      rw [hview2, hview]
      rfl
  unfold cancelRun
  rw [wp_bind, wp_get]
  split
  . next hcancelled => exact hsame hcancelled
  . split
    . next hterminal => exact hE hterminal _
    . next hterminal =>
      have hopen : w.view.status.isTerminal = false := by simpa using hterminal
      rw [wp_ite]
      split
      . next hne =>
        rw [wp_bind]
        apply wp_transition_sound hw (canTransition_cancelRequested hopen hne)
          ⟨rfl, rfl⟩ rfl (.stage rfl)
        intro w1 hw1 hview1
        rw [wp_bind, wp_modify]
        exact hfinish w1 hw1 hview1 hopen
      . next hrequested =>
        rw [wp_bind, wp_modify]
        apply hfinish w hw _ hopen
        have hstatus : w.view.status = .cancelRequested := by simpa using hrequested
        rw [← hstatus]
        rfl

end Requests

end RunManager

end AgenticPrd
