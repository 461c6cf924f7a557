import AgenticPrd.Backend.Workflow.Clock
import AgenticPrd.Backend.Workflow.Flow

/-!
How the pauses are timed: the workflow parks at its last reading of the clock, a resume counts the
pause, and every other step leaves the times alone but for what its node has measured.
-/

namespace AgenticPrd

namespace Workflow

open RunManager Prog

variable {env : Env} {w w0 : World} {α : Type}

section Parks

variable {fresh : ℚ → Prop}

-- The task is parked, since the last reading of the clock.
structure Parks (env : Env) (w0 : World) (pc : Pc) (w : World) : Prop where
  parked : wake pc ≠ none
  timings : w.snapshot.nodeTimings = w0.snapshot.nodeTimings
  clock :
    ∃ n, w.pauseClock = (w0.activeStarted, some (env.clock n), w0.pausedTotal)
      ∧ w.ticks = n + 1
  resumeSignal : w.resumeSignal = false

def Stepped (env : Env) (fresh : ℚ → Prop) (w0 : World) (pc : Pc) (w : World) : Prop :=
  Advanced env fresh w0 pc w ∨ Parks env w0 pc w

-- A program of the task that may park.
def Treads (env : Env) (fresh : ℚ → Prop) (w0 : World) (program : Prog World Exn Pc) (w : World) :
    Prop :=
  wp program w (Stepped env fresh w0) fun _ => Tallied env fresh w0

theorem Advances.treads {program : Prog World Exn Pc} (h : Advances env fresh w0 program w) :
    Treads env fresh w0 program w :=
  wp_mono h (fun _ _ => .inl) fun _ _ hraised => hraised

theorem treads_enterPaused {pc : Pc} (hpc : wake pc ≠ none) (h : w.gauge = w0.gauge) :
    Treads env fresh w0
      (do
        let _ ← enterPaused env
        return pc) w := by
  unfold Treads enterPaused
  rw [wp_bind, wp_bind, wp_get, wp_bind]
  apply wp_mono ((keeping_transition rfl : Keeping World.gauge _) w)
  . intro _ w1 h1
    replace h1 : w1.gauge = w0.gauge := h1.trans h
    unfold World.gauge World.times at h1
    simp only [Prod.mk.injEq] at h1
    obtain ⟨htimings, hactive, _, htotal, _⟩ := h1
    rw [wp_bind, wp_monotonic, wp_bind, wp_modify, wp_pure, wp_pure]
    right
    refine { parked := hpc, timings := htimings, clock := ⟨w1.ticks, ?_, rfl⟩, resumeSignal := rfl }
    rw [← hactive, ← htotal]
    rfl
  . intro _ w1 h1
    exact (Tallied.refl w0).congr (h1.trans h)

theorem Advanced.pauseClock {pc : Pc} (h : Advanced env fresh w0 pc w) :
    w.activeStarted = w0.activeStarted ∧ w.pausedStarted = w0.pausedStarted
      ∧ w.pausedTotal = w0.pausedTotal := by
  have hclock := h.clock
  unfold World.pauseClock at hclock
  simpa using hclock

theorem treads_bind {x : Prog World Exn α} {f : α → Prog World Exn Pc}
    (hx : Keeping World.gauge x) (h : w.gauge = w0.gauge)
    (hf : ∀ a w', w'.gauge = w0.gauge → Treads env fresh w0 (f a) w') :
    Treads env fresh w0 (x >>= f) w := by
  unfold Treads
  rw [wp_bind]
  apply wp_mono (hx w)
  . intro a w1 h1
    exact hf a w1 (h1.trans h)
  . intro _ w1 h1
    exact (Tallied.refl w0).congr (h1.trans h)

theorem treads_throw {exn : Exn} (h : w.gauge = w0.gauge) :
    Treads env fresh w0 (throw exn) w :=
  (Tallied.refl w0).congr h

theorem treads_routing (h : w.gauge = w0.gauge) :
    Treads env fresh w0 (pure .routing) w := by
  left
  exact {
    (Tallied.refl w0).congr h with
    starts := List.forall_mem_nil _
    awake := rfl
  }

theorem treads_commitEvaluation {state : RunSnapshot} {evaluation : EvaluationResult}
    (h : w.gauge = w0.gauge) :
    Treads env fresh w0 (commitEvaluation env state evaluation) w := by
  have haggregate : ∀ bestScore bestVersion payload, Keeping World.gauge
      (commit env .none (modify (aggregate evaluation bestScore bestVersion)) (some .scoresUpdated)
        payload) := by
    intro bestScore bestVersion payload
    apply keeping_commit_gauge
    exact .modify fun _ => rfl
  unfold commitEvaluation
  dsimp only
  apply treads_bind (haggregate _ _ _) h
  intro scored w1 h1
  split
  . apply treads_bind (keeping_transition rfl) h1
    intro _ w2 h2
    exact treads_routing h2
  . split
    . apply treads_bind (keeping_transition rfl) h1
      intro _ w2 h2
      exact treads_routing h2
    . split
      . exact treads_enterPaused (by simp [wake]) h1
      . apply treads_bind keeping_setStage h1
        intro _ w2 h2
        exact treads_routing h2

theorem treads_aggregatorNode : Treads env fresh w (aggregatorNode env) w := by
  unfold aggregatorNode
  apply treads_bind keeping_checkCancel rfl
  intro _ w1 h1
  apply treads_bind keeping_setStage h1
  intro _ w2 h2
  apply treads_bind keeping_markNode h2
  intro _ w3 h3
  apply treads_bind .get h3
  intro s w4 h4
  dsimp only
  split
  . split
    . exact treads_throw h4
    . exact treads_commitEvaluation h4
  . exact treads_throw h4

theorem treads_startOptimizer (hreading : ∀ n, fresh (env.clock n)) (h : w.gauge = w0.gauge) :
    Treads env fresh w0 (startOptimizer env) w :=
  (advances_startOptimizer hreading ((Tallied.refl w0).congr h)).treads

theorem treads_stageOptimizer (hreading : ∀ n, fresh (env.clock n)) (h : w.gauge = w0.gauge) :
    Treads env fresh w0 (stageOptimizer env) w := by
  unfold stageOptimizer
  apply treads_bind keeping_setStage h
  intro stage w1 h1
  split
  . exact treads_enterPaused (by simp [wake]) h1
  . exact treads_startOptimizer hreading h1

theorem treads_optimizerNode (hreading : ∀ n, fresh (env.clock n)) :
    Treads env fresh w (optimizerNode env) w := by
  unfold optimizerNode
  apply treads_bind keeping_checkCancel rfl
  intro _ w1 h1
  apply treads_bind .get h1
  intro s w2 h2
  split
  . exact treads_enterPaused (by simp [wake]) h2
  . exact treads_stageOptimizer hreading h2

theorem treads_optimizerUnpark {staged : Bool} (hreading : ∀ n, fresh (env.clock n)) :
    Treads env fresh w (optimizerUnpark env staged) w := by
  unfold optimizerUnpark
  apply treads_bind keeping_checkCancel rfl
  intro _ w1 h1
  split
  . apply treads_bind keeping_setStage h1
    intro _ w2 h2
    exact treads_startOptimizer hreading h2
  . exact treads_stageOptimizer hreading h1

end Parks

section Step

variable {fresh : ℚ → Prop} {wenv : WorkflowEnv} {c' : Config} {label : Label}

theorem runTask_stepped {program : Prog World Exn Pc} (h : Treads env fresh w0 program w) :
    Stepped env fresh w0 (runTask env program w).pc (runTask env program w).world := by
  cases runTask_cases World.gauge h with
  | inl hstepped => exact hstepped
  | inr hfailed =>
    obtain ⟨w1, exn, h1, hgauge, hpc⟩ := hfailed
    left
    rw [hpc]
    exact {
      h1.congr hgauge with
      starts := List.forall_mem_nil _
      awake := rfl
    }

-- The places where the task neither measures nor waits.
theorem idle_of_place {pc : Pc}
    (h : place pc ∈ [Place.toGenerator, .toAggregator, .routing, .toOptimizer, .finished]) :
    pc.starts w = [] ∧ wake pc = none := by
  cases pc <;> simp_all [place, Pc.starts, wake]

theorem advances_of_goes {program : Prog World Exn Pc} {places : List Place}
    (hgauge : Keeping World.gauge program) (hgoes : Goes places program)
    (hplaces : places ⊆ [.toGenerator, .toAggregator, .routing, .toOptimizer, .finished]) :
    Advances env fresh w program w := by
  unfold Advances
  apply wp_mono (wp_and (hgauge w) (hgoes w))
  . rintro pc w1 ⟨h1, hpc⟩
    obtain ⟨hstarts, hwake⟩ := idle_of_place (hplaces hpc)
    refine { (Tallied.refl w).congr h1 with starts := ?_, awake := hwake }
    rw [hstarts]
    exact List.forall_mem_nil _
  . rintro _ w1 ⟨h1, _⟩
    exact (Tallied.refl w).congr h1

theorem starts_update {reviewers : ReviewRole → ReviewerPc} {role : ReviewRole}
    {reviewer : ReviewerPc} (hold : ∀ started ∈ (Pc.reviewing reviewers).starts w0, fresh started)
    (hnew : ∀ started ∈ reviewer.starts, fresh started) :
    ∀ started ∈ (Pc.reviewing (Function.update reviewers role reviewer)).starts w,
      fresh started := by
  intro started hstarted
  unfold Pc.starts at hold hstarted
  obtain ⟨role', hrole', hmem⟩ := List.mem_flatMap.mp hstarted
  by_cases heq : role' = role
  . rw [heq, Function.update_self] at hmem
    exact hnew started hmem
  . rw [Function.update_of_ne heq] at hmem
    exact hold started (List.mem_flatMap.mpr ⟨role', hrole', hmem⟩)

theorem runReviewer_advanced {reviewers : ReviewRole → ReviewerPc} {role : ReviewRole}
    {program : Prog World Exn ReviewerPc}
    (hold : ∀ started ∈ (Pc.reviewing reviewers).starts w, fresh started)
    (h : wp program w (Reviewed env fresh w) fun _ => Tallied env fresh w) :
    Advanced env fresh w (runReviewer role reviewers program w).pc
      (runReviewer role reviewers program w).world := by
  unfold runReviewer
  unfold wp at h
  split
  . next heq =>
    rw [heq] at h
    exact {
      h.toTallied with
      starts := starts_update hold h.starts
      awake := rfl
    }
  . next heq =>
    rw [heq] at h
    exact {
      h with
      starts := starts_update hold (List.forall_mem_nil _)
      awake := rfl
    }

theorem starts_suspended {reviewers : ReviewRole → ReviewerPc} {role : ReviewRole}
    {frame : NodeFrame} {structured : StructuredPc}
    (hrole : reviewers role = .suspended frame structured) :
    frame.started ∈ (Pc.reviewing reviewers).starts w := by
  unfold Pc.starts
  rw [List.mem_flatMap]
  refine ⟨role, ?_, ?_⟩
  . cases role <;> simp
  . rw [hrole]
    exact List.mem_singleton.mpr rfl

theorem stepReviewer_stepped {reviewers : ReviewRole → ReviewerPc}
    (hreading : ∀ n, fresh (wenv.clock n))
    (hold : ∀ started ∈ (Pc.reviewing reviewers).starts w, fresh started)
    (hstep : stepReviewer wenv w reviewers label = some c') :
    Stepped wenv.toEnv fresh w c'.pc c'.world := by
  unfold stepReviewer at hstep
  split at hstep
  . split at hstep
    . cases hstep
      left
      exact runReviewer_advanced hold (reviewed_reviewerNode hreading)
    . contradiction
  . split at hstep
    . next hrole =>
      split at hstep
      . cases hstep
        left
        apply runReviewer_advanced hold
        exact reviewed_reviewerWake (hold _ (starts_suspended hrole))
      . contradiction
    . contradiction
  . split at hstep
    . cases hstep
      left
      exact { Tallied.refl w with starts := List.forall_mem_nil _, awake := rfl }
    . contradiction
  . split at hstep
    . cases hstep
      exact runTask_stepped (treads_throw rfl)
    . contradiction
  . contradiction

-- What a step of a task does to the times.
theorem stepTask_stepped {pc : Pc} (hreading : ∀ n, fresh (wenv.clock n))
    (hold : ∀ started ∈ pc.starts w, fresh started)
    (hstep : stepTask wenv w pc label = some c') :
    Stepped wenv.toEnv fresh w c'.pc c'.world := by
  unfold stepTask at hstep
  split at hstep
  . cases hstep
    apply runTask_stepped
    exact (advances_of_goes keeping_begin goes_begin (by simp)).treads
  . cases hstep
    exact runTask_stepped (advances_generatorNode hreading).treads
  . split at hstep
    . cases hstep
      apply runTask_stepped
      exact (advances_generatorWake hreading (hold _ (List.mem_singleton.mpr rfl))).treads
    . contradiction
  . exact stepReviewer_stepped hreading hold hstep
  . cases hstep
    exact runTask_stepped treads_aggregatorNode
  . split at hstep
    . cases hstep
      apply runTask_stepped
      exact (advances_of_goes keeping_aggregatorWake goes_aggregatorWake (by simp)).treads
    . contradiction
  . cases hstep
    apply runTask_stepped
    exact (advances_of_goes keeping_routeAfterAggregate goes_routeAfterAggregate (by simp)).treads
  . cases hstep
    exact runTask_stepped (treads_optimizerNode hreading)
  . split at hstep
    . cases hstep
      exact runTask_stepped (treads_optimizerUnpark hreading)
    . contradiction
  . split at hstep
    . cases hstep
      apply runTask_stepped
      exact (advances_optimizerWake (hold _ (List.mem_singleton.mpr rfl))).treads
    . contradiction
  . contradiction

end Step

section Requests

-- The pause that is under way is over, and counted.
def Unparked (env : Env) (pausedAt : ℚ) (w w' : World) : Prop :=
  w'.snapshot.nodeTimings = w.snapshot.nodeTimings
    ∧
  ∃ n, w'.times
    = (w.activeStarted, none, w.pausedTotal + (env.clock n - pausedAt), w.record.started)

theorem Unparked.congr {pausedAt : ℚ} {w1 w' : World} (h : Unparked env pausedAt w w1)
    (hgauge : w'.gauge = w1.gauge) : Unparked env pausedAt w w' := by
  obtain ⟨htimings, htimes⟩ := Prod.ext_iff.mp hgauge
  dsimp only [World.gauge] at htimings htimes
  unfold Unparked
  rw [htimings, htimes]
  exact h

theorem wp_resumeRun_unparked {userOverride : Option String} {pausedAt : ℚ}
    (hstatus : w.snapshot.status = .paused) (hpaused : w.pausedStarted = some pausedAt) :
    wp (resumeRun env userOverride) w (fun _ => Unparked env pausedAt w)
      fun _ => Unparked env pausedAt w := by
  have hcommit : ∀ payload, Keeping World.gauge
      (commit env .none (resumeMutation userOverride) (some .runResumed) payload) := by
    intro payload
    apply keeping_commit_gauge
    exact keeping_resumeMutation fun _ => rfl
  have hpop : wp (popPaused env) w (fun _ => Unparked env pausedAt w)
      fun _ => Unparked env pausedAt w := by
    unfold popPaused
    rw [wp_bind, wp_get]
    split
    . next hnone =>
      rw [hpaused] at hnone
      contradiction
    . next at' hsome =>
      rw [hpaused] at hsome
      cases hsome
      rw [wp_bind, wp_monotonic, wp_modify]
      exact ⟨rfl, w.ticks, rfl⟩
  unfold resumeRun
  rw [wp_bind, wp_get, wp_ite, if_pos hstatus, wp_bind]
  apply wp_mono hpop
  . intro _ w1 h1
    rw [wp_bind]
    apply wp_mono (hcommit _ w1)
    . intro result w2 h2
      rw [wp_bind, wp_modify, wp_pure]
      exact (h1.congr h2).congr rfl
    . intro _ w2 h2
      exact h1.congr h2
  . intro _ w1 h1
    exact h1

end Requests

end Workflow

end AgenticPrd
