import AgenticPrd.Backend.Workflow.Generator
import Mathlib.Data.List.ModifyLast

/-!
The reviewers, the aggregator and the optimizer keep the invariant.
-/

namespace AgenticPrd

namespace Workflow

open RunManager Prog

variable {env : Env} {origin w : World}

section Reviewer

variable {role : ReviewRole} {frame : NodeFrame} {structured : StructuredPc}

-- What one reviewer does to the view `v` of the others: only its own review may change.
structure Reviewing (origin : World) (role : ReviewRole) (v : View) (pc : ReviewerPc) (w : World) : Prop where
  sound : Sound origin w
  view :
    ∃ reviews, w.view = { v with loop := { v.loop with reviews } }
      ∧ ∀ other, other ≠ role → reviews other = v.loop.reviews other
  pc : ReviewerInv w.view role pc

theorem Reviewing.of_view {w' : World} {pc : ReviewerPc} (hw' : Sound origin w') (hview : w'.view = w.view)
    (hpc : ReviewerInv w'.view role pc) : Reviewing origin role w.view pc w' :=
  {
    sound := hw'
    view := ⟨w.view.loop.reviews, hview, fun _ _ => rfl⟩
    pc := hpc
  }

theorem Reviewing.of_raised {w' : World} {exn : Exn} (hraised : Raised origin exn w')
    (hview : w'.view = w.view) : Reviewing origin role w.view (.raised exn) w' :=
  Reviewing.of_view hraised.sound hview ⟨hraised.legal, hraised.cancelled⟩

def addReview (role : ReviewRole) (review : RoleReview) (v : View) : View :=
  { v with loop := { v.loop with reviews := Function.update v.loop.reviews role (some review) } }

theorem wp_reviewerNode_sound (hw : Sound origin w) (hat : At w.view .fresh)
    (hlive : Live [.reviewing, .pauseRequested] w.view) :
    wp (reviewerNode env role) w (Reviewing origin role w.view)
      fun exn => Reviewing origin role w.view (.raised exn) := by
  have hsteady := Steady.of_live hat hlive (by simp) (by simp)
  unfold reviewerNode
  rw [wp_bind]
  apply wp_checkCancel_sound hw hsteady
  . intro exn w' hraised hview
    exact Reviewing.of_raised hraised hview
  intro hcancel w1 hw1 hview1
  rw [wp_bind]
  apply wp_monotonic_sound hw1
  intro started w2 hw2 hview2
  have hopen : w2.view.status.isTerminal = false := by
    rw [hview2, hview1]
    exact hlive.open hcancel (by decide)
  have hfresh : w2.snapshot.Fresh := by
    have hat2 : At w2.view .fresh := by
      rw [hview2, hview1]
      exact hat
    exact hat2.facts
  have hcalls : w2.snapshot.Calls role.node := by cases role <;> exact hfresh
  rw [wp_bind]
  apply wp_markNode_sound hw2 hopen hcalls
  intro w3 hw3 hview3 _
  have hview : w3.view = w.view := by rw [hview3, hview2, hview1]
  rw [wp_bind, wp_get, wp_bind]
  apply wp_structuredCall_sound hw3
  . rw [hview]
    exact hsteady
  . intro i
    rfl
  intro structured w4 hw4 hview4 hstructured
  rw [wp_pure]
  apply Reviewing.of_view hw4
  . rw [hview4, hview]
  . exact ⟨hw3.iteration, hstructured⟩

theorem wp_commit_reviewed {review : RoleReview} {Q : RunSnapshot → World → Prop}
    {E : Exn → World → Prop} (hw : Sound origin w) (hat : At w.view .fresh)
    (hlive : Live [.reviewing, .pauseRequested] w.view) (hcancel : w.cancelSignal = false)
    (hrole : review.role = role)
    (hQ : ∀ w', Sound origin w' → w'.view = addReview role review w.view → Q w'.snapshot w') :
    wp
      (commit env .none (finishReview w.cancelSignal role review) (some .reviewCompleted) fun _ =>
        review.dump) w Q E := by
  apply wp_commit_guarded hw hcancel
  . apply Lawful.quiet
    . exact hw.iteration
    . rfl
    . rfl
    . simp [RunEventType.ending]
    . exact .keep rfl (by simp [RunEventType.isStream])
    . exact .reviewed (hlive.open hcancel (by decide)) hat.facts hrole
  . intro w1 hw1 hview1
    apply hQ w1 hw1
    rw [hview1]
    rfl

theorem wp_commitReview_sound {result : ProviderStructuredResult} {review : RoleReview}
    (hw : Sound origin w) (hat : At w.view .fresh) (hlive : Live [.reviewing, .pauseRequested] w.view)
    (hvalid : ValidIteration frame.state.currentIteration) :
    wp (commitReview env role frame result review) w (Reviewing origin role w.view)
      fun exn => Reviewing origin role w.view (.raised exn) := by
  have hsteady := Steady.of_live hat hlive (by simp) (by simp)
  unfold commitReview
  split
  . next hrole =>
    rw [wp_bind]
    apply wp_checkCancel_sound hw hsteady
    . intro exn w' hraised hview
      exact Reviewing.of_raised hraised hview
    intro hcancel w1 hw1 hview1
    have hcancel1 : w1.cancelSignal = false := by
      rw [← hcancel]
      exact congrArg View.cancelSignal hview1
    rw [wp_bind, wp_get, wp_bind]
    rw [← hview1] at hat hlive
    apply wp_commit_reviewed hw1 hat hlive hcancel1 hrole
    intro w2 hw2 hview2
    rw [wp_bind]
    apply wp_recordUsage_sound hw2
    intro w3 hw3 hview3
    rw [wp_bind]
    apply wp_monotonic_sound hw3
    intro now w4 hw4 hview4
    rw [wp_bind]
    apply wp_recordTiming_sound hw4 hvalid (by omega)
    intro w5 hw5 hview5
    have hview : w5.view = addReview role review w.view := by
      rw [hview5, hview4, hview3, hview2, ← hview1]
    rw [wp_pure]
    exact {
      sound := hw5
      view := by
        refine ⟨_, hview, ?_⟩
        intro other hne
        exact Function.update_of_ne hne _ _
      pc := by
        rw [hview]
        exact ⟨review, Function.update_self _ _ _, hrole⟩
    }
  . apply Reviewing.of_raised _ rfl
    apply Raised.of_view hw rfl hsteady
    . simp [NotIllegal]
    . simp

theorem wp_reviewerWake_sound {env : WorkflowEnv} {answer : Answer ProviderStructuredResult}
    (hw : Sound origin w) (hat : At w.view .fresh) (hlive : Live [.reviewing, .pauseRequested] w.view)
    (hinv : ReviewerInv w.view role (.suspended frame structured))
    (haccepts : structured.await.accepts w answer = true) :
    wp (reviewerWake env role frame structured answer) w (Reviewing origin role w.view)
      fun exn => Reviewing origin role w.view (.raised exn) := by
  have hsteady := Steady.of_live hat hlive (by simp) (by simp)
  unfold reviewerWake
  rw [wp_bind]
  apply wp_structuredWake_sound hw hsteady hinv.2 haccepts
  . intro i
    rfl
  . intro value i
    rfl
  . intro exn w' hraised hview
    exact Reviewing.of_raised hraised hview
  . intro structured w1 hw1 hview1 hstructured
    exact Reviewing.of_view hw1 hview1 ⟨hinv.1, hstructured⟩
  . intro result review
    exact wp_commitReview_sound hw hat hlive hinv.1

end Reviewer

-- A node that finds a pause request parks before the optimizer's call.
theorem wp_enterPaused_parked {Q : RunSnapshot → World → Prop} {E : Exn → World → Prop}
    (hw : Sound origin w) (hat : At w.view .judged) (hpause : w.snapshot.status = .pauseRequested)
    (hcancel : w.cancelSignal = false)
    (hQ : ∀ snapshot w', Sound origin w' → At w'.view .judged → Parked w'.view → Q snapshot w') :
    wp (enterPaused env) w Q E := by
  apply wp_enterPaused_sound hw
  . rw [World.view_status, hpause]
    rfl
  intro snapshot w1 hw1 hview1
  apply hQ snapshot w1 hw1
  . rw [hview1]
    dsimp only
    apply hat.withStatus
    . rfl
    . rw [World.view_status, hpause]
      simp
    . simp [View.withStatus]
  . rw [hview1]
    constructor
    . right
      exact ⟨hcancel, by simp [View.withStatus]⟩
    . simp [View.withStatus]

-- What a node that has been parked finds when it goes on and the run is not cancelled.
theorem Parked.released {v : View} (h : Parked v) (hcancel : v.cancelSignal = false)
    (hresume : v.resumeSignal = true) : Live [.optimizing, .pauseRequested] v := by
  have hmem := h.1.mem hcancel
  have hnot : v.status ≠ .paused := by
    intro hpaused
    have := (h.2 hcancel).mp hpaused
    rw [hresume] at this
    contradiction
  right
  refine ⟨hcancel, ?_⟩
  simpa [hnot] using hmem

section Aggregator

variable {evaluation : EvaluationResult}

def judge (evaluation : EvaluationResult) (version : PRDVersion) : PRDVersion :=
  { version with evaluation := some evaluation }

-- The view after the evaluation has been stored with the last version.
def addEvaluation (evaluation : EvaluationResult) (v : View) : View :=
  { v with loop := { v.loop with versions := v.loop.versions.modifyLast (judge evaluation) } }

theorem passes_iff {threshold : ℚ}
    (hfeedback : evaluation.combinedFeedback
      = evaluation.tech.feedback ++ evaluation.ux.feedback ++ evaluation.biz.feedback) :
    Passes threshold evaluation
      ↔
    (decide (threshold ≤ evaluation.overallScore) && evaluation.severityCount .mustFix == 0)
      = true := by
  unfold Passes EvaluationResult.severityCount
  rw [hfeedback, ← evaluation.overall_eq]
  simp only [Bool.and_eq_true, decide_eq_true_eq, beq_iff_eq, List.countP_eq_zero,
    List.mem_append, List.mem_cons, List.not_mem_nil, or_false]
  constructor
  . intro h
    refine ⟨h.1, ?_⟩
    rintro item ((htech | hux) | hbiz)
    . exact h.2 evaluation.tech (by simp) item htech
    . exact h.2 evaluation.ux (by simp) item hux
    . exact h.2 evaluation.biz (by simp) item hbiz
  . intro h
    refine ⟨h.1, ?_⟩
    rintro review (rfl | rfl | rfl) item hitem
    . exact h.2 item (.inl (.inl hitem))
    . exact h.2 item (.inl (.inr hitem))
    . exact h.2 item (.inr hitem)

-- The versions before and after the evaluation of the last one.
theorem addEvaluation_versions (evaluation : EvaluationResult) {v : View}
    (h : At v .fresh) :
    ∃ earlier last,
      v.loop.versions = earlier ++ [last]
        ∧
      (addEvaluation evaluation v).loop.versions = earlier ++ [judge evaluation last] := by
  obtain ⟨_, last, hlast, _⟩ := h.facts
  obtain ⟨earlier, hversions⟩ := List.getLast?_eq_some_iff.mp hlast
  refine ⟨earlier, last, hversions, ?_⟩
  unfold addEvaluation
  rw [hversions]
  exact List.modifyLast_concat _ _ _

theorem addEvaluation_length (evaluation : EvaluationResult) {v : View} (h : At v .fresh) :
    (addEvaluation evaluation v).loop.versions.length = v.loop.versions.length := by
  obtain ⟨earlier, last, hold, hnew⟩ := addEvaluation_versions evaluation h
  rw [hold, hnew, List.length_append, List.length_append]
  rfl

theorem aggregate_text {bestScore : Option ℚ} {bestVersion : Option Nat} (h : At w.view .fresh) :
    (aggregate evaluation bestScore bestVersion w.snapshot).text = w.snapshot.text := by
  obtain ⟨earlier, last, hold, hnew⟩ := addEvaluation_versions evaluation h
  replace hold : w.snapshot.versions = earlier ++ [last] := hold
  replace hnew : w.snapshot.versions.modifyLast (judge evaluation) = earlier ++ [judge evaluation last] :=
    hnew
  have hcontents :
      (w.snapshot.versions.modifyLast (judge evaluation)).map PRDVersion.content
        =
      w.snapshot.versions.map PRDVersion.content := by
    rw [hnew, hold, List.map_append, List.map_append]
    rfl
  exact congrArg (fun contents => { w.snapshot.text with contents }) hcontents

theorem Shape.addEvaluation {v : View} (h : At v .fresh) :
    Shape (addEvaluation evaluation v).loop := by
  have hshape := h.shape
  have hlength := addEvaluation_length evaluation h
  obtain ⟨earlier, last, hold, hnew⟩ := addEvaluation_versions evaluation h
  exact {
    numbered := by
      have hnumbered := hshape.numbered
      rw [hlength, ← hnumbered, hold, hnew, List.map_append, List.map_append]
      rfl
    bounded := by
      rw [hlength]
      exact hshape.bounded
    iteration_le := hshape.iteration_le
    max_le := hshape.max_le
    iteration := by
      rw [hlength]
      exact hshape.iteration
    earlier := by
      have hearlier := hshape.earlier
      rw [hold, List.dropLast_concat] at hearlier
      rw [hnew, List.dropLast_concat]
      exact hearlier
    streams := hshape.streams
    streams_later := hshape.streams_later
  }

theorem At.approve {v : View} (h : At v .fresh) (hpasses : Passes v.loop.qualityThreshold evaluation) :
    At ((addEvaluation evaluation v).withStatus .completed) .approved := by
  obtain ⟨earlier, last, _, hnew⟩ := addEvaluation_versions evaluation h
  exact {
    shape := Shape.addEvaluation h
    facts := by
      constructor
      . change _ = (addEvaluation evaluation v).loop.versions.length
        rw [addEvaluation_length evaluation h]
        exact h.facts.1
      . change ∃ last ∈ (addEvaluation evaluation v).loop.versions.getLast?, _
        rw [hnew, List.getLast?_concat]
        exact ⟨judge evaluation last, rfl, evaluation, rfl, hpasses⟩
    completed := by simp [View.withStatus]
    exhausted := by simp [View.withStatus]
  }

theorem At.exhaust {v : View} (h : At v .fresh)
    (hfails : ¬Passes v.loop.qualityThreshold evaluation)
    (hmax : v.loop.maxIterations ≤ v.loop.currentIteration) :
    At ((addEvaluation evaluation v).withStatus .maxIterationsReached) .exhausted := by
  have hiteration : v.loop.currentIteration = v.loop.versions.length := h.facts.1
  have hbounded := h.shape.bounded
  obtain ⟨earlier, last, _, hnew⟩ := addEvaluation_versions evaluation h
  exact {
    shape := Shape.addEvaluation h
    facts := by
      refine ⟨?_, ?_, ?_⟩
      . change _ = (addEvaluation evaluation v).loop.versions.length
        rw [addEvaluation_length evaluation h]
        exact hiteration
      . change (addEvaluation evaluation v).loop.versions.length = v.loop.maxIterations
        rw [addEvaluation_length evaluation h]
        omega
      . change ∃ last ∈ (addEvaluation evaluation v).loop.versions.getLast?, _
        rw [hnew, List.getLast?_concat]
        exact ⟨judge evaluation last, rfl, evaluation, rfl, hfails⟩
    completed := by simp [View.withStatus]
    exhausted := by simp [View.withStatus]
  }

theorem At.hold {v : View} (h : At v .fresh) (hfails : ¬Passes v.loop.qualityThreshold evaluation)
    (hmax : v.loop.currentIteration < v.loop.maxIterations) :
    At (addEvaluation evaluation v) .judged := by
  have hiteration : v.loop.currentIteration = v.loop.versions.length := h.facts.1
  obtain ⟨earlier, last, hold, hnew⟩ := addEvaluation_versions evaluation h
  exact {
    shape := Shape.addEvaluation h
    facts := by
      refine ⟨?_, ?_, ?_⟩
      . rw [addEvaluation_length evaluation h]
        exact hiteration
      . rw [addEvaluation_length evaluation h]
        change _ < v.loop.maxIterations
        omega
      . have hearlier := h.shape.earlier
        rw [hold, List.dropLast_concat] at hearlier
        rw [hnew]
        intro version hversion
        rw [List.mem_append, List.mem_singleton] at hversion
        cases hversion with
        | inl hmem => exact hearlier version hmem
        | inr heq =>
          rw [heq]
          exact ⟨evaluation, rfl, hfails⟩
    completed := by
      have hcompleted := h.completed
      simpa [Workflow.addEvaluation] using hcompleted
    exhausted := by
      have hexhausted := h.exhausted
      simpa [Workflow.addEvaluation] using hexhausted
  }

-- The node computes whether the score has improved as a boolean.
theorem ite_improves {α : Type} (snapshot : RunSnapshot) (score : ℚ) (a b : α) :
    (if snapshot.Improves score then a else b)
      =
    if
      (match snapshot.bestScore with
      | none => true
      | some best => decide (best < score)) = true
    then a else b := by
  apply if_congr
  . unfold RunSnapshot.Improves
    cases snapshot.bestScore <;> simp
  . rfl
  . rfl

theorem wp_commitEvaluation_sound (hw : Sound origin w) (hat : At w.view .fresh)
    (hlive : Live [.aggregating, .pauseRequested] w.view) (hcancel : w.cancelSignal = false)
    (hactive : w.snapshot.activeNode = some .aggregator)
    (htech : w.snapshot.reviews .tech = some evaluation.tech)
    (hux : w.snapshot.reviews .ux = some evaluation.ux)
    (hbiz : w.snapshot.reviews .biz = some evaluation.biz)
    (hfeedback : evaluation.combinedFeedback
      = evaluation.tech.feedback ++ evaluation.ux.feedback ++ evaluation.biz.feedback) :
    wp (commitEvaluation env w.snapshot evaluation) w (Suspended origin) (Raised origin) := by
  unfold commitEvaluation
  dsimp only
  rw [wp_bind]
  apply wp_commit_stamped hw
  rw [wp_modify]
  refine ⟨?_, ?_⟩
  . apply Lawful.quiet
    . exact hw.iteration
    . rfl
    . rfl
    . simp [RunEventType.ending]
    . exact .keep (aggregate_text hat) (by simp [RunEventType.isStream])
    . have hchange := fun gatePassed => @Change.scored w.snapshot evaluation gatePassed
        (hlive.open hcancel (by decide)) hactive hat.facts htech hux hbiz
      unfold RunSnapshot.bestScoreWith RunSnapshot.bestVersionWith at hchange
      simp only [ite_improves] at hchange
      exact hchange _
  rintro w1 hw1 hview1 ⟨sequence, hstamped⟩
  have hlatest1 : w1.snapshot.latestEvaluation = some evaluation := hstamped.latestEvaluation
  have hidle1 : w1.snapshot.activeNode = none := hstamped.activeNode
  replace hview1 : w1.view = addEvaluation evaluation w.view := by
    rw [hview1]
    rfl
  have hiteration1 : w1.snapshot.currentIteration = w.snapshot.currentIteration :=
    congrArg (fun v => v.loop.currentIteration) hview1
  have hmax1 : w1.snapshot.maxIterations = w.snapshot.maxIterations :=
    congrArg (fun v => v.loop.maxIterations) hview1
  have hthreshold1 : w1.snapshot.qualityThreshold = w.snapshot.qualityThreshold :=
    congrArg (fun v => v.loop.qualityThreshold) hview1
  have hcancel1 : w1.cancelSignal = false := by
    rw [← hcancel]
    exact congrArg View.cancelSignal hview1
  have hlive1 : Live [.aggregating, .pauseRequested] w1.view := by
    rw [hview1]
    exact hlive
  have hstatus : w1.view.status = .aggregating ∨ w1.view.status = .pauseRequested := by
    simpa using hlive1.mem hcancel1
  rw [wp_ite]
  split
  . next hgate =>
    have hpasses : Passes w.view.loop.qualityThreshold evaluation := (passes_iff hfeedback).mpr hgate
    rw [wp_bind]
    apply wp_transition_sound hw1 _ ⟨rfl, rfl⟩ rfl
    . rw [hgate]
      have hthreshold := Bool.and_elim_left hgate
      rw [hthreshold]
      rw [decide_eq_true_eq, ← hthreshold1] at hthreshold
      exact .completed hidle1 hlatest1 hthreshold
    . intro w2 hw2 hview2
      rw [wp_pure]
      refine { sound := hw2, pc := .inr (.inl ?_) }
      rw [hview2, hview1]
      refine ⟨hat.approve hpasses, .inr ⟨hcancel, ?_⟩⟩
      simp [View.withStatus]
    . rw [World.view_status] at hstatus
      rcases hstatus with h | h <;> rw [h] <;> rfl
  . next hgate =>
    have hfails : ¬Passes w.view.loop.qualityThreshold evaluation := by
      rw [passes_iff hfeedback]
      exact hgate
    rw [wp_ite]
    split
    . next hlast =>
      rw [hmax1, hiteration1] at hlast
      rw [wp_bind]
      apply wp_transition_sound hw1 _ ⟨rfl, rfl⟩ rfl
      . rw [Bool.not_eq_true] at hgate
        rw [hgate, ← hthreshold1]
        exact .exhausted hidle1 hlatest1
      . intro w2 hw2 hview2
        rw [wp_pure]
        refine { sound := hw2, pc := .inr (.inr ?_) }
        rw [hview2, hview1]
        refine ⟨hat.exhaust hfails hlast, .inr ⟨hcancel, ?_⟩⟩
        simp [View.withStatus]
      . rw [World.view_status] at hstatus
        rcases hstatus with h | h <;> rw [h] <;> rfl
    . next hlast =>
      rw [hmax1, hiteration1] at hlast
      have hat1 : At w1.view .judged := by
        rw [hview1]
        apply hat.hold hfails
        change w.snapshot.currentIteration < w.snapshot.maxIterations
        omega
      rw [wp_ite]
      split
      . next hpause =>
        rw [wp_bind]
        apply wp_enterPaused_parked hw1 hat1 hpause hcancel1
        intro _ w2 hw2 hat2 hparked2
        exact { sound := hw2, pc := ⟨hat2, hparked2⟩ }
      . rw [wp_bind]
        apply wp_setStage_live hw1 hat1 hlive1 hcancel1 (by decide) rfl (by decide)
        intro w2 hw2 hat2 hlive2 _ _
        rw [wp_pure]
        exact { sound := hw2, pc := .inl ⟨hat2, hlive2⟩ }

theorem wp_aggregatorNode_sound (h : Suspended origin .toAggregator w) :
    wp (aggregatorNode env) w (Suspended origin) (Raised origin) := by
  have hw := h.sound
  obtain ⟨hat, hlive, hreviews⟩ := h.pc
  unfold aggregatorNode
  rw [wp_bind]
  apply wp_checkCancel_sound hw (Steady.of_live hat hlive (by simp) (by simp))
  . intro exn w' hraised _
    exact hraised
  intro hcancel w1 hw1 hview1
  have hcancel1 : w1.cancelSignal = false := by
    rw [← hcancel]
    exact congrArg View.cancelSignal hview1
  rw [← hview1] at hat hlive hreviews
  rw [wp_bind]
  apply wp_setStage_live hw1 hat hlive hcancel1 (by decide) rfl (by decide)
  intro w2 hw2 hat2 hlive2 hcancel2 hloop2
  have hcalls : w2.snapshot.Calls .aggregator := hat2.facts
  rw [wp_bind]
  apply wp_markNode_sound hw2 (hlive2.open hcancel2 (by decide)) hcalls
  intro w3 hw3 hview3 hactive3
  have hcancel3 : w3.cancelSignal = false := by
    rw [← hcancel2]
    exact congrArg View.cancelSignal hview3
  rw [← hview3] at hat2 hlive2 hloop2
  rw [← hloop2] at hreviews
  obtain ⟨tech, htech, htechRole⟩ := hreviews .tech
  obtain ⟨ux, hux, huxRole⟩ := hreviews .ux
  obtain ⟨biz, hbiz, hbizRole⟩ := hreviews .biz
  replace htech : w3.snapshot.reviews .tech = some tech := htech
  replace hux : w3.snapshot.reviews .ux = some ux := hux
  replace hbiz : w3.snapshot.reviews .biz = some biz := hbiz
  obtain ⟨evaluation, hsome, heTech, heUx, heBiz, hfeedback⟩ :=
    EvaluationResult.validate?_average htechRole huxRole hbizRole
      (tech.feedback ++ ux.feedback ++ biz.feedback)
  rw [wp_bind, wp_get]
  dsimp only
  rw [htech, hux, hbiz]
  dsimp only
  rw [hsome]
  apply wp_commitEvaluation_sound hw3 hat2 hlive2 hcancel3 hactive3
  . rw [htech, heTech]
  . rw [hux, heUx]
  . rw [hbiz, heBiz]
  . rw [hfeedback, heTech, heUx, heBiz]

theorem wp_aggregatorWake_sound (h : Suspended origin .aggregatorParked w) (hreleased : released w = true) :
    wp (aggregatorWake env) w (Suspended origin) (Raised origin) := by
  obtain ⟨hat, hparked⟩ := h.pc
  unfold aggregatorWake
  rw [wp_bind]
  apply wp_checkCancel_sound h.sound (Steady.of_live hat hparked.1 (by simp) (by simp))
  . intro exn w' hraised _
    exact hraised
  intro hcancel w1 hw1 hview1
  have hresume : w.resumeSignal = true := by simpa [released, hcancel] using hreleased
  rw [wp_pure]
  refine { sound := hw1, pc := .inl ?_ }
  rw [hview1]
  exact ⟨hat, hparked.released hcancel hresume⟩

theorem wp_routeAfterAggregate_sound (h : Suspended origin .routing w) :
    wp routeAfterAggregate w (Suspended origin) (Raised origin) := by
  unfold routeAfterAggregate
  rw [wp_bind, wp_get]
  split
  . next hterminal =>
    refine { sound := h.sound, pc := ?_ }
    rcases h.pc with ⟨hat, hlive⟩ | ⟨hat, hlive⟩ | ⟨hat, hlive⟩
    . refine ⟨⟨_, hat⟩, ?_, by simp⟩
      cases hlive with
      | inl hcancelled => exact .inl hcancelled
      | inr hlive =>
        have hopen := hlive.2
        rw [World.view_status] at hopen
        simp only [List.mem_cons, List.not_mem_nil, or_false] at hopen
        rcases hopen with h | h <;> simp [h, RunStatus.isTerminal] at hterminal
    . exact ⟨⟨_, hat⟩, hlive.mono (by simp), by simp⟩
    . exact ⟨⟨_, hat⟩, hlive.mono (by simp), by simp⟩
  . next hterminal =>
    refine { sound := h.sound, pc := ?_ }
    rcases h.pc with ⟨hat, hlive⟩ | ⟨hat, hlive⟩ | ⟨hat, hlive⟩
    . exact ⟨hat, hlive⟩
    . exfalso
      apply hterminal
      have := hat.completed.mpr rfl
      rw [World.view_status] at this
      rw [this]
      rfl
    . exfalso
      apply hterminal
      have := hat.exhausted.mpr rfl
      rw [World.view_status] at this
      rw [this]
      rfl

end Aggregator

section Optimizer

variable {frame : NodeFrame} {structured : StructuredPc}

theorem At.snapshot_judged (h : At w.view .judged) : w.snapshot.Judged := by
  obtain ⟨hiteration, hlength, hheld⟩ := h.facts
  refine ⟨hiteration, hlength, ?_⟩
  intro version hversion hnone
  obtain ⟨evaluation, hsome, _⟩ := hheld version hversion
  rw [hnone] at hsome
  contradiction

theorem wp_startOptimizer_sound (hw : Sound origin w) (hat : At w.view .judged)
    (hlive : Live [.optimizing, .pauseRequested] w.view) (hcancel : w.cancelSignal = false) :
    wp (startOptimizer env) w (Suspended origin) (Raised origin) := by
  have hsteady := Steady.of_live hat hlive (by simp) (by simp)
  unfold startOptimizer
  rw [wp_bind]
  apply wp_monotonic_sound hw
  intro started w1 hw1 hview1
  have hopen : w1.view.status.isTerminal = false := by
    rw [hview1]
    exact hlive.open hcancel (by decide)
  have hcalls : w1.snapshot.Calls .optimizer := by
    have hat1 : At w1.view .judged := by
      rw [hview1]
      exact hat
    exact hat1.snapshot_judged
  rw [wp_bind]
  apply wp_markNode_sound hw1 hopen hcalls
  intro w2 hw2 hview2 _
  have hview : w2.view = w.view := by rw [hview2, hview1]
  rw [wp_bind, wp_get]
  split
  . apply Raised.of_view hw2 hview hsteady
    . simp [NotIllegal]
    . simp
  . rw [wp_bind]
    apply wp_structuredCall_sound hw2
    . rw [hview]
      exact hsteady
    . intro i
      rfl
    intro structured w3 hw3 hview3 hstructured
    refine { sound := hw3, pc := ?_ }
    have hcurrent : Current w2.view w2.snapshot := ⟨rfl, rfl⟩
    rw [hview] at hview3 hcurrent
    rw [hview3] at hstructured ⊢
    exact ⟨hat, hlive, hcurrent, hstructured⟩

theorem wp_stageOptimizer_sound (hw : Sound origin w) (hat : At w.view .judged)
    (hlive : Live [.optimizing, .pauseRequested] w.view) (hcancel : w.cancelSignal = false) :
    wp (stageOptimizer env) w (Suspended origin) (Raised origin) := by
  unfold stageOptimizer
  rw [wp_bind]
  apply wp_setStage_live hw hat hlive hcancel (by decide) rfl (by decide)
  intro w1 hw1 hat1 hlive1 hcancel1 _
  split
  . next hpause =>
    rw [wp_bind]
    apply wp_enterPaused_parked hw1 hat1 hpause hcancel1
    intro _ w2 hw2 hat2 hparked2
    exact { sound := hw2, pc := ⟨hat2, hparked2⟩ }
  . exact wp_startOptimizer_sound hw1 hat1 hlive1 hcancel1

theorem wp_optimizerNode_sound (h : Suspended origin .toOptimizer w) :
    wp (optimizerNode env) w (Suspended origin) (Raised origin) := by
  obtain ⟨hat, hlive⟩ := h.pc
  unfold optimizerNode
  rw [wp_bind]
  apply wp_checkCancel_sound h.sound (Steady.of_live hat hlive (by simp) (by simp))
  . intro exn w' hraised _
    exact hraised
  intro hcancel w1 hw1 hview1
  have hcancel1 : w1.cancelSignal = false := by
    rw [← hcancel]
    exact congrArg View.cancelSignal hview1
  rw [← hview1] at hat hlive
  rw [wp_bind, wp_get]
  split
  . next hpause =>
    rw [wp_bind]
    apply wp_enterPaused_parked hw1 hat hpause hcancel1
    intro _ w2 hw2 hat2 hparked2
    exact { sound := hw2, pc := ⟨hat2, hparked2⟩ }
  . exact wp_stageOptimizer_sound hw1 hat hlive hcancel1

theorem wp_optimizerUnpark_sound {staged : Bool} (h : Suspended origin (.optimizerParked staged) w)
    (hreleased : released w = true) : wp (optimizerUnpark env staged) w (Suspended origin) (Raised origin) := by
  obtain ⟨hat, hparked⟩ := h.pc
  unfold optimizerUnpark
  rw [wp_bind]
  apply wp_checkCancel_sound h.sound (Steady.of_live hat hparked.1 (by simp) (by simp))
  . intro exn w' hraised _
    exact hraised
  intro hcancel w1 hw1 hview1
  have hresume : w.resumeSignal = true := by simpa [released, hcancel] using hreleased
  have hlive := hparked.released hcancel hresume
  have hcancel1 : w1.cancelSignal = false := by
    rw [← hcancel]
    exact congrArg View.cancelSignal hview1
  rw [← hview1] at hat hlive
  split
  . rw [wp_bind]
    apply wp_setStage_live hw1 hat hlive hcancel1 (by decide) rfl (by decide)
    intro w2 hw2 hat2 hlive2 hcancel2 _
    exact wp_startOptimizer_sound hw2 hat2 hlive2 hcancel2
  . exact wp_stageOptimizer_sound hw1 hat hlive hcancel1

-- The view after the plan for the next version has been stored.
def advance (plan : RevisionPlan) (v : View) : View :=
  {
    v with
    loop := {
      v.loop with
      currentIteration := v.loop.currentIteration + 1
      reviews := fun _ => none
      pendingRevisionPlan := some plan
      pendingUserOverride := none
    }
  }

theorem At.advance {plan : RevisionPlan} {v : View} (h : At v .judged) :
    At (advance plan v) .pending := by
  obtain ⟨hiteration, hlength, hheld⟩ := h.facts
  have hshape := h.shape
  exact {
    shape := {
      numbered := hshape.numbered
      bounded := hshape.bounded
      iteration_le := by
        change v.loop.currentIteration + 1 ≤ v.loop.maxIterations
        omega
      max_le := hshape.max_le
      iteration := by
        right
        change v.loop.currentIteration + 1 = v.loop.versions.length + 1
        omega
      earlier := hshape.earlier
      streams := hshape.streams
      streams_later := by
        intro i hi
        apply hshape.streams_later
        change v.loop.currentIteration + 1 < i at hi
        omega
    }
    facts := by
      refine ⟨?_, hheld⟩
      change v.loop.currentIteration + 1 = v.loop.versions.length + 1
      omega
    completed := by
      have hcompleted := h.completed
      simpa [Workflow.advance] using hcompleted
    exhausted := by
      have hexhausted := h.exhausted
      simpa [Workflow.advance] using hexhausted
  }

theorem At.not_pending (h : At w.view .judged) : ¬w.snapshot.text.Pending := by
  have hlength : w.snapshot.currentIteration = w.snapshot.versions.length := h.facts.1
  unfold TextView.Pending RunSnapshot.text
  rw [List.length_map]
  dsimp only
  omega

theorem wp_commit_planned {plan : RevisionPlan} {Q : RunSnapshot → World → Prop}
    {E : Exn → World → Prop} (hw : Sound origin w) (hat : At w.view .judged)
    (hlive : Live [.optimizing, .pauseRequested] w.view) (hcancel : w.cancelSignal = false)
    (hQ : ∀ w', Sound origin w' → w'.view = advance plan w.view → Q w'.snapshot w') :
    wp
      (commit env .none (finishOptimizer w.cancelSignal plan) (some .revisionPlanned) fun _ =>
        [("revision_plan", .obj plan.dump)]) w Q E := by
  apply wp_commit_guarded hw hcancel
  . apply Lawful.quiet
    . have hmax := hat.shape.max_le
      obtain ⟨heq, hlt, _⟩ := hat.facts
      have hiteration : w.snapshot.currentIteration = w.view.loop.currentIteration := rfl
      unfold ValidIteration
      dsimp only
      omega
    . rfl
    . rfl
    . simp [RunEventType.ending]
    . apply TextMove.planned hat.not_pending
      . apply hat.shape.streams_later
        exact Nat.lt_succ_self w.snapshot.currentIteration
      . rfl
    . exact .planned (hlive.open hcancel (by decide)) hat.snapshot_judged
  . intro w1 hw1 hview1
    apply hQ w1 hw1
    rw [hview1]
    rfl

theorem wp_commitPlan_sound {result : ProviderStructuredResult} {plan : RevisionPlan} (hw : Sound origin w)
    (hat : At w.view .judged) (hlive : Live [.optimizing, .pauseRequested] w.view)
    (hvalid : ValidIteration frame.state.currentIteration) :
    wp (commitPlan env frame result plan) w (Suspended origin) (Raised origin) := by
  unfold commitPlan
  rw [wp_bind]
  apply wp_checkCancel_sound hw (Steady.of_live hat hlive (by simp) (by simp))
  . intro exn w' hraised _
    exact hraised
  intro hcancel w1 hw1 hview1
  have hcancel1 : w1.cancelSignal = false := by
    rw [← hcancel]
    exact congrArg View.cancelSignal hview1
  have hat1 : At w1.view .judged := by
    rw [hview1]
    exact hat
  have hlive1 : Live [.optimizing, .pauseRequested] w1.view := by
    rw [hview1]
    exact hlive
  rw [wp_bind, wp_get, wp_bind]
  apply wp_commit_planned hw1 hat1 hlive1 hcancel1
  intro w2 hw2 hview2
  rw [wp_bind]
  apply wp_recordUsage_sound hw2
  intro w3 hw3 hview3
  rw [wp_bind]
  apply wp_monotonic_sound hw3
  intro now w4 hw4 hview4
  rw [wp_bind]
  apply wp_recordTiming_sound hw4 hvalid (by omega)
  intro w5 hw5 hview5
  have hview : w5.view = advance plan w.view := by
    rw [hview5, hview4, hview3, hview2, ← hview1]
  have hat5 : At w5.view .pending := by
    rw [hview]
    exact hat.advance
  have hlive5 : Live [.optimizing, .pauseRequested] w5.view := by
    rw [hview]
    exact hlive
  have hcancel5 : w5.cancelSignal = false := by
    rw [← hcancel]
    exact congrArg View.cancelSignal hview
  rw [wp_bind]
  apply wp_setStage_live hw5 hat5 hlive5 hcancel5 (by decide) rfl (by decide)
  intro w6 hw6 hat6 hlive6 _ hloop6
  refine { sound := hw6, pc := ⟨hat6, hlive6.mono (by simp), ?_⟩ }
  rw [hloop6, hview]
  apply hat.shape.streams_later
  change w.view.loop.currentIteration < w.view.loop.currentIteration + 1
  omega

theorem wp_optimizerWake_sound {env : WorkflowEnv} {answer : Answer ProviderStructuredResult}
    (h : Suspended origin (.optimizing frame structured) w)
    (haccepts : structured.await.accepts w answer = true) :
    wp (optimizerWake env frame structured answer) w (Suspended origin) (Raised origin) := by
  have hw := h.sound
  obtain ⟨hat, hlive, hcurrent, hstructured⟩ := h.pc
  have hsteady := Steady.of_live hat hlive (by simp) (by simp)
  have hvalid : ValidIteration frame.state.currentIteration := by
    rw [hcurrent.iteration]
    exact hw.iteration
  unfold optimizerWake
  split
  . apply Raised.of_view hw rfl hsteady
    . simp [NotIllegal]
    . simp
  . rw [wp_bind]
    apply wp_structuredWake_sound hw hsteady hstructured haccepts
    . intro i
      rfl
    . intro value i
      rfl
    . intro exn w' hraised _
      exact hraised
    . intro structured' w1 hw1 hview1 hstructured1
      refine { sound := hw1, pc := ?_ }
      rw [hview1] at hstructured1 ⊢
      exact ⟨hat, hlive, hcurrent, hstructured1⟩
    . intro result plan
      exact wp_commitPlan_sound hw hat hlive hvalid

end Optimizer

end Workflow

end AgenticPrd
