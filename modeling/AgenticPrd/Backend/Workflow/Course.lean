import AgenticPrd.Backend.Workflow.Failures

/-!
The loop of the agents as an abstract machine: the places of the workflow, the plot, and the moves
that lead from one to the next. Every step of a run is one of its moves, and a step that ends the task
by an exception has made none before it.
-/

namespace AgenticPrd

-- The error of a run that has failed with the exception.
def Exn.failure (exn : Exn) : RunError :=
  let (code, message, retryable) := match exn with
    | .providerError error => (error.code, error.userMessage, error.isRetryable)
    | .timeoutError => ("RUN_TIMEOUT", "The run exceeded a configured timeout.", true)
    | .validationError =>
      ("STRUCTURED_OUTPUT_INVALID", "The provider returned invalid structured output.", false)
    | _ => ("WORKFLOW_FAILED", "The workflow could not complete.", false)
  {
    code
    message := (message.take 2000).toString
    retryable
  }

namespace Workflow

open RunManager Prog

variable {env : Env} {G G' : Plot → Prop} {F : Exn → Prop} {w : World} {origin : World}

section Task

-- What a run makes of an exception: it has been cancelled before, or it fails.
def Reports (exn : Exn) (w w' : World) : Prop :=
  (w' = w ∧ w.snapshot.status = .cancelled)
    ∨
  (exn ≠ .workflowCancelled
    ∧ w'.snapshot.plot = w.snapshot.plot.concluded
    ∧ w'.snapshot.status = .failed
    ∧ w'.snapshot.error = some exn.failure)

theorem wp_failRun_reports {exn : Exn} {code message : String} {retryable : Bool}
    (hw : Sound origin w) (hopen : w.snapshot.status.isTerminal = false) (hcode : LengthIn code 100)
    (hmessage : 1 ≤ message.length) (hraised : exn ≠ .workflowCancelled)
    (hfailure : exn.failure = { code, message := (message.take 2000).toString, retryable }) :
    wp (failRun env code message retryable) w (fun _ w' => Reports exn w w') fun _ _ => False := by
  have hnever : wp (failRun env code message retryable) w (fun _ _ => True) fun _ _ => False :=
    wp_failRun_sound hw hcode hmessage (fun _ => trivial) fun _ _ _ _ => trivial
  have hreports : wp (failRun env code message retryable) w (fun _ w' => Reports exn w w')
      fun _ _ => True := by
    unfold failRun
    rw [wp_bind, wp_get]
    rw [if_neg (by simp [hopen]), wp_bind]
    have hpart : Stampless fun s : RunSnapshot => (s.plot, s.status, s.error) :=
      ⟨fun _ _ => rfl, fun _ _ => rfl, fun _ _ => rfl⟩
    apply wp_mono (wp_commit_part hpart (P := fun part =>
      part = (w.snapshot.plot.concluded, .failed, some exn.failure)) _)
    . intro _ w' hpart'
      rw [Prod.mk.injEq, Prod.mk.injEq] at hpart'
      exact .inr ⟨hraised, hpart'⟩
    . intro _ _ _
      trivial
    . rw [wp_modify, hfailure]
      rfl
  exact wp_mono (wp_and hnever hreports) (fun _ _ h => h.2) fun _ _ h => h.1

theorem wp_failUnlessCancelled_reports {exn : Exn} {code message : String} {retryable : Bool}
    (h : Raised origin exn w) (hover : w.snapshot.status.isOver = false) (hcode : LengthIn code 100)
    (hmessage : 1 ≤ message.length)
    (hfailure : exn.failure = { code, message := (message.take 2000).toString, retryable }) :
    wp (failUnlessCancelled env code message retryable) w (fun _ w' => Reports exn w w')
      fun _ _ => False := by
  unfold failUnlessCancelled
  rw [wp_bind, wp_get, wp_ite]
  rcases h.steady.live with ⟨hset, hstatus⟩ | ⟨hclear, hstatus, _⟩
  . change w.cancelSignal = true at hset
    rw [if_pos hset, wp_bind]
    apply wp_finalizeCancel_idle
    . rw [hstatus]
      simp
    . exact .inl ⟨rfl, hstatus⟩
  . change w.cancelSignal = false at hclear
    rw [if_neg (by simp [hclear]), wp_bind]
    apply wp_mono (wp_failRun_reports h.sound _ hcode hmessage _ hfailure)
    . intro _ w' hreports
      exact hreports
    . intro _ _ hfalse
      exact hfalse
    . unfold RunStatus.isOver at hover
      change w.snapshot.status ≠ .cancelled at hstatus
      simpa [hstatus] using hover
    . rintro rfl
      have hset : w.cancelSignal = true := h.cancelled rfl
      rw [hclear] at hset
      contradiction

-- The `except` clauses end the task with the exception that they were given.
theorem wp_workflowExcept_reports {exn : Exn} (h : Raised origin exn w)
    (hover : w.snapshot.status.isOver = false) :
    wp (workflowExcept env exn) w (fun pc w' => pc = .finished (some exn) ∧ Reports exn w w')
      fun _ _ => False := by
  have hfails : ∀ {code message retryable}, LengthIn code 100 → 1 ≤ message.length →
      exn.failure = { code, message := (message.take 2000).toString, retryable } →
      wp (failUnlessCancelled env code message retryable) w
        (fun _ w' => Pc.finished (some exn) = .finished (some exn) ∧ Reports exn w w')
        fun _ _ => False := by
    intro code message retryable hcode hmessage hfailure
    apply wp_mono (wp_failUnlessCancelled_reports h hover hcode hmessage hfailure)
    . intro _ w' hreports
      exact ⟨rfl, hreports⟩
    . intro _ _ hfalse
      exact hfalse
  unfold workflowExcept
  rw [wp_tryCatch, wp_bind]
  cases exn with
  | workflowCancelled =>
    have hset := h.cancelled rfl
    unfold runExcept
    rw [wp_bind]
    rcases h.steady.live with ⟨_, hstatus⟩ | ⟨hclear, _⟩
    . apply wp_finalizeCancel_idle
      . rw [hstatus]
        simp
      . exact ⟨rfl, .inl ⟨rfl, hstatus⟩⟩
    . change w.cancelSignal = false at hclear
      rw [hset] at hclear
      contradiction
  | providerError error =>
    apply wp_mono (hfails error.code_length error.userMessage_length.1 rfl)
    . intro _ _ hreports
      exact hreports
    . intro _ _ hfalse
      exact hfalse.elim
  | timeoutError =>
    apply wp_mono (hfails (by decide) (by decide) rfl)
    . intro _ _ hreports
      exact hreports
    . intro _ _ hfalse
      exact hfalse.elim
  | validationError =>
    apply wp_mono (hfails (by decide) (by decide) rfl)
    . intro _ _ hreports
      exact hreports
    . intro _ _ hfalse
      exact hfalse.elim
  | _ =>
    -- `run` handles no other exception, and `_run_workflow` does.
    unfold runExcept
    rw [wp_throw, wp_bind]
    exact hfails (by decide) (by decide) rfl

/--
How a step of the task ends: it has gone on from a plot of `G` or of `G'`, or it has raised, and the
plot is as it was but for the end of the run.
-/
inductive TaskEnds (G G' : Plot → Prop) (F : Exn → Prop) (P P' : Pc → Prop) (c : Config) : Prop where
  | stays (hplot : G c.world.snapshot.plot) (hpc : P c.pc)
  | moves (hplot : G' c.world.snapshot.plot) (hpc : P' c.pc)
  | raises {exn : Exn} {w : World} (hexn : F exn) (hplot : G w.snapshot.plot)
    (hpc : c.pc = .finished (some exn)) (hreports : Reports exn w c.world)

theorem runTask_ends {program : Prog World Exn Pc} {P P' : Pc → Prop}
    (hsound : wp program w (Suspended origin) (Raised origin))
    (hshifts : Shifts (Sane G) (Sane G') F Illegal P P' program) (h : Sane G w)
    (hover : ∀ p, G p → p.isOver = false) : TaskEnds G G' F P P' (runTask env program w) := by
  have htask : wp (tryCatch program (workflowExcept env)) w
      (fun pc w' => TaskEnds G G' F P P' { world := w', pc }) fun _ _ => False := by
    rw [wp_tryCatch]
    apply wp_mono (wp_and hsound (hshifts w h))
    . rintro pc w' ⟨_, hstays | hmoves⟩
      . exact .stays hstays.1.1 hstays.2
      . exact .moves hmoves.1.1 hmoves.2
    . rintro exn w' ⟨hraised, hstays | hmoves⟩
      . apply wp_mono (wp_workflowExcept_reports hraised (hover _ hstays.1.1))
        . rintro pc w'' ⟨rfl, hreports⟩
          exact .raises hstays.2 hstays.1.1 rfl hreports
        . intro _ _ hfalse
          exact hfalse
      . obtain ⟨current, target, rfl⟩ := hmoves.2
        exact absurd rfl (hraised.legal current target)
  unfold runTask
  unfold wp at htask
  split
  . next heq =>
    rw [heq] at htask
    exact htask
  . next heq =>
    rw [heq] at htask
    contradiction

end Task

section Reviewer

variable {role : ReviewRole} {reviewers : ReviewRole → ReviewerPc}

-- How a step of a reviewer ends.
inductive ReviewerEnds (G G' : Plot → Prop) (F : Exn → Prop) (P P' : ReviewerPc → Prop)
    (role : ReviewRole) (reviewers : ReviewRole → ReviewerPc) (c : Config) : Prop where
  | stays {pc : ReviewerPc} (hplot : G c.world.snapshot.plot) (hpc : P pc)
    (hreviewers : c.pc = .reviewing (Function.update reviewers role pc))
  | moves {pc : ReviewerPc} (hplot : G' c.world.snapshot.plot) (hpc : P' pc)
    (hreviewers : c.pc = .reviewing (Function.update reviewers role pc))
  | raises {exn : Exn} (hplot : G c.world.snapshot.plot) (hexn : F exn)
    (hreviewers : c.pc = .reviewing (Function.update reviewers role (.raised exn)))

theorem runReviewer_ends {program : Prog World Exn ReviewerPc} {P P' : ReviewerPc → Prop}
    (hsound : wp program w (Reviewing origin role w.view)
      fun exn => Reviewing origin role w.view (.raised exn))
    (hshifts : Shifts (Sane G) (Sane G') F Illegal P P' program) (h : Sane G w) :
    ReviewerEnds G G' F P P' role reviewers (runReviewer role reviewers program w) := by
  have hboth := wp_and hsound (hshifts w h)
  unfold runReviewer
  unfold wp at hboth
  split
  . next heq =>
    rw [heq] at hboth
    rcases hboth with ⟨_, hstays | hmoves⟩
    . exact .stays hstays.1.1 hstays.2 rfl
    . exact .moves hmoves.1.1 hmoves.2 rfl
  . next heq =>
    rw [heq] at hboth
    rcases hboth with ⟨hreviewing, hstays | hmoves⟩
    . exact .raises hstays.1.1 hstays.2 rfl
    . obtain ⟨current, target, rfl⟩ := hmoves.2
      exact absurd rfl (hreviewing.pc.1 current target)

end Reviewer

section Machine

-- The steps in which the optimizer starts, or parks.
inductive EntersOptimizer : Pc → Label → Prop where
  | first : EntersOptimizer .toOptimizer .enterOptimizer
  | again {staged : Bool} : EntersOptimizer (.optimizerParked staged) .optimizerUnpark

-- The steps of one reviewer.
inductive StepsReviewer (role : ReviewRole) : Label → Prop where
  | enter : StepsReviewer role (.reviewerEnter role)
  | wake {answer : Answer ProviderStructuredResult} : StepsReviewer role (.reviewerWake role answer)

/--
The moves of the loop, from a place and a plot to the next. `F` are the exceptions that it may end
with.
-/
inductive Move (env : WorkflowEnv) (F : Exn → Prop) (p : Plot) : Pc → Label → Pc → Plot → Prop where
  | requested {pc : Pc} {label : Label} (hlabel : label.isRequest = true) : Move env F p pc label pc p
  | began : Move env F p .created .begin .toGenerator p
  | opened {state : RunSnapshot} {attempt : Nat} {frame : GeneratorFrame} (hstate : state.plot = p)
    (hattempt : 1 ≤ attempt ∧ attempt ≤ 2)
    (hopens : OpensStream F state state.pendingRevisionPlan attempt frame) :
    Move env F p .toGenerator .enterGenerator (.generating frame) p
  | streamed {frame frame' : GeneratorFrame} {answer : Answer (Option ProviderTextEvent)}
    (hwaits : Waits F frame answer frame') :
    Move env F p (.generating frame) (.generatorWake answer) (.generating frame') p
  | written {frame : GeneratorFrame} {content : String} {version : PRDVersion}
    (hvalid : PrdDocument.validateGeneratedPrd frame.content frame.finishReason = .ok content)
    (hiteration : version.version = p.currentIteration)
    (hcomposed : Composed frame.state frame.plan content version) :
    Move env F p (.generating frame) (.generatorWake (.returned none)) (.reviewing fun _ => .ready)
      (p.written version)
  | called {role : ReviewRole} {reviewers : ReviewRole → ReviewerPc} {frame : NodeFrame}
    {structured : StructuredPc} (hready : reviewers role = .ready) (hstate : frame.state.plot = p)
    (hawaits : AwaitsCall F False structured) :
    Move env F p (.reviewing reviewers) (.reviewerEnter role)
      (.reviewing (Function.update reviewers role (.suspended frame structured))) p
  | calledAgain {role : ReviewRole} {reviewers : ReviewRole → ReviewerPc} {frame : NodeFrame}
    {structured next : StructuredPc} {answer : Answer ProviderStructuredResult}
    (hsuspended : reviewers role = .suspended frame structured)
    (hawaits : AwaitsCall F (Unread env.roleReview answer) next) :
    Move env F p (.reviewing reviewers) (.reviewerWake role answer)
      (.reviewing (Function.update reviewers role (.suspended frame next))) p
  | reviewed {role : ReviewRole} {reviewers : ReviewRole → ReviewerPc} {frame : NodeFrame}
    {structured : StructuredPc} {answer : Answer ProviderStructuredResult} {review : RoleReview}
    (hsuspended : reviewers role = .suspended frame structured)
    (hanswers : Answers env.roleReview answer review) (hrole : review.role = role) :
    Move env F p (.reviewing reviewers) (.reviewerWake role answer)
      (.reviewing (Function.update reviewers role .done)) (p.reviewed role review)
  | reviewerRaised {role : ReviewRole} {reviewers : ReviewRole → ReviewerPc} {label : Label}
    {exn : Exn} (hlabel : StepsReviewer role label) (hexn : F exn) :
    Move env F p (.reviewing reviewers) label
      (.reviewing (Function.update reviewers role (.raised exn))) p
  | joined {reviewers : ReviewRole → ReviewerPc} (hdone : ∀ role, (reviewers role).isDone = true) :
    Move env F p (.reviewing reviewers) .reviewersJoin .toAggregator p
  | judged {pc : Pc} {evaluation : EvaluationResult} {p' : Plot} (hjudged : p.JudgedBy evaluation)
    (hpc : pc = .routing ∨ pc = .aggregatorParked)
    (hplot : p' = p.judged evaluation ∨ p' = (p.judged evaluation).concluded) :
    Move env F p .toAggregator .enterAggregator pc p'
  | woken : Move env F p .aggregatorParked .aggregatorWake .routing p
  | ended : Move env F p .routing .route (.finished none) p
  | routed : Move env F p .routing .route .toOptimizer p
  | parked {pc : Pc} {label : Label} {staged : Bool} (henters : EntersOptimizer pc label) :
    Move env F p pc label (.optimizerParked staged) p
  | planning {pc : Pc} {label : Label} {frame : NodeFrame} {structured : StructuredPc}
    (henters : EntersOptimizer pc label) (hstate : frame.state.plot = p)
    (hawaits : AwaitsCall F False structured) :
    Move env F p pc label (.optimizing frame structured) p
  | planningAgain {frame : NodeFrame} {structured next : StructuredPc}
    {answer : Answer ProviderStructuredResult}
    (hawaits : AwaitsCall F (Unread env.revisionPlan answer) next) :
    Move env F p (.optimizing frame structured) (.optimizerWake answer) (.optimizing frame next) p
  | planned {frame : NodeFrame} {structured : StructuredPc}
    {answer : Answer ProviderStructuredResult} {plan : RevisionPlan}
    (hanswers : Answers env.revisionPlan answer plan) :
    Move env F p (.optimizing frame structured) (.optimizerWake answer) .toGenerator p.advanced
  | raised {pc : Pc} {label : Label} {exn : Exn} {p' : Plot} (hlabel : label.isRequest = false)
    (hexn : F exn) (hplot : p' = p ∨ p' = p.concluded) :
    Move env F p pc label (.finished (some exn)) p'

/--
What a suspended workflow has at hand for its next move: the calls that it waits for settle in one of
`F`, and from the evaluation to the next plan there is an evaluation to plan from.
-/
def Ready (F : Exn → Prop) (p : Plot) : Pc → Prop
  | .generating frame => Settles F frame.await
  | .reviewing reviewers =>
    (∀ role frame structured, reviewers role = .suspended frame structured → Settles F structured.await)
      ∧ ∀ role exn, reviewers role = .raised exn → F exn
  | .aggregatorParked => p.latestEvaluation ≠ none
  | .routing => p.latestEvaluation ≠ none
  | .toOptimizer => p.latestEvaluation ≠ none
  | .optimizerParked _ => p.latestEvaluation ≠ none
  | .optimizing frame structured =>
    frame.state.latestEvaluation ≠ none ∧ Settles F structured.await
  | .finished exn => ∀ e ∈ exn, F e
  | _ => True

-- What the answer of a step gives the workflow cause to raise.
def blames (env : WorkflowEnv) : Pc → Label → List Exn
  | .generating _, .generatorWake (.raised exn) => [exn.toExn]
  | .generating frame, .generatorWake (.returned none) =>
    match PrdDocument.validateGeneratedPrd frame.content frame.finishReason with
    | .error error => [.providerError error]
    | .ok _ => if frame.usage.isNone then [.providerError .retryable] else []
  | .reviewing _, .reviewerWake _ (.raised exn) => [exn.toExn]
  | .reviewing reviewers, .reviewerWake role (.returned result) =>
    match env.roleReview result.value, reviewers role with
    | some review, _ => if review.role = role then [] else [.validationError]
    | none, .suspended _ (.repairing _ _) => [.validationError]
    | none, _ => []
  | .optimizing _ _, .optimizerWake (.raised exn) => [exn.toExn]
  | .optimizing _ (.repairing _ _), .optimizerWake (.returned result) =>
    if (env.revisionPlan result.value).isNone then [.validationError] else []
  | _, _ => []

end Machine

section Step

variable {env : WorkflowEnv} {c c' : Config} {label : Label} {p : Plot}

-- What the snapshot tells of a task that is over.
def Reported (snapshot : RunSnapshot) : Option Exn → Prop
  | none => snapshot.status ∈ [RunStatus.completed, .maxIterationsReached, .cancelled]
  | some exn =>
    snapshot.status = .cancelled
      ∨ exn ≠ .workflowCancelled ∧ snapshot.status = .failed ∧ snapshot.error = some exn.failure

-- A step is a move of the loop, and the end of the task is reported.
structure Obeys (env : WorkflowEnv) (F : Exn → Prop) (c : Config) (label : Label) (c' : Config) :
    Prop where
  move : Move env F c.world.snapshot.plot c.pc label c'.pc c'.world.snapshot.plot
  reported :
    label.isRequest = false → ∀ outcome, c'.pc = .finished outcome →
      Reported c'.world.snapshot outcome

-- A step of the task obeys by the way it ends.
theorem TaskEnds.obeys {P P' : Pc → Prop}
    (h : TaskEnds (fun q => q = c.world.snapshot.plot) G' F P P' c')
    (hlabel : label.isRequest = false)
    (hstays : ∀ pc, P pc → (∀ outcome, pc ≠ .finished outcome)
      ∧ Move env F c.world.snapshot.plot c.pc label pc c.world.snapshot.plot)
    (hmoves : ∀ pc p', P' pc → G' p' → (∀ outcome, pc ≠ .finished outcome)
      ∧ Move env F c.world.snapshot.plot c.pc label pc p') :
    Obeys env F c label c' := by
  cases h with
  | stays hplot hpc =>
    obtain ⟨hgoing, hmove⟩ := hstays _ hpc
    rw [← hplot] at hmove
    refine ⟨?_, ?_⟩
    . rw [hplot] at hmove ⊢
      exact hmove
    . intro _ outcome hfinished
      exact absurd hfinished (hgoing outcome)
  | moves hplot hpc =>
    obtain ⟨hgoing, hmove⟩ := hmoves _ _ hpc hplot
    refine ⟨hmove, ?_⟩
    intro _ outcome hfinished
    exact absurd hfinished (hgoing outcome)
  | @raises exn w hexn hplot hpc hreports =>
    refine ⟨?_, ?_⟩
    . rw [hpc]
      apply Move.raised hlabel hexn
      rw [← hplot]
      rcases hreports with ⟨hsame, _⟩ | ⟨_, hconcluded, _⟩
      . rw [hsame]
        exact .inl rfl
      . exact .inr hconcluded
    . intro _ outcome hfinished
      rw [hpc] at hfinished
      cases hfinished
      rcases hreports with ⟨hsame, hstatus⟩ | ⟨hraised, _, hfailed⟩
      . left
        rw [hsame]
        exact hstatus
      . exact .inr ⟨hraised, hfailed⟩

variable (hinv : Inv c) (hpermits : Permits F) (hready : Ready F c.world.snapshot.plot c.pc)
  (hblames : ∀ exn ∈ blames env c.pc label, F exn)

theorem Inv.sane (hinv : Inv c) : Sane (fun q => q = c.world.snapshot.plot) c.world :=
  ⟨rfl, hinv.sound.rows_le⟩

theorem Inv.admits (hinv : Inv c) (hpermits : Permits F) :
    Admits (fun q => q = c.world.snapshot.plot) F :=
  {
    iteration := by
      rintro _ rfl
      exact hinv.sound.iteration
    illegal := hpermits.illegal
  }

-- A node moves the plot to one of the same iteration.
theorem Inv.admitsMoved {H : Plot → Prop} (hinv : Inv c)
    (hmoved : ∀ q, H q → q.currentIteration = c.world.snapshot.plot.currentIteration) :
    Admits H Illegal :=
  {
    iteration := by
      intro q hq
      rw [hmoved q hq]
      exact hinv.sound.iteration
    illegal := fun _ h => h
  }

theorem Live.notOver {statuses : List RunStatus} {v : View} (h : Live statuses v)
    (hopen : ∀ status ∈ statuses, status.isTerminal = false) : v.status.isOver = false := by
  unfold RunStatus.isOver
  rcases h with ⟨_, hcancelled⟩ | ⟨_, hstatus⟩
  . rw [hcancelled]
    simp
  . rw [hopen _ hstatus]
    rfl

theorem At.isPending (h : At w.view .pending) : ∀ q, q = w.snapshot.plot → q.IsPending := by
  rintro _ rfl
  exact h.facts.1

-- A step that leaves the plot alone, or raises.
theorem Inv.obeys (hinv : Inv c) (hlabel : label.isRequest = false)
    (hover : c.world.snapshot.status.isOver = false) {program : Prog World Exn Pc} {P : Pc → Prop}
    (hsound : wp program c.world (Suspended c.world) (Raised c.world))
    (hwithin : Within (Sane fun q => q = c.world.snapshot.plot) F P program)
    (hstays : ∀ pc, P pc → (∀ outcome, pc ≠ .finished outcome)
      ∧ Move env F c.world.snapshot.plot c.pc label pc c.world.snapshot.plot) :
    Obeys env F c label (runTask env.toEnv program c.world) := by
  have hends : TaskEnds (fun q => q = c.world.snapshot.plot) (fun _ => False) F P (fun _ => False)
      (runTask env.toEnv program c.world) :=
    runTask_ends hsound hwithin.shifts hinv.sane (by rintro _ rfl; exact hover)
  apply hends.obeys hlabel hstays
  intro _ _ _ hfalse
  exact hfalse.elim

omit hinv hpermits hready hblames

section Places

-- The plots with a version that the stream may have ended with.
def WrittenBy (frame : GeneratorFrame) (p q : Plot) : Prop :=
  ∃ content version,
    PrdDocument.validateGeneratedPrd frame.content frame.finishReason = .ok content
      ∧ Composed frame.state frame.plan content version
      ∧ q = p.written version

-- The plots with an evaluation of the three reviews.
def JudgedFrom (p q : Plot) : Prop :=
  ∃ evaluation, p.JudgedBy evaluation
    ∧ (q = p.judged evaluation ∨ q = (p.judged evaluation).concluded)

variable (hpermits : Permits F)

include hpermits

theorem obeys_begin (hinv : Inv { world := w, pc := .created }) :
    Obeys env F { world := w, pc := .created } .begin (runTask env.toEnv (begin env.toEnv) w) := by
  obtain ⟨_, hlive, _⟩ := hinv.pc
  apply hinv.obeys rfl (hlive.notOver (by simp [RunStatus.isTerminal])) (wp_begin_sound hinv)
    (within_begin (hinv.admits hpermits))
  rintro _ rfl
  exact ⟨by simp, .began⟩

theorem obeys_generatorNode (hinv : Inv { world := w, pc := .toGenerator }) :
    Obeys env F { world := w, pc := .toGenerator } .enterGenerator
      (runTask env.toEnv (generatorNode env.toEnv) w) := by
  obtain ⟨hat, hlive, _⟩ := hinv.pc
  apply hinv.obeys rfl (hlive.notOver (by simp [RunStatus.isTerminal])) (wp_generatorNode_sound hinv)
    (within_generatorNode hpermits (hinv.admits hpermits) hat.isPending)
  rintro _ ⟨state, attempt, opened, rfl, hstate, hfirst, hlast, hopens⟩
  exact ⟨by simp, .opened hstate ⟨hfirst, hlast⟩ hopens⟩

theorem obeys_generatorWake {frame : GeneratorFrame} {answer : Answer (Option ProviderTextEvent)}
    (hinv : Inv { world := w, pc := .generating frame })
    (hready : Ready F w.snapshot.plot (.generating frame))
    (hblames : ∀ exn ∈ blames env (.generating frame) (.generatorWake answer), F exn)
    (haccepts : frame.await.accepts w answer = true) :
    Obeys env F { world := w, pc := .generating frame } (.generatorWake answer)
      (runTask env.toEnv (generatorWake env.toEnv frame answer) w) := by
  obtain ⟨hgenerating, hplan, hattempt, _⟩ := hinv.pc
  have hover := hgenerating.live.notOver (by simp [RunStatus.isTerminal])
  have hiteration : ValidIteration frame.state.currentIteration := by
    rw [hgenerating.iteration]
    exact hinv.sound.iteration
  have hraised : ∀ exn, answer = .raised exn → F exn.toExn := by
    rintro exn rfl
    exact hblames _ (by simp [blames])
  have hcloses : answer = .returned none → Closes F frame := by
    rintro rfl
    refine ⟨?_, ?_⟩
    . intro error herror
      apply hblames
      simp [blames, herror]
    . intro validated hvalid husage
      apply hblames
      simp [blames, hvalid, husage]
  have hwritten : Admits (WrittenBy frame w.snapshot.plot) Illegal := by
    apply hinv.admitsMoved
    rintro _ ⟨_, _, _, _, rfl⟩
    rfl
  have hshifts : Shifts _ (Sane (WrittenBy frame w.snapshot.plot)) F Illegal _ _ (generatorWake env.toEnv frame answer) :=
    shifts_generatorWake hpermits (hinv.admits hpermits) hwritten hgenerating.stage.isPending
      hiteration hattempt.1 hready haccepts hraised hcloses (by
        rintro _ content version hvalid hcomposed _ rfl
        exact ⟨content, version, hvalid, hcomposed, rfl⟩)
  apply (runTask_ends (wp_generatorWake_sound hinv haccepts) hshifts hinv.sane
    (by rintro _ rfl; exact hover)).obeys rfl
  . rintro _ ⟨opened, rfl, hwaits⟩
    exact ⟨by simp, .streamed hwaits⟩
  . rintro _ _ ⟨rfl, rfl⟩ ⟨content, version, hvalid, hcomposed, rfl⟩
    refine ⟨by simp, .written hvalid ?_ hcomposed⟩
    rw [hcomposed.iteration, hgenerating.iteration]
    rfl

section Reviewers

variable {role : ReviewRole} {reviewers : ReviewRole → ReviewerPc}

theorem obeys_reviewerNode (hinv : Inv { world := w, pc := .reviewing reviewers })
    (hnext : reviewers role = .ready) :
    Obeys env F { world := w, pc := .reviewing reviewers } (.reviewerEnter role)
      (runReviewer role reviewers (reviewerNode env.toEnv role) w) := by
  obtain ⟨hat, hlive, _⟩ := hinv.pc
  have hends : ReviewerEnds (fun q => q = w.snapshot.plot) (fun _ => False) F _ (fun _ => False) role
      reviewers (runReviewer role reviewers (reviewerNode env.toEnv role) w) :=
    runReviewer_ends (wp_reviewerNode_sound hinv.sound hat hlive)
      (within_reviewerNode hpermits (hinv.admits hpermits)).shifts hinv.sane
  cases hends with
  | stays hplot hpc hreviewers =>
    obtain ⟨frame, structured, rfl, hstate, hawaits⟩ := hpc
    refine ⟨?_, ?_⟩
    . rw [hplot, hreviewers]
      exact .called hnext hstate hawaits
    . intro _ outcome hfinished
      rw [hreviewers] at hfinished
      contradiction
  | moves hplot _ _ => exact hplot.elim
  | raises hplot hexn hreviewers =>
    refine ⟨?_, ?_⟩
    . rw [hplot, hreviewers]
      exact .reviewerRaised .enter hexn
    . intro _ outcome hfinished
      rw [hreviewers] at hfinished
      contradiction

theorem obeys_reviewerWake {frame : NodeFrame} {structured : StructuredPc}
    {answer : Answer ProviderStructuredResult}
    (hinv : Inv { world := w, pc := .reviewing reviewers })
    (hready : Ready F w.snapshot.plot (.reviewing reviewers))
    (hblames : ∀ exn ∈ blames env (.reviewing reviewers) (.reviewerWake role answer), F exn)
    (hsuspended : reviewers role = .suspended frame structured)
    (haccepts : structured.await.accepts w answer = true) :
    Obeys env F { world := w, pc := .reviewing reviewers } (.reviewerWake role answer)
      (runReviewer role reviewers (reviewerWake env role frame structured answer) w) := by
  obtain ⟨hat, hlive, hreviewers⟩ := hinv.pc
  have hrole : ReviewerInv w.view role (.suspended frame structured) := by
    rw [← hsuspended]
    exact hreviewers role
  have hraised : ∀ exn, answer = .raised exn → F exn.toExn := by
    rintro exn rfl
    exact hblames _ (by simp [blames])
  have hinvalid : ∀ result await, structured = .repairing result await →
      Unread env.roleReview answer → F .validationError := by
    rintro result await rfl ⟨result', rfl, hmodel⟩
    apply hblames
    simp [blames, hmodel, hsuspended]
  have hother : ∀ review, Answers env.roleReview answer review → review.role ≠ role →
      F .validationError := by
    rintro review ⟨result, rfl, hmodel⟩ hother
    apply hblames
    simp [blames, hmodel, hother]
  have hshifts := shifts_reviewerWake (G := fun q => q = w.snapshot.plot) hpermits
    (hinv.admitsMoved (H := fun q => ∃ review, Answers env.roleReview answer review
      ∧ review.role = role ∧ q = w.snapshot.plot.reviewed role review)
      (by rintro _ ⟨_, _, _, rfl⟩; rfl))
    hrole.1 (hready.1 role frame structured hsuspended) haccepts hraised hinvalid hother
    (by
      rintro review hanswers hsame _ rfl
      exact ⟨review, hanswers, hsame, rfl⟩)
  have hends : ReviewerEnds _ _ F _ _ role reviewers
      (runReviewer role reviewers (reviewerWake env role frame structured answer) w) :=
    runReviewer_ends (wp_reviewerWake_sound hinv.sound hat hlive hrole haccepts) hshifts hinv.sane
  cases hends with
  | stays hplot hpc hreviewers' =>
    obtain ⟨next, rfl, hawaits⟩ := hpc
    refine ⟨?_, ?_⟩
    . rw [hplot, hreviewers']
      exact .calledAgain hsuspended hawaits
    . intro _ outcome hfinished
      rw [hreviewers'] at hfinished
      contradiction
  | moves hplot hpc hreviewers' =>
    obtain ⟨review, hanswers, hsame, hplot⟩ := hplot
    refine ⟨?_, ?_⟩
    . rw [hplot, hreviewers', hpc]
      exact .reviewed hsuspended hanswers hsame
    . intro _ outcome hfinished
      rw [hreviewers'] at hfinished
      contradiction
  | raises hplot hexn hreviewers' =>
    refine ⟨?_, ?_⟩
    . rw [hplot, hreviewers']
      exact .reviewerRaised .wake hexn
    . intro _ outcome hfinished
      rw [hreviewers'] at hfinished
      contradiction

theorem obeys_stepReviewer (hinv : Inv { world := w, pc := .reviewing reviewers })
    (hready : Ready F w.snapshot.plot (.reviewing reviewers))
    (hblames : ∀ exn ∈ blames env (.reviewing reviewers) label, F exn)
    (hstep : stepReviewer env w reviewers label = some c') :
    Obeys env F { world := w, pc := .reviewing reviewers } label c' := by
  cases label with
  | reviewerEnter role =>
    dsimp only [stepReviewer] at hstep
    split at hstep
    . next hnext =>
      cases hstep
      exact obeys_reviewerNode hpermits hinv hnext
    . contradiction
  | reviewerWake role answer =>
    dsimp only [stepReviewer] at hstep
    split at hstep
    . next frame structured hsuspended =>
      split at hstep
      . next haccepts =>
        cases hstep
        exact obeys_reviewerWake hpermits hinv hready hblames hsuspended haccepts
      . contradiction
    . contradiction
  | reviewersJoin =>
    dsimp only [stepReviewer] at hstep
    split at hstep
    . next hdone =>
      cases hstep
      simp only [Bool.and_eq_true] at hdone
      refine ⟨.joined ?_, by simp⟩
      intro role
      cases role with
      | tech => exact hdone.1.1
      | ux => exact hdone.1.2
      | biz => exact hdone.2
    . contradiction
  | reviewersFail role =>
    dsimp only [stepReviewer] at hstep
    split at hstep
    . next exn hraised =>
      cases hstep
      obtain ⟨_, hlive, _⟩ := hinv.pc
      apply hinv.obeys (P := fun _ => False) rfl (hlive.notOver (by simp [RunStatus.isTerminal]))
      . rw [wp_throw]
        exact Suspended.raised hinv hraised
      . exact .throw (hready.2 role exn hraised)
      . intro _ hfalse
        exact hfalse.elim
    . contradiction
  | _ => contradiction

end Reviewers

section Aggregator

theorem obeys_aggregatorNode (hinv : Inv { world := w, pc := .toAggregator }) :
    Obeys env F { world := w, pc := .toAggregator } .enterAggregator
      (runTask env.toEnv (aggregatorNode env.toEnv) w) := by
  obtain ⟨_, hlive, hreviews⟩ := hinv.pc
  have hover := hlive.notOver (by simp [RunStatus.isTerminal])
  have hjudged : Admits (JudgedFrom w.snapshot.plot) Illegal := by
    apply hinv.admitsMoved
    rintro _ ⟨_, _, rfl | rfl⟩ <;> rfl
  have hshifts : Shifts _ (Sane (JudgedFrom w.snapshot.plot)) F Illegal _ _ (aggregatorNode env.toEnv) :=
    shifts_aggregatorNode hpermits (hinv.admits hpermits) hjudged
      (by
        rintro _ rfl role
        exact hreviews role)
      (by
        rintro _ evaluation rfl hjudgedBy _ rfl
        exact ⟨evaluation, hjudgedBy, .inl rfl⟩)
      (by
        rintro _ ⟨evaluation, hjudgedBy, rfl | rfl⟩
        . exact ⟨evaluation, hjudgedBy, .inr rfl⟩
        . exact ⟨evaluation, hjudgedBy, .inr rfl⟩)
  apply (runTask_ends (wp_aggregatorNode_sound hinv) hshifts hinv.sane
    (by rintro _ rfl; exact hover)).obeys rfl
  . intro _ hfalse
    exact hfalse.elim
  . rintro pc p' hpc ⟨evaluation, hjudged, hplot⟩
    refine ⟨?_, .judged hjudged hpc hplot⟩
    rcases hpc with rfl | rfl <;> simp

theorem obeys_aggregatorWake (hinv : Inv { world := w, pc := .aggregatorParked })
    (hreleased : released w = true) :
    Obeys env F { world := w, pc := .aggregatorParked } .aggregatorWake
      (runTask env.toEnv (aggregatorWake env.toEnv) w) := by
  obtain ⟨_, hlive, _⟩ := hinv.pc
  apply hinv.obeys rfl (hlive.notOver (by simp [RunStatus.isTerminal]))
    (wp_aggregatorWake_sound hinv hreleased) (within_aggregatorWake hpermits)
  rintro _ rfl
  exact ⟨by simp, .woken⟩

omit hpermits in
-- The route raises nothing, also where the run is over.
theorem obeys_routeAfterAggregate (hinv : Inv { world := w, pc := .routing }) :
    Obeys env F { world := w, pc := .routing } .route (runTask env.toEnv routeAfterAggregate w) := by
  have hended : w.snapshot.status.isTerminal = true → Reported w.snapshot none := by
    intro hterminal
    have hlive : ∃ statuses, Live statuses w.view
        ∧ ∀ status ∈ statuses, status.isTerminal = true → status ∈ [.completed, .maxIterationsReached] := by
      rcases hinv.pc with h | h | h
      . exact ⟨_, h.2, by simp [RunStatus.isTerminal]⟩
      . exact ⟨_, h.2, by simp⟩
      . exact ⟨_, h.2, by simp⟩
    obtain ⟨statuses, hlive, hstatuses⟩ := hlive
    rcases hlive with ⟨_, hcancelled⟩ | ⟨_, hmem⟩
    . change w.snapshot.status = .cancelled at hcancelled
      simp [Reported, hcancelled]
    . have hmem' := hstatuses _ hmem hterminal
      change w.snapshot.status ∈ [.completed, .maxIterationsReached] at hmem'
      simp only [List.mem_cons, List.not_mem_nil, or_false] at hmem'
      rcases hmem' with heq | heq <;> simp [Reported, heq]
  have hroute : wp (tryCatch routeAfterAggregate (workflowExcept env.toEnv)) w
      (fun pc w' => w' = w ∧ (pc = .finished none ∧ Reported w.snapshot none ∨ pc = .toOptimizer))
      fun _ _ => False := by
    rw [wp_tryCatch]
    unfold routeAfterAggregate
    rw [wp_bind, wp_get]
    split
    . next hterminal => exact ⟨rfl, .inl ⟨rfl, hended hterminal⟩⟩
    . exact ⟨rfl, .inr rfl⟩
  unfold runTask
  unfold wp at hroute
  split
  . next heq =>
    rw [heq] at hroute
    obtain ⟨rfl, ⟨rfl, hreported⟩ | rfl⟩ := hroute
    . refine ⟨.ended, ?_⟩
      rintro _ _ ⟨⟩
      exact hreported
    . exact ⟨.routed, by simp⟩
  . next heq =>
    rw [heq] at hroute
    contradiction

end Aggregator

section Optimizer

omit hpermits in
theorem move_enters {pc pc' : Pc} (henters : EntersOptimizer pc label)
    (h : Enters (fun q => q = p) F pc') :
    (∀ outcome, pc' ≠ .finished outcome) ∧ Move env F p pc label pc' p := by
  obtain ⟨staged, rfl⟩ | ⟨frame, structured, rfl, hstate, hawaits⟩ := h
  . exact ⟨by simp, .parked henters⟩
  . exact ⟨by simp, .planning henters hstate hawaits⟩

theorem obeys_optimizerNode (hinv : Inv { world := w, pc := .toOptimizer })
    (hready : Ready F w.snapshot.plot .toOptimizer) :
    Obeys env F { world := w, pc := .toOptimizer } .enterOptimizer
      (runTask env.toEnv (optimizerNode env.toEnv) w) := by
  obtain ⟨_, hlive⟩ := hinv.pc
  apply hinv.obeys rfl (hlive.notOver (by simp [RunStatus.isTerminal])) (wp_optimizerNode_sound hinv)
    (within_optimizerNode hpermits (hinv.admits hpermits) (by rintro _ rfl; exact hready))
  intro pc hpc
  exact move_enters .first hpc

theorem obeys_optimizerUnpark {staged : Bool} (hinv : Inv { world := w, pc := .optimizerParked staged })
    (hready : Ready F w.snapshot.plot (.optimizerParked staged)) (hreleased : released w = true) :
    Obeys env F { world := w, pc := .optimizerParked staged } .optimizerUnpark
      (runTask env.toEnv (optimizerUnpark env.toEnv staged) w) := by
  obtain ⟨_, hlive, _⟩ := hinv.pc
  apply hinv.obeys rfl (hlive.notOver (by simp [RunStatus.isTerminal]))
    (wp_optimizerUnpark_sound hinv hreleased)
    (within_optimizerUnpark hpermits (hinv.admits hpermits) (by rintro _ rfl; exact hready))
  intro pc hpc
  exact move_enters .again hpc

theorem obeys_optimizerWake {frame : NodeFrame} {structured : StructuredPc}
    {answer : Answer ProviderStructuredResult}
    (hinv : Inv { world := w, pc := .optimizing frame structured })
    (hready : Ready F w.snapshot.plot (.optimizing frame structured))
    (hblames : ∀ exn ∈ blames env (.optimizing frame structured) (.optimizerWake answer), F exn)
    (haccepts : structured.await.accepts w answer = true) :
    Obeys env F { world := w, pc := .optimizing frame structured } (.optimizerWake answer)
      (runTask env.toEnv (optimizerWake env frame structured answer) w) := by
  obtain ⟨hat, hlive, hcurrent, _⟩ := hinv.pc
  obtain ⟨hevaluated, hsettles⟩ := hready
  have hover := hlive.notOver (by simp [RunStatus.isTerminal])
  have hiteration : ValidIteration frame.state.currentIteration := by
    rw [hcurrent.iteration]
    exact hinv.sound.iteration
  have hnext : ValidIteration (w.snapshot.plot.currentIteration + 1) := by
    obtain ⟨hlength, hmore, _⟩ := hat.facts
    have hmax := hat.shape.max_le
    change w.snapshot.currentIteration = w.snapshot.versions.length at hlength
    change w.snapshot.versions.length < w.snapshot.maxIterations at hmore
    change w.snapshot.maxIterations ≤ 5 at hmax
    change 1 ≤ w.snapshot.currentIteration + 1 ∧ w.snapshot.currentIteration + 1 ≤ 5
    omega
  have hraised : ∀ exn, answer = .raised exn → F exn.toExn := by
    rintro exn rfl
    exact hblames _ (by cases structured <;> simp [blames])
  have hinvalid : ∀ result await, structured = .repairing result await →
      Unread env.revisionPlan answer → F .validationError := by
    rintro result await rfl ⟨result', rfl, hmodel⟩
    apply hblames
    simp [blames, hmodel]
  have hshifts : Shifts (Sane fun q => q = w.snapshot.plot)
      (Sane fun q => (∃ plan, Answers env.revisionPlan answer plan) ∧ q = w.snapshot.plot.advanced)
      F Illegal _ _ (optimizerWake env frame structured answer) :=
    shifts_optimizerWake hpermits
      {
        iteration := by
          rintro _ ⟨_, rfl⟩
          exact hnext
        illegal := fun _ h => h
      }
      hiteration hevaluated hsettles haccepts hraised hinvalid
      (by
        rintro _ rfl
        exact hat.facts.1)
      (by
        rintro plan hanswers _ rfl
        exact ⟨⟨plan, hanswers⟩, rfl⟩)
  apply (runTask_ends (wp_optimizerWake_sound hinv haccepts) hshifts hinv.sane
    (by rintro _ rfl; exact hover)).obeys rfl
  . rintro _ ⟨next, rfl, hawaits⟩
    exact ⟨by simp, .planningAgain hawaits⟩
  . rintro _ _ rfl ⟨⟨plan, hanswers⟩, rfl⟩
    exact ⟨by simp, .planned hanswers⟩

end Optimizer

end Places

theorem obeys_request (hinv : Inv c) (hlabel : label.isRequest = true)
    (hstep : step env c label = some c') : Obeys env F c label c' := by
  have hserve : ∀ {request : Prog World Exn RunSnapshot},
      Within (Sane fun q => q = c.world.snapshot.plot) (fun _ => True) (fun _ => True) request →
      (serve c request).world.snapshot.plot = c.world.snapshot.plot := by
    intro request hwithin
    have hwp := hwithin c.world hinv.sane
    unfold serve
    unfold wp at hwp
    split at hwp
    . next heq =>
      rw [heq]
      exact hwp.1.1
    . next heq =>
      rw [heq]
      exact hwp.1.1
  have hadmits : Admits (fun q => q = c.world.snapshot.plot) fun _ => True :=
    ⟨fun q hq => by rw [hq]; exact hinv.sound.iteration, fun _ _ => trivial⟩
  have hplot : c'.world.snapshot.plot = c.world.snapshot.plot := by
    cases label with
    | requestPause =>
      cases hstep
      exact hserve (within_requestPause hadmits)
    | resumeRun userOverride =>
      cases hstep
      exact hserve (within_resumeRun hadmits)
    | cancelRun =>
      cases hstep
      exact hserve (within_cancelRun hadmits)
    | _ => contradiction
  refine ⟨?_, ?_⟩
  . rw [hplot, step_request hlabel hstep]
    exact .requested hlabel
  . intro hnot
    rw [hlabel] at hnot
    contradiction

/--
Every step of a run is a move of the loop.
-/
theorem step_obeys (hinv : Inv c) (hpermits : Permits F) (hready : Ready F c.world.snapshot.plot c.pc)
    (hblames : ∀ exn ∈ blames env c.pc label, F exn) (hstep : step env c label = some c') :
    Obeys env F c label c' := by
  cases hlabel : label.isRequest with
  | true => exact obeys_request hinv hlabel hstep
  | false =>
    replace hstep := step_stepTask hlabel hstep
    obtain ⟨w, pc⟩ := c
    dsimp only at hready hblames hstep
    unfold stepTask at hstep
    split at hstep
    . cases hstep
      exact obeys_begin hpermits hinv
    . cases hstep
      exact obeys_generatorNode hpermits hinv
    . split at hstep
      . next haccepts =>
        cases hstep
        exact obeys_generatorWake hpermits hinv hready hblames haccepts
      . contradiction
    . exact obeys_stepReviewer hpermits hinv hready hblames hstep
    . cases hstep
      exact obeys_aggregatorNode hpermits hinv
    . split at hstep
      . next hreleased =>
        cases hstep
        exact obeys_aggregatorWake hpermits hinv hreleased
      . contradiction
    . cases hstep
      exact obeys_routeAfterAggregate hinv
    . cases hstep
      exact obeys_optimizerNode hpermits hinv hready
    . split at hstep
      . next hreleased =>
        cases hstep
        exact obeys_optimizerUnpark hpermits hinv hready hreleased
      . contradiction
    . split at hstep
      . next haccepts =>
        cases hstep
        exact obeys_optimizerWake hpermits hinv hready hblames haccepts
      . contradiction
    . contradiction

section Ready

variable {F' : Exn → Prop} {pc pc' : Pc} {p' : Plot}

theorem Settles.mono {await : Await} (h : Settles F await) (hsub : ∀ exn, F exn → F' exn) :
    Settles F' await := by
  cases await with
  | waiting => trivial
  | settling exn => exact hsub exn h

theorem Ready.mono (h : Ready F p pc) (hsub : ∀ exn, F exn → F' exn) : Ready F' p pc := by
  cases pc with
  | generating frame => exact Settles.mono h hsub
  | reviewing reviewers =>
    refine ⟨?_, ?_⟩
    . intro role frame structured hsuspended
      exact (h.1 role frame structured hsuspended).mono hsub
    . intro role exn hraised
      exact hsub exn (h.2 role exn hraised)
  | optimizing frame structured => exact ⟨h.1, h.2.mono hsub⟩
  | finished exn =>
    intro e he
    exact hsub e (h e he)
  | _ => exact h

-- One reviewer goes on, and the others are where they were.
theorem Ready.reviewer {role : ReviewRole} {reviewers : ReviewRole → ReviewerPc}
    {reviewer : ReviewerPc} (h : Ready F p (.reviewing reviewers))
    (hsuspended : ∀ frame structured, reviewer = .suspended frame structured →
      Settles F structured.await)
    (hraised : ∀ exn, reviewer = .raised exn → F exn) :
    Ready F p' (.reviewing (Function.update reviewers role reviewer)) := by
  refine ⟨?_, ?_⟩
  . intro other frame structured hother
    by_cases heq : other = role
    . rw [heq, Function.update_self] at hother
      exact hsuspended frame structured hother
    . rw [Function.update_of_ne heq] at hother
      exact h.1 other frame structured hother
  . intro other exn hother
    by_cases heq : other = role
    . rw [heq, Function.update_self] at hother
      exact hraised exn hother
    . rw [Function.update_of_ne heq] at hother
      exact h.2 other exn hother

theorem EntersOptimizer.evaluated (henters : EntersOptimizer pc label) (h : Ready F p pc) :
    p.latestEvaluation ≠ none := by
  cases henters with
  | first => exact h
  | again => exact h

theorem Move.ready (h : Move env F p pc label pc' p') (hready : Ready F p pc) : Ready F p' pc' := by
  cases h with
  | requested _ => exact hready
  | began => trivial
  | opened _ _ hopens => exact hopens.settles
  | streamed hwaits =>
    cases hwaits with
    | next _ hsettles => exact hsettles
    | anew _ hopens => exact hopens.settles
  | written _ _ _ => exact ⟨by simp, by simp⟩
  | called _ _ hawaits =>
    apply hready.reviewer
    . rintro _ _ ⟨⟩
      exact hawaits.settles
    . simp
  | calledAgain _ hawaits =>
    apply hready.reviewer
    . rintro _ _ ⟨⟩
      exact hawaits.settles
    . simp
  | reviewed _ _ _ =>
    apply hready.reviewer
    . simp
    . simp
  | reviewerRaised _ hexn =>
    apply hready.reviewer
    . simp
    . rintro _ ⟨⟩
      exact hexn
  | joined _ => trivial
  | judged _ hpc hplot =>
    have hsome : p'.latestEvaluation ≠ none := by
      rcases hplot with rfl | rfl <;> simp [Plot.judged, Plot.concluded]
    rcases hpc with rfl | rfl
    . exact hsome
    . exact hsome
  | woken => exact hready
  | ended => simp [Ready]
  | routed => exact hready
  | parked henters => exact henters.evaluated hready
  | planning henters hstate hawaits =>
    refine ⟨?_, hawaits.settles⟩
    have hsome := henters.evaluated hready
    rw [← hstate] at hsome
    exact hsome
  | planningAgain hawaits => exact ⟨hready.1, hawaits.settles⟩
  | planned _ => trivial
  | raised _ hexn _ =>
    rintro _ ⟨⟩
    exact hexn

end Ready

end Step
end Workflow

end AgenticPrd
