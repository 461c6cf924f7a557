import AgenticPrd.Backend.Workflow.Kept

/-!
Where the workflow task can go from the place where it is suspended.
-/

namespace AgenticPrd

namespace Workflow

open RunManager Prog

inductive Place where
  | created
  | toGenerator
  | generating
  | reviewing
  | toAggregator
  | aggregatorParked
  | routing
  | toOptimizer
  | optimizerParked
  | optimizing
  | finished
  deriving DecidableEq

def place : Pc → Place
  | .created => .created
  | .toGenerator => .toGenerator
  | .generating _ => .generating
  | .reviewing _ => .reviewing
  | .toAggregator => .toAggregator
  | .aggregatorParked => .aggregatorParked
  | .routing => .routing
  | .toOptimizer => .toOptimizer
  | .optimizerParked _ => .optimizerParked
  | .optimizing _ _ => .optimizing
  | .finished _ => .finished

def Place.next : Place → List Place
  | created => [toGenerator, finished]
  | toGenerator => [generating, reviewing, finished]
  | generating => [generating, reviewing, finished]
  | reviewing => [reviewing, toAggregator, finished]
  | toAggregator => [aggregatorParked, routing, finished]
  | aggregatorParked => [routing, finished]
  | routing => [toOptimizer, finished]
  | toOptimizer => [optimizerParked, optimizing, finished]
  | optimizerParked => [optimizerParked, optimizing, finished]
  | optimizing => [optimizing, toGenerator, finished]
  | finished => []

-- A program of the task goes to one of the places, if it does not raise.
def Goes (places : List Place) (program : Prog World Exn Pc) : Prop :=
  Returns (fun pc => place pc ∈ places) program

variable {env : Env} {w : World} {state : RunSnapshot} {plan : Option RevisionPlan} {attempt : Nat}
  {places places' : List Place}

theorem Goes.mono {program : Prog World Exn Pc} (h : Goes places program) (hsub : places ⊆ places') :
    Goes places' program :=
  Returns.mono h fun _ hpc => hsub hpc

theorem goes_begin : Goes [.toGenerator] (begin env) := by
  unfold begin
  apply Returns.bind
  intro _
  apply Returns.bind
  intro _
  apply Returns.bind
  intro _
  exact .pure (by simp [place])

section Generator

theorem goes_commitVersion {content : String} {usage : TokenUsage} :
    Goes [.reviewing] (commitVersion env state plan attempt content usage) := by
  unfold commitVersion
  apply Returns.bind
  intro _
  apply Returns.bind
  intro _
  apply Returns.bind
  intro _
  split
  . exact .throw _
  . apply Returns.bind
    intro _
    apply Returns.bind
    intro _
    apply Returns.bind
    intro _
    apply Returns.bind
    intro _
    apply Returns.bind
    intro _
    exact .pure (by simp [place])

theorem goes_runAttempt {body : Prog World Exn (GeneratorFrame ⊕ (String × TokenUsage))}
    {retry : Prog World Exn Pc} (hretry : Goes [.generating, .reviewing] retry) :
    Goes [.generating, .reviewing] (runAttempt env state plan attempt body retry) := by
  unfold runAttempt
  apply Returns.bind
  intro outcome
  split
  . exact hretry
  . exact .pure (by simp [place])
  . exact goes_commitVersion.mono (by simp)

theorem goes_startAttempt {retry : Prog World Exn Pc}
    (hretry : Goes [.generating, .reviewing] retry) :
    Goes [.generating, .reviewing] (startAttempt env state plan attempt retry) := by
  unfold startAttempt
  apply Returns.bind
  intro _
  apply Returns.bind
  intro _
  exact goes_runAttempt hretry

theorem goes_retryAttempt :
    Goes [.generating, .reviewing] (retryAttempt env state plan attempt) := by
  unfold retryAttempt
  split
  . exact goes_startAttempt (.throw _)
  . exact .throw _

theorem goes_generatorNode : Goes [.generating, .reviewing] (generatorNode env) := by
  unfold generatorNode
  apply Returns.bind
  intro _
  apply Returns.bind
  intro state
  apply Returns.bind
  intro _
  apply Returns.bind
  intro _
  exact goes_startAttempt goes_retryAttempt

theorem goes_generatorWake {frame : GeneratorFrame} {answer : Answer (Option ProviderTextEvent)} :
    Goes [.generating, .reviewing] (generatorWake env frame answer) :=
  goes_runAttempt goes_retryAttempt

end Generator

section Aggregator

theorem goes_commitEvaluation {evaluation : EvaluationResult} :
    Goes [.aggregatorParked, .routing] (commitEvaluation env state evaluation) := by
  unfold commitEvaluation
  dsimp only
  apply Returns.bind
  intro _
  split
  . apply Returns.bind
    intro _
    exact .pure (by simp [place])
  . split
    . apply Returns.bind
      intro _
      exact .pure (by simp [place])
    . split
      . apply Returns.bind
        intro _
        exact .pure (by simp [place])
      . apply Returns.bind
        intro _
        exact .pure (by simp [place])

theorem goes_aggregatorNode : Goes [.aggregatorParked, .routing] (aggregatorNode env) := by
  unfold aggregatorNode
  apply Returns.bind
  intro _
  apply Returns.bind
  intro _
  apply Returns.bind
  intro _
  apply Returns.bind
  intro w
  dsimp only
  split
  . split
    . exact .throw _
    . exact goes_commitEvaluation
  . exact .throw _

theorem goes_aggregatorWake : Goes [.routing] (aggregatorWake env) := by
  unfold aggregatorWake
  apply Returns.bind
  intro _
  exact .pure (by simp [place])

theorem goes_routeAfterAggregate : Goes [.toOptimizer, .finished] routeAfterAggregate := by
  unfold routeAfterAggregate
  apply Returns.bind
  intro w
  split
  . exact .pure (by simp [place])
  . exact .pure (by simp [place])

end Aggregator

section Optimizer

theorem goes_startOptimizer : Goes [.optimizing] (startOptimizer env) := by
  unfold startOptimizer
  apply Returns.bind
  intro _
  apply Returns.bind
  intro _
  apply Returns.bind
  intro w
  split
  . exact .throw _
  . apply Returns.bind
    intro _
    exact .pure (by simp [place])

theorem goes_stageOptimizer : Goes [.optimizerParked, .optimizing] (stageOptimizer env) := by
  unfold stageOptimizer
  apply Returns.bind
  intro stage
  split
  . apply Returns.bind
    intro _
    exact .pure (by simp [place])
  . exact goes_startOptimizer.mono (by simp)

theorem goes_optimizerNode : Goes [.optimizerParked, .optimizing] (optimizerNode env) := by
  unfold optimizerNode
  apply Returns.bind
  intro _
  apply Returns.bind
  intro w
  split
  . apply Returns.bind
    intro _
    exact .pure (by simp [place])
  . exact goes_stageOptimizer

theorem goes_optimizerUnpark {staged : Bool} :
    Goes [.optimizerParked, .optimizing] (optimizerUnpark env staged) := by
  unfold optimizerUnpark
  apply Returns.bind
  intro _
  split
  . apply Returns.bind
    intro _
    exact goes_startOptimizer.mono (by simp)
  . exact goes_stageOptimizer

theorem goes_optimizerWake {env : WorkflowEnv} {frame : NodeFrame} {structured : StructuredPc}
    {answer : Answer ProviderStructuredResult} :
    Goes [.optimizing, .toGenerator] (optimizerWake env frame structured answer) := by
  unfold optimizerWake
  split
  . exact .throw _
  . apply Returns.bind
    intro outcome
    split
    . exact .pure (by simp [place])
    . unfold commitPlan
      apply Returns.bind
      intro _
      apply Returns.bind
      intro _
      apply Returns.bind
      intro _
      apply Returns.bind
      intro _
      apply Returns.bind
      intro _
      apply Returns.bind
      intro _
      apply Returns.bind
      intro _
      exact .pure (by simp [place])

end Optimizer

section Step

variable {wenv : WorkflowEnv} {c c' : Config} {label : Label}

theorem goes_workflowExcept {exn : Exn} : Goes [.finished] (workflowExcept env exn) := by
  unfold workflowExcept
  apply Returns.tryCatch
  . apply Returns.bind
    intro _
    exact .pure (by simp [place])
  . intro _
    apply Returns.bind
    intro _
    exact .pure (by simp [place])

-- What leaves the graph ends the task.
theorem runTask_place {program : Prog World Exn Pc} (h : Goes places program)
    (hsub : places ⊆ places') (hfinished : .finished ∈ places') :
    place (runTask env program w).pc ∈ places' := by
  have htask : Goes places' (tryCatch program (workflowExcept env)) := by
    apply Returns.tryCatch
    . exact h.mono hsub
    . intro exn
      apply goes_workflowExcept.mono
      simpa using hfinished
  have hwp := htask w
  unfold runTask
  unfold wp at hwp
  split
  . next heq =>
    rw [heq] at hwp
    exact hwp
  . exact hfinished

theorem runReviewer_place {role : ReviewRole} {reviewers : ReviewRole → ReviewerPc}
    {program : Prog World Exn ReviewerPc} :
    place (runReviewer role reviewers program w).pc = .reviewing := by
  unfold runReviewer
  split <;> rfl

theorem stepReviewer_place {reviewers : ReviewRole → ReviewerPc}
    (hstep : stepReviewer wenv w reviewers label = some c') :
    place c'.pc ∈ Place.next .reviewing := by
  unfold stepReviewer at hstep
  split at hstep
  . split at hstep
    . cases hstep
      simp [runReviewer_place, Place.next]
    . contradiction
  . split at hstep
    . split at hstep
      . cases hstep
        simp [runReviewer_place, Place.next]
      . contradiction
    . contradiction
  . split at hstep
    . cases hstep
      simp [place, Place.next]
    . contradiction
  . split at hstep
    . cases hstep
      apply runTask_place (.throw _ : Goes [] _) <;> simp [Place.next]
    . contradiction
  . contradiction

theorem stepTask_place {pc : Pc} (hstep : stepTask wenv w pc label = some c') :
    place c'.pc ∈ (place pc).next := by
  unfold stepTask at hstep
  split at hstep
  . cases hstep
    apply runTask_place goes_begin <;> simp [place, Place.next]
  . cases hstep
    apply runTask_place goes_generatorNode <;> simp [place, Place.next]
  . split at hstep
    . cases hstep
      apply runTask_place goes_generatorWake <;> simp [place, Place.next]
    . contradiction
  . exact stepReviewer_place hstep
  . cases hstep
    apply runTask_place goes_aggregatorNode <;> simp [place, Place.next]
  . split at hstep
    . cases hstep
      apply runTask_place goes_aggregatorWake <;> simp [place, Place.next]
    . contradiction
  . cases hstep
    apply runTask_place goes_routeAfterAggregate <;> simp [place, Place.next]
  . cases hstep
    apply runTask_place goes_optimizerNode <;> simp [place, Place.next]
  . split at hstep
    . cases hstep
      apply runTask_place goes_optimizerUnpark <;> simp [place, Place.next]
    . contradiction
  . split at hstep
    . cases hstep
      apply runTask_place goes_optimizerWake <;> simp [place, Place.next]
    . contradiction
  . contradiction

-- A request leaves the task where it is.
def Label.isRequest : Label → Bool
  | .requestPause => true
  | .resumeRun _ => true
  | .cancelRun => true
  | _ => false

theorem step_request (hlabel : label.isRequest = true) (hstep : step wenv c label = some c') :
    c'.pc = c.pc := by
  cases label with
  | requestPause | resumeRun | cancelRun =>
    cases hstep
    rfl
  | _ => contradiction

theorem step_stepTask (hlabel : label.isRequest = false) (hstep : step wenv c label = some c') :
    stepTask wenv c.world c.pc label = some c' := by
  cases label with
  | requestPause | resumeRun | cancelRun => contradiction
  | _ => exact hstep

section Keeps

variable {τ : Type} {view : World → τ}

theorem step_request_keeps [Unmoved view] (hlabel : label.isRequest = true)
    (hresume : ∀ userOverride payload, Keeping view
      (commit wenv.toEnv .none (resumeMutation userOverride) (some .runResumed) payload))
    (hstep : step wenv c label = some c') : view c'.world = view c.world := by
  cases label with
  | requestPause =>
    cases hstep
    exact keeping_requestPause.run c.world
  | cancelRun =>
    cases hstep
    exact keeping_cancelRun.run c.world
  | resumeRun userOverride =>
    cases hstep
    exact (keeping_resume (hresume userOverride)).run c.world
  | _ => contradiction

-- Away from the generator, a view changes only with an evaluation or a plan.
theorem stepTask_keeps [Unbilled view] {pc : Pc}
    (hpc : place pc ≠ .toGenerator ∧ place pc ≠ .generating)
    (hreview : ∀ state role, Overlooks view (reviewCall state role))
    (hreviewRepair : ∀ state role value, Overlooks view (reviewRepair state role value))
    (hplan : ∀ state evaluation, Overlooks view (planCall state evaluation))
    (hplanRepair : ∀ state value, Overlooks view (planRepair state value))
    (haggregate : ∀ evaluation bestScore bestVersion payload, Keeping view
      (commit wenv.toEnv .none (modify (aggregate evaluation bestScore bestVersion))
        (some .scoresUpdated) payload))
    (hfinish : ∀ cancelled plan payload, Keeping view
      (commit wenv.toEnv .none (finishOptimizer cancelled plan) (some .revisionPlanned) payload))
    (hstep : stepTask wenv w pc label = some c') : view c'.world = view w := by
  unfold stepTask at hstep
  split at hstep
  . cases hstep
    exact runTask_keeps keeping_begin
  . exact absurd rfl hpc.1
  . exact absurd rfl hpc.2
  . exact stepReviewer_keeps hreview hreviewRepair hstep
  . cases hstep
    exact runTask_keeps (keeping_aggregatorNode haggregate)
  . split at hstep
    . cases hstep
      exact runTask_keeps keeping_aggregatorWake
    . contradiction
  . cases hstep
    exact runTask_keeps keeping_routeAfterAggregate
  . cases hstep
    exact runTask_keeps (keeping_optimizerNode hplan)
  . split at hstep
    . cases hstep
      exact runTask_keeps (keeping_optimizerUnpark hplan)
    . contradiction
  . split at hstep
    . cases hstep
      exact runTask_keeps (keeping_optimizerWake hplan hplanRepair hfinish)
    . contradiction
  . contradiction

end Keeps

end Step

end Workflow

end AgenticPrd
