import AgenticPrd.Backend.Workflow.Basic
import AgenticPrd.Lib.Transition

/-!
A run as a transition system: the workflow task and its three reviewer tasks advance from one
suspension to the next, and control requests are served in between. A step of a task that waits for
the provider takes whatever answer the provider gives.
-/

namespace AgenticPrd

-- An answer the wait can end with. The cancel task only ends once the signal is set.
def Await.accepts {α : Type} (w : World) : Await → Answer α → Bool
  | .settling _, .settled => true
  | .settling _, _ => false
  | .waiting, .settled => false
  | .waiting, .cancelled => w.cancelSignal
  | .waiting, _ => true

def StructuredPc.await : StructuredPc → Await
  | .calling _ await => await
  | .repairing _ await => await

def ReviewerPc.isDone : ReviewerPc → Bool
  | .done => true
  | _ => false

namespace Workflow

open RunManager

structure Config where
  world : World
  pc : Pc

inductive Label where
  | requestPause
  | resumeRun (userOverride : Option String)
  | cancelRun
  | begin
  | enterGenerator
  | generatorWake (answer : Answer (Option ProviderTextEvent))
  | reviewerEnter (role : ReviewRole)
  | reviewerWake (role : ReviewRole) (answer : Answer ProviderStructuredResult)
  | reviewersJoin
  | reviewersFail (role : ReviewRole)
  | enterAggregator
  | aggregatorWake
  | route
  | enterOptimizer
  | optimizerUnpark
  | optimizerWake (answer : Answer ProviderStructuredResult)

-- The step with which the workflow leaves a `wait_until_resumed_or_cancelled`.
def wake : Pc → Option Label
  | .aggregatorParked => some .aggregatorWake
  | .optimizerParked _ => some .optimizerUnpark
  | _ => none

def init (env : Env) (runId : RunId) (request : CreateRunRequest) (outputLanguage : String)
    (bufferSize : Nat) : Config :=
  {
    world := create env runId request outputLanguage bufferSize
    pc := .created
  }

-- `wait_until_resumed_or_cancelled` is over.
def released (w : World) : Bool :=
  w.resumeSignal || w.cancelSignal

-- A step of the workflow task, which handles what leaves the graph.
def runTask (env : Env) (program : Prog World Exn Pc) (w : World) : Config :=
  match (tryCatch program (workflowExcept env)).run w with
  | (.ok pc, w') => { world := w', pc }
  | (.error exn, w') => { world := w', pc := .finished (some exn) }

-- A reviewer that raises ends; the graph notices it later.
def runReviewer (role : ReviewRole) (reviewers : ReviewRole → ReviewerPc)
    (program : Prog World Exn ReviewerPc) (w : World) : Config :=
  match program.run w with
  | (.ok pc, w') => { world := w', pc := .reviewing (Function.update reviewers role pc) }
  | (.error exn, w') =>
    { world := w', pc := .reviewing (Function.update reviewers role (.raised exn)) }

-- What a request raises goes to its client.
def serve (c : Config) (request : Prog World Exn RunSnapshot) : Config :=
  { c with world := (request.run c.world).2 }

def stepReviewer (env : WorkflowEnv) (w : World) (reviewers : ReviewRole → ReviewerPc) :
    Label → Option Config
  | .reviewerEnter role =>
    match reviewers role with
    | .ready => some (runReviewer role reviewers (reviewerNode env.toEnv role) w)
    | _ => none
  | .reviewerWake role answer =>
    match reviewers role with
    | .suspended frame structured =>
      if structured.await.accepts w answer then
        some (runReviewer role reviewers (reviewerWake env role frame structured answer) w)
      else
        none
    | _ => none
  | .reviewersJoin =>
    if (reviewers .tech).isDone && (reviewers .ux).isDone && (reviewers .biz).isDone then
      some { world := w, pc := .toAggregator }
    else
      none
  | .reviewersFail role =>
    match reviewers role with
    | .raised exn => some (runTask env.toEnv (throw exn) w)
    | _ => none
  | _ => none

def stepTask (env : WorkflowEnv) (w : World) : Pc → Label → Option Config
  | .created, .begin => some (runTask env.toEnv (begin env.toEnv) w)
  | .toGenerator, .enterGenerator => some (runTask env.toEnv (generatorNode env.toEnv) w)
  | .generating frame, .generatorWake answer =>
    if frame.await.accepts w answer then
      some (runTask env.toEnv (generatorWake env.toEnv frame answer) w)
    else
      none
  | .reviewing reviewers, label => stepReviewer env w reviewers label
  | .toAggregator, .enterAggregator => some (runTask env.toEnv (aggregatorNode env.toEnv) w)
  | .aggregatorParked, .aggregatorWake =>
    if released w then
      some (runTask env.toEnv (aggregatorWake env.toEnv) w)
    else
      none
  | .routing, .route => some (runTask env.toEnv routeAfterAggregate w)
  | .toOptimizer, .enterOptimizer => some (runTask env.toEnv (optimizerNode env.toEnv) w)
  | .optimizerParked staged, .optimizerUnpark =>
    if released w then
      some (runTask env.toEnv (optimizerUnpark env.toEnv staged) w)
    else
      none
  | .optimizing frame structured, .optimizerWake answer =>
    if structured.await.accepts w answer then
      some (runTask env.toEnv (optimizerWake env frame structured answer) w)
    else
      none
  | _, _ => none

def step (env : WorkflowEnv) (c : Config) : Label → Option Config
  | .requestPause => some (serve c (requestPause env.toEnv))
  | .resumeRun userOverride => some (serve c (resumeRun env.toEnv userOverride))
  | .cancelRun => some (serve c (cancelRun env.toEnv))
  | label => stepTask env c.world c.pc label

-- The configurations of all runs of a request.
def Reachable (env : WorkflowEnv) (runId : RunId) (request : CreateRunRequest)
    (outputLanguage : String) (bufferSize : Nat) (c : Config) : Prop :=
  Transition.Reaches (step env) (init env.toEnv runId request outputLanguage bufferSize) c

-- A run of the mock provider, whose structured answers are not read here.
def mockWorkflow : WorkflowEnv :=
  {
    mockEnv with
    roleReview := fun _ => none
    revisionPlan := fun _ => none
  }

def mockInit : Config :=
  init mockEnv "run" mockRequest "English" 1000

def mockRun (labels : List Label) : Config :=
  (Transition.exec (step mockWorkflow) mockInit labels).getD mockInit

theorem mockRun_eq {labels : List Label} {c : Config}
    (h : Transition.exec (step mockWorkflow) mockInit labels = some c) : mockRun labels = c := by
  unfold mockRun
  rw [h]
  rfl

theorem mockRun_step (labels : List Label) (label : Label)
    (h : (Transition.exec (step mockWorkflow) mockInit (labels ++ [label])).isSome = true) :
    step mockWorkflow (mockRun labels) label = some (mockRun (labels ++ [label])) := by
  obtain ⟨c', hc'⟩ := Option.isSome_iff_exists.mp h
  rw [mockRun_eq hc']
  rw [Transition.exec_concat, Option.bind_eq_some_iff] at hc'
  obtain ⟨c, hc, hstep⟩ := hc'
  rw [mockRun_eq hc]
  exact hstep

theorem mockRun_reachable {labels : List Label}
    (h : (Transition.exec (step mockWorkflow) mockInit labels).isSome = true) :
    Reachable mockWorkflow "run" mockRequest "English" 1000 (mockRun labels) := by
  obtain ⟨c, hc⟩ := Option.isSome_iff_exists.mp h
  rw [mockRun_eq hc]
  exact Transition.Reaches.of_exec hc

section Answers

def mockReview (role : ReviewRole) : RoleReview :=
  {
    role
    score := 80
    summary := "Good"
    strengths := []
    feedback := []
    score_le := by decide
    summary_length := by decide
  }

def mockPlan? (iteration : Nat) : Option RevisionPlan :=
  if h : 1 ≤ iteration ∧ iteration ≤ 5 then
    some {
      iteration
      objective := "Improve"
      items := []
      userOverride := none
      iteration_range := h
      objective_length := by decide
      override_length := by simp
    }
  else
    none

-- A provider whose answers are the name of a role and the iteration of a plan.
def answeringWorkflow : WorkflowEnv :=
  {
    mockEnv with
    roleReview := fun value =>
      match value with
      | .str name =>
        ([ReviewRole.tech, .ux, .biz].find? fun role => name = role.value).map mockReview
      | _ => none
    revisionPlan := fun value =>
      match value with
      | .num iteration => mockPlan? iteration.num.toNat
      | _ => none
  }

def answeringInit : Config :=
  init answeringWorkflow.toEnv "run" mockRequest "English" 1000

def answered (value : Json) : Answer ProviderStructuredResult :=
  .returned { value, usage := .empty }

-- A whole generation and the reviews of its version.
def answeredVersion : List Label :=
  [
    .enterGenerator,
    .generatorWake (.returned (some {
      delta := "# PRD\n<!-- PRD_COMPLETE -->\n"
      usage := some .empty
      finishReason := some "stop"
    })),
    .generatorWake (.returned none),
    .reviewerEnter .tech,
    .reviewerEnter .ux,
    .reviewerEnter .biz,
    .reviewerWake .tech (answered (.str "tech")),
    .reviewerWake .ux (answered (.str "ux")),
    .reviewerWake .biz (answered (.str "biz")),
    .reviewersJoin
  ]

end Answers

end Workflow

end AgenticPrd
