import AgenticPrd.Backend.RunManager.Rules
import AgenticPrd.Backend.Workflow.Step

/-!
The invariant that ties the place where the workflow is suspended to the status of the run, to the
signals, and to the versions that the loop has produced.
-/

namespace AgenticPrd

namespace Workflow

open RunManager

-- Both halves of the quality gate.
def Passes (threshold : ℚ) (evaluation : EvaluationResult) : Prop :=
  threshold ≤ averageScore evaluation.tech evaluation.ux evaluation.biz
    ∧
  ∀ review ∈ [evaluation.tech, evaluation.ux, evaluation.biz], ∀ item ∈ review.feedback,
    item.severity ≠ .mustFix

def Approved (threshold : ℚ) (version : PRDVersion) : Prop :=
  ∃ evaluation ∈ version.evaluation, Passes threshold evaluation

def Held (threshold : ℚ) (version : PRDVersion) : Prop :=
  ∃ evaluation ∈ version.evaluation, ¬Passes threshold evaluation

structure Shape (loop : LoopView) : Prop where
  numbered : loop.versions.map PRDVersion.version = List.range' 1 loop.versions.length
  bounded : loop.versions.length ≤ loop.maxIterations
  iteration_le : loop.currentIteration ≤ loop.maxIterations
  max_le : loop.maxIterations ≤ 5
  iteration :
    loop.currentIteration = loop.versions.length
      ∨ loop.currentIteration = loop.versions.length + 1
  earlier : ∀ version ∈ loop.versions.dropLast, Held loop.qualityThreshold version
  streams : ∀ i, loop.streams i ≤ 2
  streams_later : ∀ i, loop.currentIteration < i → loop.streams i = 0

/--
Where the loop stands: about to generate the next version, with a last version that is not evaluated
yet, with one that the gate holds back, or after its end by either outcome.
-/
inductive Stage where
  | pending
  | fresh
  | judged
  | approved
  | exhausted
  deriving DecidableEq

def Stage.Facts (loop : LoopView) : Stage → Prop
  | .pending =>
    loop.currentIteration = loop.versions.length + 1
      ∧ ∀ version ∈ loop.versions, Held loop.qualityThreshold version
  | .fresh =>
    loop.currentIteration = loop.versions.length
      ∧ ∃ last ∈ loop.versions.getLast?, last.evaluation = none
  | .judged =>
    loop.currentIteration = loop.versions.length
      ∧ loop.versions.length < loop.maxIterations
      ∧ ∀ version ∈ loop.versions, Held loop.qualityThreshold version
  | .approved =>
    loop.currentIteration = loop.versions.length
      ∧ ∃ last ∈ loop.versions.getLast?, Approved loop.qualityThreshold last
  | .exhausted =>
    loop.currentIteration = loop.versions.length
      ∧ loop.versions.length = loop.maxIterations
      ∧ ∃ last ∈ loop.versions.getLast?, Held loop.qualityThreshold last

structure At (v : View) (stage : Stage) : Prop where
  shape : Shape v.loop
  facts : stage.Facts v.loop
  completed : v.status = .completed ↔ stage = .approved
  exhausted : v.status = .maxIterationsReached ↔ stage = .exhausted

-- A cancelled run, or one with a status from the list.
def Live (statuses : List RunStatus) (v : View) : Prop :=
  (v.cancelSignal = true ∧ v.status = .cancelled)
    ∨
  (v.cancelSignal = false ∧ v.status ∈ statuses)

-- A node that is parked waits while the status is PAUSED, and is released by a resume.
def Parked (v : View) : Prop :=
  Live [.paused, .optimizing, .pauseRequested] v
    ∧
  (v.cancelSignal = false → (v.status = .paused ↔ v.resumeSignal = false))

def NotIllegal (exn : Exn) : Prop :=
  ∀ current target, exn ≠ .illegalTransition current target

def AwaitInv (v : View) : Await → Prop
  | .waiting => True
  | .settling exn => NotIllegal exn ∧ (exn = .workflowCancelled → v.cancelSignal = true)

def StructuredInv (v : View) (structured : StructuredPc) : Prop :=
  AwaitInv v structured.await

def ReviewerInv (v : View) (role : ReviewRole) : ReviewerPc → Prop
  | .ready => True
  | .suspended frame structured =>
    ValidIteration frame.state.currentIteration ∧ StructuredInv v structured
  | .done => ∃ review, v.loop.reviews role = some review ∧ review.role = role
  | .raised exn => NotIllegal exn ∧ (exn = .workflowCancelled → v.cancelSignal = true)

-- The generator node in an attempt, which is the number of streaming calls for the version so far.
structure Generating (v : View) (state : RunSnapshot) (attempt : Nat) : Prop where
  stage : At v .pending
  live : Live [.generating, .pauseRequested] v
  iteration : state.currentIteration = v.loop.currentIteration
  streams : v.loop.streams v.loop.currentIteration = attempt
  attempt : attempt ≠ 0 → v.loop.attempt = attempt
  plan : state.pendingRevisionPlan = v.loop.pendingRevisionPlan

-- The snapshot that the optimizer has read is the current one where its call depends on it.
structure Current (v : View) (state : RunSnapshot) : Prop where
  iteration : state.currentIteration = v.loop.currentIteration
  userOverride : state.pendingUserOverride = v.loop.pendingUserOverride

def PcInv (v : View) : Pc → Prop
  | .created =>
    At v .pending ∧ Live [.queued] v ∧ v.loop.streams v.loop.currentIteration = 0
  | .toGenerator =>
    At v .pending ∧ Live [.queued, .generating, .pauseRequested] v
      ∧ v.loop.streams v.loop.currentIteration = 0
  | .generating frame =>
    Generating v frame.state frame.attempt ∧ frame.plan = frame.state.pendingRevisionPlan
      ∧ (1 ≤ frame.attempt ∧ frame.attempt ≤ 2) ∧ AwaitInv v frame.await
  | .reviewing reviewers =>
    At v .fresh ∧ Live [.reviewing, .pauseRequested] v
      ∧ ∀ role, ReviewerInv v role (reviewers role)
  | .toAggregator =>
    At v .fresh ∧ Live [.reviewing, .pauseRequested] v
      ∧ ∀ role, ∃ review, v.loop.reviews role = some review ∧ review.role = role
  | .aggregatorParked => At v .judged ∧ Parked v
  | .routing =>
    (At v .judged ∧ Live [.optimizing, .pauseRequested] v)
      ∨ (At v .approved ∧ Live [.completed] v)
      ∨ (At v .exhausted ∧ Live [.maxIterationsReached] v)
  | .toOptimizer => At v .judged ∧ Live [.optimizing, .pauseRequested] v
  | .optimizerParked _ => At v .judged ∧ Parked v
  | .optimizing frame structured =>
    At v .judged ∧ Live [.optimizing, .pauseRequested] v ∧ Current v frame.state
      ∧ StructuredInv v structured
  | .finished exn =>
    (∃ stage, At v stage) ∧ Live [.completed, .maxIterationsReached, .failed] v
      ∧ ∀ e ∈ exn, NotIllegal e

-- What holds wherever the workflow may raise.
structure Steady (v : View) : Prop where
  stage : ∃ stage, At v stage
  live :
    (v.cancelSignal = true ∧ v.status = .cancelled)
      ∨
    (v.cancelSignal = false ∧ v.status ≠ .cancelled ∧ v.status ≠ .cancelRequested)

structure Raised (origin : World) (exn : Exn) (w : World) : Prop where
  sound : Sound origin w
  steady : Steady w.view
  legal : NotIllegal exn
  cancelled : exn = .workflowCancelled → w.cancelSignal = true

structure Suspended (origin : World) (pc : Pc) (w : World) : Prop where
  sound : Sound origin w
  pc : PcInv w.view pc

-- `c` comes from the world `origin` by some steps.
def Keeps (origin : World) (c : Config) : Prop :=
  Suspended origin c.pc c.world

def Inv (c : Config) : Prop :=
  Keeps c.world c

theorem Live.mono {statuses statuses' : List RunStatus} {v : View} (h : Live statuses v)
    (hsub : statuses ⊆ statuses') : Live statuses' v := by
  cases h with
  | inl hcancelled => exact .inl hcancelled
  | inr hlive => exact .inr ⟨hlive.1, hsub hlive.2⟩

theorem Live.mem {statuses : List RunStatus} {v : View} (h : Live statuses v)
    (hcancel : v.cancelSignal = false) : v.status ∈ statuses := by
  cases h with
  | inl hcancelled =>
    rw [hcancel] at hcancelled
    simp at hcancelled
  | inr hlive => exact hlive.2

theorem Live.open {statuses : List RunStatus} {v : View} (h : Live statuses v)
    (hcancel : v.cancelSignal = false) (hopen : ∀ status ∈ statuses, status.isTerminal = false) :
    v.status.isTerminal = false :=
  hopen v.status (h.mem hcancel)

theorem Steady.of_live {v : View} {stage : Stage} {statuses : List RunStatus} (hat : At v stage)
    (hlive : Live statuses v) (hcancelled : RunStatus.cancelled ∉ statuses)
    (hrequested : RunStatus.cancelRequested ∉ statuses) : Steady v := by
  refine { stage := ⟨stage, hat⟩, live := ?_ }
  cases hlive with
  | inl h => exact .inl h
  | inr h =>
    right
    refine ⟨h.1, ?_, ?_⟩
    . intro heq
      rw [heq] at h
      exact hcancelled h.2
    . intro heq
      rw [heq] at h
      exact hrequested h.2

-- The status of a run that has not ended by an outcome may change to another such status.
theorem At.withStatus {v v' : View} {stage : Stage} (h : At v stage) (hloop : v'.loop = v.loop)
    (hold : v.status ≠ .completed ∧ v.status ≠ .maxIterationsReached)
    (hnew : v'.status ≠ .completed ∧ v'.status ≠ .maxIterationsReached) : At v' stage :=
  {
    shape := by
      rw [hloop]
      exact h.shape
    facts := by
      rw [hloop]
      exact h.facts
    completed := by
      rw [← h.completed]
      simp [hold.1, hnew.1]
    exhausted := by
      rw [← h.exhausted]
      simp [hold.2, hnew.2]
  }

end Workflow

end AgenticPrd
