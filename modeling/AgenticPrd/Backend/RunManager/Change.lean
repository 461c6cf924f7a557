import AgenticPrd.Backend.RunManager.Lemmas
import AgenticPrd.Backend.RunManager.Stream
import AgenticPrd.Backend.Workflow.Basic
import Mathlib.Data.List.ModifyLast

/-!
What a commit can do to the snapshot of a run, with the event that it appends: one case for each
mutation of the run manager and of the workflow, under the facts that the caller has made sure of. A
history is a journal whose commits are such changes.
-/

namespace AgenticPrd

namespace RunSnapshot

-- The last version is the one of the current iteration, and has not been evaluated.
def Fresh (snapshot : RunSnapshot) : Prop :=
  snapshot.currentIteration = snapshot.versions.length
    ∧
  ∃ last ∈ snapshot.versions.getLast?, last.evaluation = none

-- Every version has been evaluated, and the budget allows for another one.
def Judged (snapshot : RunSnapshot) : Prop :=
  snapshot.currentIteration = snapshot.versions.length
    ∧
  snapshot.versions.length < snapshot.maxIterations
    ∧
  ∀ version ∈ snapshot.versions, version.evaluation ≠ none

-- The loop stands where the node has work to do.
def Calls (node : Node) (snapshot : RunSnapshot) : Prop :=
  match node with
  | .generator => snapshot.currentIteration = snapshot.versions.length + 1
  | .optimizer => snapshot.Judged
  | _ => snapshot.Fresh

def withOverride (userOverride : Option String) (snapshot : RunSnapshot) : RunSnapshot :=
  { snapshot with pendingUserOverride := userOverride }

def withText (delta : String) (snapshot : RunSnapshot) : RunSnapshot :=
  { snapshot with currentPrd := snapshot.currentPrd ++ delta }

def withVersion (version : PRDVersion) (attempt : Nat) (snapshot : RunSnapshot) : RunSnapshot :=
  {
    snapshot with
    versions := snapshot.versions ++ [version]
    currentPrd := version.content
    currentPrdAttempt := attempt
    pendingRevisionPlan := none
    nodeStatuses := Function.update snapshot.nodeStatuses .generator .succeeded
    activeNode := none
  }

def withReview (role : ReviewRole) (review : RoleReview) (snapshot : RunSnapshot) : RunSnapshot :=
  {
    snapshot with
    reviews := Function.update snapshot.reviews role (some review)
    nodeStatuses := Function.update snapshot.nodeStatuses role.node .succeeded
    activeNode := if snapshot.activeNode = some role.node then none else snapshot.activeNode
  }

def withPlan (plan : RevisionPlan) (snapshot : RunSnapshot) : RunSnapshot :=
  {
    snapshot with
    pendingRevisionPlan := some plan
    pendingUserOverride := none
    nodeStatuses := Function.update snapshot.nodeStatuses .optimizer .succeeded
    activeNode := none
    currentIteration := snapshot.currentIteration + 1
    reviews := fun _ => none
  }

def movedTo (now : Timestamp) (target : RunStatus) (snapshot : RunSnapshot) : RunSnapshot :=
  if target.isTerminal then
    (snapshot.withStatus target).withEnd now
  else
    snapshot.withStatus target

-- Whether the score is the best one so far.
def Improves (snapshot : RunSnapshot) (score : ℚ) : Prop :=
  ∀ best ∈ snapshot.bestScore, best < score

instance (snapshot : RunSnapshot) (score : ℚ) : Decidable (snapshot.Improves score) :=
  inferInstanceAs (Decidable (∀ best ∈ snapshot.bestScore, _))

def bestScoreWith (snapshot : RunSnapshot) (score : ℚ) : Option ℚ :=
  if snapshot.Improves score then some score else snapshot.bestScore

def bestVersionWith (snapshot : RunSnapshot) (score : ℚ) : Option Nat :=
  if snapshot.Improves score then some snapshot.currentIteration else snapshot.bestVersion

end RunSnapshot

namespace RunManager

open Workflow

def startedPayload (node : Node) (role : Option ReviewRole) : Payload :=
  [
    ("node", .str node.value),
    ("role", .ofOption (fun role => .str (ReviewRole.value role)) role)
  ]

-- The moves of `transition` along an edge of the state machine.
inductive Transit (old : RunSnapshot) : RunStatus → RunEventType → Payload → Prop where
  | stage {target : RunStatus} (htarget : target.isTerminal = false) :
    Transit old target .statusChanged []
  | pauseRequested :
    Transit old .pauseRequested .pauseRequested [("safe_point", .str "after_aggregation")]
  | paused : Transit old .paused .runPaused [("iteration", .ofNat old.currentIteration)]
  | cancelled : Transit old .cancelled .runCancelled [("reason", .str "user_requested")]
  | completed {evaluation : EvaluationResult} (hidle : old.activeNode = none)
    (hlatest : old.latestEvaluation = some evaluation)
    (hthreshold : old.qualityThreshold ≤ evaluation.overallScore) :
    Transit old .completed .runCompleted (outcomePayload evaluation old true true)
  | exhausted {evaluation : EvaluationResult} (hidle : old.activeNode = none)
    (hlatest : old.latestEvaluation = some evaluation) :
    Transit old .maxIterationsReached .maxIterationsReached
      (outcomePayload evaluation old (decide (old.qualityThreshold ≤ evaluation.overallScore)) false)

inductive Change (old : RunSnapshot) : Option RunEventType → Payload → RunSnapshot → Prop where
  | started {now : Timestamp} {payload : Payload} :
    Change old (some .runStarted) payload (startRun now old)
  | moved {now : Timestamp} {target : RunStatus} {event : RunEventType} {payload : Payload}
    (hlegal : old.status.canTransition target = true) (htransit : Transit old target event payload) :
    Change old (some event) (transitionPayload old.status target payload) (old.movedTo now target)
  | resumed {userOverride : Option String} {payload : Payload} (hpaused : old.status = .paused) :
    Change old (some .runResumed) payload
      ((old.withStatus .optimizing).withOverride userOverride)
  | failed {now : Timestamp} {code message : String} {retryable : Bool} {payload : Payload}
    (hopen : old.status.isTerminal = false) (hcode : LengthIn code 100)
    (hmessage : 1 ≤ message.length) :
    Change old (some .runFailed) payload (failSnapshot code message retryable now old)
  | marked {node : Node} {role : Option ReviewRole} (hopen : old.status.isTerminal = false)
    (hcalls : old.Calls node) :
    Change old (some .nodeStarted) (startedPayload node role) (markSnapshot node .running old)
  | timed {timing : NodeTiming} {payload : Payload} :
    Change old none payload (old.addTiming timing)
  | used {execution : RunExecution} {node : Node} {usage : TokenUsage} {payload : Payload} :
    Change old (some .telemetryUpdated) payload (addNodeUsage execution node usage old)
  | begun {payload : Payload} (hpending : old.text.Pending) :
    Change old none payload (beginStream 1 old)
  | reset {attempt : Nat} (hunfailed : old.status ≠ .failed) (hpending : old.text.Pending)
    (hattempt : 2 ≤ attempt) :
    Change old (some .prdStreamReset) (resetPayload old.currentIteration attempt)
      (beginStream attempt old)
  | streamed {attempt : Nat} {delta : String} (hopen : old.status.isTerminal = false)
    (hpending : old.text.Pending) :
    Change old (some .prdDelta) (deltaPayload old.currentIteration attempt delta)
      (old.withText delta)
  | generated {version : PRDVersion} {attempt : Nat} (hopen : old.status.isTerminal = false)
    (hattempt : 1 ≤ attempt) (hpending : old.currentIteration = old.versions.length + 1)
    (hversion : version.version = old.currentIteration) (hevaluation : version.evaluation = none)
    (hplan : version.revisionPlan = old.pendingRevisionPlan) :
    Change old (some .prdGenerated) (generatedPayload version.version attempt version.content)
      (old.withVersion version attempt)
  | reviewed {role : ReviewRole} {review : RoleReview} (hopen : old.status.isTerminal = false)
    (hfresh : old.Fresh) (hrole : review.role = role) :
    Change old (some .reviewCompleted) review.dump (old.withReview role review)
  | scored {evaluation : EvaluationResult} {gatePassed : Bool}
    (hopen : old.status.isTerminal = false) (hactive : old.activeNode = some .aggregator)
    (hfresh : old.Fresh) (htech : old.reviews .tech = some evaluation.tech)
    (hux : old.reviews .ux = some evaluation.ux) (hbiz : old.reviews .biz = some evaluation.biz) :
    Change old (some .scoresUpdated)
      (scoresPayload evaluation old.currentIteration old.bestScore
        (old.bestScoreWith evaluation.overallScore) (old.bestVersionWith evaluation.overallScore)
        gatePassed)
      (aggregate evaluation (old.bestScoreWith evaluation.overallScore)
        (old.bestVersionWith evaluation.overallScore) old)
  | planned {plan : RevisionPlan} (hopen : old.status.isTerminal = false) (hjudged : old.Judged) :
    Change old (some .revisionPlanned) [("revision_plan", .obj plan.dump)] (old.withPlan plan)

-- `new` is `s` with the stamps of a commit.
def Stamped (s : RunSnapshot) (sequence : Nat) (new : RunSnapshot) : Prop :=
  ∃ now elapsed, 0 ≤ elapsed ∧ new = ((s.withUpdatedAt now).withElapsed elapsed).withSequence sequence

/--
`History start journal snapshot`: the commits of the journal take the snapshot from `start` to
`snapshot`, each by a change that its event tells of.
-/
inductive History (start : RunSnapshot) : List Commit → RunSnapshot → Prop where
  | nil : History start [] start
  | silent {journal : List Commit} {old s new : RunSnapshot} {payload : Payload}
    (hhistory : History start journal old) (hchange : Change old none payload s)
    (hstamped : Stamped s old.latestEventSequence new) :
    History start (journal ++ [{ snapshot := new, event := none }]) new
  | event {journal : List Commit} {old s new : RunSnapshot} {e : RunEvent}
    (hhistory : History start journal old) (hchange : Change old (some e.event) e.payload s)
    (hstamped : Stamped s e.sequence new) (hsequence : e.sequence = old.latestEventSequence + 1)
    (hrun : e.runId = old.runId) (hiteration : e.iteration = s.currentIteration) :
    History start (journal ++ [{ snapshot := new, event := some e }]) new

section Frame

variable {old s new start : RunSnapshot} {event : Option RunEventType} {payload : Payload}
  {sequence : Nat}

-- What a run is created with, none of it ever assigned to.
structure SameRequest (old new : RunSnapshot) : Prop where
  runId : new.runId = old.runId
  maxIterations : new.maxIterations = old.maxIterations
  qualityThreshold : new.qualityThreshold = old.qualityThreshold

theorem SameRequest.refl (s : RunSnapshot) : SameRequest s s :=
  ⟨rfl, rfl, rfl⟩

theorem SameRequest.trans (hold : SameRequest old s) (hnew : SameRequest s new) :
    SameRequest old new :=
  {
    runId := hnew.runId.trans hold.runId
    maxIterations := hnew.maxIterations.trans hold.maxIterations
    qualityThreshold := hnew.qualityThreshold.trans hold.qualityThreshold
  }

theorem Change.sameRequest (h : Change old event payload s) : SameRequest old s := by
  cases h with
  | moved =>
    unfold RunSnapshot.movedTo
    split <;> exact ⟨rfl, rfl, rfl⟩
  | _ => exact ⟨rfl, rfl, rfl⟩

theorem Stamped.status (h : Stamped s sequence new) : new.status = s.status := by
  obtain ⟨now, elapsed, _, rfl⟩ := h
  rfl

theorem Change.terminal (h : Change old event payload s) (hterminal : old.status.isTerminal = true) :
    s.status = old.status := by
  cases h with
  | moved hlegal =>
    rw [RunStatus.not_canTransition_of_isTerminal hterminal] at hlegal
    contradiction
  | resumed hpaused =>
    rw [hpaused] at hterminal
    contradiction
  | failed hopen =>
    rw [hopen] at hterminal
    contradiction
  | _ => rfl

theorem Change.grown (h : Change old event payload s) :
    old.currentIteration ≤ s.currentIteration ∧ old.versions.length ≤ s.versions.length := by
  cases h with
  | moved =>
    unfold RunSnapshot.movedTo
    split <;> exact ⟨Nat.le_refl _, Nat.le_refl _⟩
  | generated =>
    simp only [RunSnapshot.withVersion, List.length_append]
    omega
  | scored _ _ hfresh =>
    obtain ⟨_, last, hlast, _⟩ := hfresh
    obtain ⟨earlier, hversions⟩ := List.getLast?_eq_some_iff.mp hlast
    simp [Workflow.aggregate, hversions, List.modifyLast_concat]
  | planned => exact ⟨Nat.le_succ _, Nat.le_refl _⟩
  | _ => exact ⟨Nat.le_refl _, Nat.le_refl _⟩

-- The events of a generation are about the version to come.
theorem Change.streams {event : RunEventType} (h : Change old (some event) payload s)
    (hstream : event.isStream = true) :
    s.currentIteration = old.currentIteration
      ∧ old.status ≠ .failed
      ∧ ∃ rest, payload = ("version", .ofNat old.currentIteration) :: rest := by
  have hunfailed : old.status.isTerminal = false → old.status ≠ .failed := by
    rintro hopen heq
    rw [heq] at hopen
    contradiction
  cases h with
  | reset hstatus => exact ⟨rfl, hstatus, _, rfl⟩
  | streamed hopen => exact ⟨rfl, hunfailed hopen, _, rfl⟩
  | generated hopen _ _ hversion =>
    rw [hversion]
    exact ⟨rfl, hunfailed hopen, _, rfl⟩
  | moved _ htransit => cases htransit <;> contradiction
  | _ => contradiction

theorem Stamped.sameRequest (h : Stamped s sequence new) : SameRequest s new := by
  obtain ⟨now, elapsed, _, rfl⟩ := h
  exact ⟨rfl, rfl, rfl⟩

theorem Stamped.text (h : Stamped s sequence new) : new.text = s.text := by
  obtain ⟨now, elapsed, _, rfl⟩ := h
  rfl

theorem Stamped.latestEvaluation (h : Stamped s sequence new) :
    new.latestEvaluation = s.latestEvaluation := by
  obtain ⟨now, elapsed, _, rfl⟩ := h
  rfl

theorem Stamped.activeNode (h : Stamped s sequence new) : new.activeNode = s.activeNode := by
  obtain ⟨now, elapsed, _, rfl⟩ := h
  rfl

theorem Stamped.nodeStatuses (h : Stamped s sequence new) :
    new.nodeStatuses = s.nodeStatuses := by
  obtain ⟨now, elapsed, _, rfl⟩ := h
  rfl

theorem Stamped.pendingRevisionPlan (h : Stamped s sequence new) :
    new.pendingRevisionPlan = s.pendingRevisionPlan := by
  obtain ⟨now, elapsed, _, rfl⟩ := h
  rfl

theorem Stamped.versions (h : Stamped s sequence new) : new.versions = s.versions := by
  obtain ⟨now, elapsed, _, rfl⟩ := h
  rfl

theorem Stamped.latest (h : Stamped s sequence new) : new.latestEventSequence = sequence := by
  obtain ⟨now, elapsed, _, rfl⟩ := h
  rfl

theorem History.sameRequest {journal : List Commit} (h : History start journal new) :
    SameRequest start new := by
  induction h with
  | nil => exact .refl _
  | silent _ hchange hstamped ih =>
    exact ih.trans (hchange.sameRequest.trans hstamped.sameRequest)
  | event _ hchange hstamped _ _ _ ih =>
    exact ih.trans (hchange.sameRequest.trans hstamped.sameRequest)

theorem History.invariant {P : RunSnapshot → Prop} {journal : List Commit}
    (h : History start journal new) (hstart : P start)
    (hchange : ∀ old event payload s, P old → Change old event payload s → P s)
    (hstamped : ∀ s sequence new, P s → Stamped s sequence new → P new) : P new := by
  induction h with
  | nil => exact hstart
  | silent _ hc hs ih => exact hstamped _ _ _ (hchange _ _ _ _ ih hc) hs
  | event _ hc hs _ _ _ ih => exact hstamped _ _ _ (hchange _ _ _ _ ih hc) hs

section Split

variable {journal : List Commit} {commit : Commit} {e : RunEvent}

theorem History.last (h : History start (journal ++ [commit]) new) : commit.snapshot = new := by
  generalize hwhole : journal ++ [commit] = whole at h
  cases h with
  | nil => simp at hwhole
  | silent =>
    rw [(List.append_singleton_inj.mp hwhole).2]
  | event =>
    rw [(List.append_singleton_inj.mp hwhole).2]

theorem History.eq_of_nil (h : History start [] new) : new = start := by
  generalize hwhole : ([] : List Commit) = whole at h
  cases h with
  | nil => rfl
  | silent => simp at hwhole
  | event => simp at hwhole

theorem History.of_singleton (h : History start [commit] new) :
    ∃ s payload sequence,
      Change start (commit.event.map RunEvent.event) payload s ∧ Stamped s sequence new := by
  rw [← List.nil_append [commit]] at h
  generalize hwhole : [] ++ [commit] = whole at h
  cases h with
  | nil => simp at hwhole
  | silent hhistory hchange hstamped =>
    obtain ⟨hnil, rfl⟩ := List.append_singleton_inj.mp hwhole
    rw [← hnil] at hhistory
    rw [hhistory.eq_of_nil] at hchange
    exact ⟨_, _, _, hchange, hstamped⟩
  | event hhistory hchange hstamped =>
    obtain ⟨hnil, rfl⟩ := List.append_singleton_inj.mp hwhole
    rw [← hnil] at hhistory
    rw [hhistory.eq_of_nil] at hchange
    exact ⟨_, _, _, hchange, hstamped⟩

theorem History.final_eq {new' : RunSnapshot} (h : History start journal new)
    (h' : History start journal new') : new = new' := by
  rcases List.eq_nil_or_concat' journal with rfl | ⟨before, commit, rfl⟩
  . rw [h.eq_of_nil, h'.eq_of_nil]
  . rw [← h.last, ← h'.last]

theorem History.split {before after : List Commit} (h : History start (before ++ after) new) :
    ∃ mid, History start before mid ∧ History mid after new := by
  generalize hwhole : before ++ after = whole at h
  induction h generalizing after with
  | nil =>
    rw [List.append_eq_nil_iff] at hwhole
    rw [hwhole.1, hwhole.2]
    exact ⟨start, .nil, .nil⟩
  | silent hhistory hchange hstamped ih =>
    rcases List.eq_nil_or_concat' after with rfl | ⟨rest, commit, rfl⟩
    . rw [List.append_nil] at hwhole
      rw [hwhole]
      exact ⟨_, .silent hhistory hchange hstamped, .nil⟩
    . rw [← List.append_assoc, List.append_singleton_inj] at hwhole
      obtain ⟨mid, hbefore, hrest⟩ := ih hwhole.1
      rw [hwhole.2]
      exact ⟨mid, hbefore, .silent hrest hchange hstamped⟩
  | event hhistory hchange hstamped hsequence hrun hiteration ih =>
    rcases List.eq_nil_or_concat' after with rfl | ⟨rest, commit, rfl⟩
    . rw [List.append_nil] at hwhole
      rw [hwhole]
      exact ⟨_, .event hhistory hchange hstamped hsequence hrun hiteration, .nil⟩
    . rw [← List.append_assoc, List.append_singleton_inj] at hwhole
      obtain ⟨mid, hbefore, hrest⟩ := ih hwhole.1
      rw [hwhole.2]
      exact ⟨mid, hbefore, .event hrest hchange hstamped hsequence hrun hiteration⟩

theorem History.through (h : History start journal new) (hmem : commit ∈ journal) :
    ∃ before after,
      journal = before ++ after
        ∧ History start before commit.snapshot ∧ History commit.snapshot after new := by
  obtain ⟨before, after, rfl⟩ := List.append_of_mem hmem
  rw [List.append_cons] at h
  obtain ⟨mid, hbefore, hafter⟩ := h.split
  have hlast := hbefore.last
  subst hlast
  refine ⟨before ++ [commit], after, ?_, hbefore, hafter⟩
  rw [List.append_assoc]
  rfl

-- The events of a history carry the sequences from where it starts to where it ends.
structure Spans (old new : RunSnapshot) (log : List RunEvent) : Prop where
  le : old.latestEventSequence ≤ new.latestEventSequence
  later : ∀ e ∈ log, old.latestEventSequence < e.sequence
  upTo : ∀ e ∈ log, e.sequence ≤ new.latestEventSequence
  runId : ∀ e ∈ log, e.runId = old.runId

theorem History.spans (h : History start journal new) : Spans start new (events journal) := by
  induction h with
  | nil => exact ⟨Nat.le_refl _, by simp [events], by simp [events], by simp [events]⟩
  | silent _ _ hstamped ih =>
    unfold events at ih ⊢
    rw [List.filterMap_append]
    simp only [List.filterMap_cons, List.filterMap_nil, List.append_nil]
    exact ⟨by rw [hstamped.latest]; exact ih.le, ih.later, by rw [hstamped.latest]; exact ih.upTo,
      ih.runId⟩
  | @event journal old s new e hhistory _ hstamped hsequence hrun _ ih =>
    have hle := ih.le
    unfold events at ih ⊢
    rw [List.filterMap_append]
    simp only [List.filterMap_cons, List.filterMap_nil]
    constructor
    . rw [hstamped.latest]
      omega
    . rw [List.forall_mem_append]
      refine ⟨ih.later, ?_⟩
      simp only [List.mem_singleton, forall_eq]
      omega
    . rw [hstamped.latest, List.forall_mem_append]
      refine ⟨?_, by simp⟩
      intro e' he'
      have := ih.upTo e' he'
      omega
    . rw [List.forall_mem_append]
      refine ⟨ih.runId, ?_⟩
      simp only [List.mem_singleton, forall_eq]
      rw [hrun]
      exact hhistory.sameRequest.runId

end Split

end Frame

section Documents

variable {start old s new : RunSnapshot} {journal : List Commit} {event : Option RunEventType}
  {payload : Payload}

-- A change keeps the documents of the versions, but for the one that is told.
theorem Change.documents (h : Change old event payload s) :
    ∀ version ∈ s.versions,
      (∃ earlier ∈ old.versions,
          earlier.version = version.version ∧ earlier.content = version.content)
        ∨
      (event = some .prdGenerated
        ∧ ∃ attempt, payload = generatedPayload version.version attempt version.content) := by
  intro version hversion
  have hkeep : version ∈ old.versions → ∃ earlier ∈ old.versions,
      earlier.version = version.version ∧ earlier.content = version.content :=
    fun hmem => ⟨version, hmem, rfl, rfl⟩
  cases h with
  | moved =>
    unfold RunSnapshot.movedTo at hversion
    split at hversion <;> exact .inl (hkeep hversion)
  | @generated version' attempt =>
    rcases List.mem_append.mp hversion with hmem | hnew
    . exact .inl (hkeep hmem)
    . rw [List.mem_singleton] at hnew
      subst hnew
      exact .inr ⟨rfl, attempt, rfl⟩
  | @scored evaluation _ _ _ hfresh =>
    obtain ⟨_, last, hlast, _⟩ := hfresh
    obtain ⟨earlier, hversions⟩ := List.getLast?_eq_some_iff.mp hlast
    simp only [Workflow.aggregate, hversions, List.modifyLast_concat, List.mem_append,
      List.mem_singleton] at hversion
    left
    rcases hversion with hmem | rfl
    . exact hkeep (by rw [hversions]; exact List.mem_append_left _ hmem)
    . refine ⟨last, ?_, rfl, rfl⟩
      rw [hversions]
      simp
  | _ => exact .inl (hkeep hversion)

-- Every version that is stored has been told.
theorem History.generated (h : History start journal new) (hstart : start.versions = []) :
    ∀ version ∈ new.versions,
      ∃ e ∈ events journal, e.event = .prdGenerated
        ∧ ∃ attempt, e.payload = generatedPayload version.version attempt version.content := by
  induction h with
  | nil =>
    rw [hstart]
    simp
  | silent hhistory hchange hstamped ih =>
    intro version hversion
    rw [hstamped.versions] at hversion
    rcases hchange.documents version hversion with ⟨earlier, hmem, hnumber, hcontent⟩ | ⟨hnone, _⟩
    . obtain ⟨e, he, hevent, attempt, hpayload⟩ := ih earlier hmem
      rw [hnumber, hcontent] at hpayload
      rw [events_append]
      exact ⟨e, List.mem_append_left _ he, hevent, attempt, hpayload⟩
    . contradiction
  | @event journal old s new e hhistory hchange hstamped _ _ _ ih =>
    intro version hversion
    rw [hstamped.versions] at hversion
    rw [events_append]
    rcases hchange.documents version hversion with
      ⟨earlier, hmem, hnumber, hcontent⟩ | ⟨hevent, attempt, hpayload⟩
    . obtain ⟨e', he, hevent, attempt, hpayload⟩ := ih earlier hmem
      rw [hnumber, hcontent] at hpayload
      exact ⟨e', List.mem_append_left _ he, hevent, attempt, hpayload⟩
    . refine ⟨e, by simp, ?_, attempt, hpayload⟩
      exact Option.some.inj hevent

end Documents

section Coherent

/--
A plan is only pending while the loop is at the version to generate from it, and once the last
version has been evaluated, the latest evaluation is its own.
-/
structure Coherent (s : RunSnapshot) : Prop where
  plan : s.currentIteration = s.versions.length → s.pendingRevisionPlan = none
  evaluation :
    ∀ last ∈ s.versions.getLast?, last.evaluation ≠ none → s.latestEvaluation = last.evaluation

variable {old s new start : RunSnapshot} {event : Option RunEventType} {payload : Payload}

theorem Coherent.change (h : Coherent old) (hchange : Change old event payload s) : Coherent s := by
  cases hchange with
  | moved =>
    unfold RunSnapshot.movedTo
    split <;> exact ⟨h.plan, h.evaluation⟩
  | generated _ _ hpending _ hevaluation _ =>
    constructor
    . intro _
      rfl
    . intro last hlast hne
      simp only [RunSnapshot.withVersion, List.getLast?_concat, Option.mem_some_iff] at hlast
      rw [← hlast, hevaluation] at hne
      contradiction
  | scored _ _ hfresh _ _ _ =>
    obtain ⟨hiteration, last, hlast, _⟩ := hfresh
    obtain ⟨earlier, hversions⟩ := List.getLast?_eq_some_iff.mp hlast
    constructor
    . intro _
      exact h.plan hiteration
    . intro last' hlast' _
      simp only [Workflow.aggregate, hversions, List.modifyLast_concat, List.getLast?_concat,
        Option.mem_some_iff] at hlast'
      rw [← hlast']
      rfl
  | planned _ hjudged =>
    constructor
    . intro hiteration
      have hold := hjudged.1
      simp only [RunSnapshot.withPlan] at hiteration
      omega
    . exact h.evaluation
  | _ => exact ⟨h.plan, h.evaluation⟩

theorem Coherent.stamped {sequence : Nat} (h : Coherent s) (hstamped : Stamped s sequence new) :
    Coherent new := by
  obtain ⟨now, elapsed, _, rfl⟩ := hstamped
  exact ⟨h.plan, h.evaluation⟩

theorem History.coherent {journal : List Commit} (h : History start journal new)
    (hstart : Coherent start) : Coherent new :=
  h.invariant hstart (fun _ _ _ _ => Coherent.change) (fun _ _ _ => Coherent.stamped)

theorem coherent_create (env : Env) (runId : RunId) (request : CreateRunRequest)
    (outputLanguage : String) (now : Timestamp) :
    Coherent (createSnapshot env runId request outputLanguage now) :=
  {
    plan := fun _ => rfl
    evaluation := by simp [createSnapshot]
  }

end Coherent

end RunManager

end AgenticPrd
