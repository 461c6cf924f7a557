import AgenticPrd.Backend.Workflow.Flow
import AgenticPrd.Lib.Interleaving
import Mathlib.Data.Multiset.AddSub

/-!
The three reviewers of a round at the grain of their commits: each may be suspended between the
event, the usage and the timing of its review, in any order with the others.
-/

namespace AgenticPrd

-- The points of a reviewer between its commits, and what it has reviewed.
inductive ReviewerPoint where
  | node (pc : ReviewerPc)
  | answered (frame : NodeFrame) (result : ProviderStructuredResult) (review : RoleReview)
  | completed (frame : NodeFrame) (result : ProviderStructuredResult) (review : RoleReview)
  | billed (frame : NodeFrame) (result : ProviderStructuredResult) (review : RoleReview)
  | recorded (result : ProviderStructuredResult) (review : RoleReview) (seconds : ℚ)

inductive ReviewerMove where
  | enter
  | wake (answer : Answer ProviderStructuredResult)
  | complete
  | bill
  | time

structure ReviewRound where
  world : World
  points : ReviewRole → ReviewerPoint

namespace Workflow

open RunManager Prog Transition

section Moves

def completeReview (env : Env) (role : ReviewRole) (review : RoleReview) :
    Prog World Exn Unit := do
  if review.role = role then
    checkCancel env
    let w ← get
    let _ ← commit env .none (finishReview w.cancelSignal role review) (some .reviewCompleted)
      fun _ => review.dump
  else
    throw .validationError

def timeReview (env : Env) (role : ReviewRole) (frame : NodeFrame)
    (result : ProviderStructuredResult) : Prog World Exn ℚ := do
  let now ← monotonic env
  let _ ← recordTiming env role.node frame.state.currentIteration 1 (now - frame.started) true
    (some result.usage)
  return now - frame.started

theorem commitReview_eq {env : Env} {role : ReviewRole} {frame : NodeFrame}
    {result : ProviderStructuredResult} {review : RoleReview} :
    commitReview env role frame result review
      =
    (do
      completeReview env role review
      let _ ← recordUsage env role.node result.usage
      let _ ← timeReview env role frame result
      return .done) := by
  unfold commitReview completeReview timeReview
  split
  . simp
  . rfl

end Moves

section Round

-- The next stretch of a reviewer, which ends at its next point.
def moveProgram (env : WorkflowEnv) (role : ReviewRole) :
    ReviewerPoint → ReviewerMove → Option (Prog World Exn ReviewerPoint)
  | .node .ready, .enter =>
    some do
      let pc ← reviewerNode env.toEnv role
      return .node pc
  | .node (.suspended frame structured), .wake answer =>
    some do
      let outcome ← structuredWake env.toEnv env.roleReview (reviewCall frame.state role)
        (reviewRepair frame.state role) answer structured
      match outcome with
      | .inl structured => return .node (.suspended frame structured)
      | .inr (result, review) => return .answered frame result review
  | .answered frame result review, .complete =>
    some do
      completeReview env.toEnv role review
      return .completed frame result review
  | .completed frame result review, .bill =>
    some do
      let _ ← recordUsage env.toEnv role.node result.usage
      return .billed frame result review
  | .billed frame result review, .time =>
    some do
      let seconds ← timeReview env.toEnv role frame result
      return .recorded result review seconds
  | _, _ => none

def enabled (w : World) (point : ReviewerPoint) : ReviewerMove → Bool
  | .wake answer =>
    match point with
    | .node (.suspended _ structured) => structured.await.accepts w answer
    | _ => true
  | _ => true

-- The runs of a round in which no reviewer raises.
def roundStep (env : WorkflowEnv) (round : ReviewRound) (label : ReviewRole × ReviewerMove) :
    Option ReviewRound := do
  let program ← moveProgram env label.1 (round.points label.1) label.2
  if enabled round.world (round.points label.1) label.2 then
    match program.run round.world with
    | (.ok point, world) =>
      some { world, points := Function.update round.points label.1 point }
    | (.error _, _) => none
  else
    none

def startRound (w : World) : ReviewRound :=
  {
    world := w
    points := fun _ => .node .ready
  }

end Round

section Refinement

variable {env : WorkflowEnv} {w w' : World} {role : ReviewRole} {label : Label}
  {points : ReviewRole → ReviewerPoint} {reviewers reviewers' : ReviewRole → ReviewerPc}

-- The point of a reviewer that makes its commits without being suspended in between.
def Matches (pc : ReviewerPc) (point : ReviewerPoint) : Prop :=
  point = .node pc
    ∨ pc = .done ∧ ∃ result review seconds, point = .recorded result review seconds

theorem Matches.node {pc : ReviewerPc} {point : ReviewerPoint} (h : Matches pc point)
    (hpc : pc ≠ .done) : point = .node pc := by
  cases h with
  | inl heq => exact heq
  | inr hdone => exact absurd hdone.1 hpc

theorem Matches.update {pc : ReviewerPc} {point : ReviewerPoint}
    (h : ∀ role, Matches (reviewers role) (points role)) (hnew : Matches pc point) :
    ∀ role', Matches (Function.update reviewers role pc role')
      (Function.update points role point role') := by
  intro role'
  by_cases heq : role' = role
  . subst heq
    rw [Function.update_self, Function.update_self]
    exact hnew
  . rw [Function.update_of_ne heq, Function.update_of_ne heq]
    exact h role'

theorem roundStep_of_run {round : ReviewRound} {move : ReviewerMove} {point : ReviewerPoint}
    {program : Prog World Exn ReviewerPoint}
    (hprogram : moveProgram env role (round.points role) move = some program)
    (henabled : enabled round.world (round.points role) move = true)
    (hrun : program.run round.world = (.ok point, w'))
    (hpoints : points = Function.update round.points role point) :
    roundStep env round (role, move) = some { world := w', points } := by
  subst hpoints
  unfold roundStep
  simp only [hprogram, henabled, hrun, Option.bind_eq_bind, Option.bind_some, if_true]

-- The commits of a review, one after the other.
theorem steps_commitReview {frame : NodeFrame} {result : ProviderStructuredResult}
    {review : RoleReview} {pc : ReviewerPc}
    (hpoint : points role = .answered frame result review)
    (hrun : (commitReview env.toEnv role frame result review).run w = (.ok pc, w')) :
    pc = .done
      ∧
    ∃ seconds, Reaches (roundStep env) { world := w, points }
      { world := w', points := Function.update points role (.recorded result review seconds) } := by
  rw [commitReview_eq] at hrun
  obtain ⟨_, w1, hcomplete, hrun⟩ := run_bind_eq_ok hrun
  obtain ⟨_, w2, hbill, hrun⟩ := run_bind_eq_ok hrun
  obtain ⟨seconds, w3, htime, hrun⟩ := run_bind_eq_ok hrun
  cases hrun
  refine ⟨rfl, seconds, ?_⟩
  have h1 : roundStep env { world := w, points } (role, .complete) = some {
      world := w1
      points := Function.update points role (.completed frame result review)
    } := by
    apply roundStep_of_run
    . dsimp only
      rw [hpoint]
      rfl
    . rfl
    . exact run_bind_of_ok hcomplete
    . rfl
  have h2 : roundStep env {
        world := w1
        points := Function.update points role (.completed frame result review)
      } (role, .bill) = some {
      world := w2
      points := Function.update points role (.billed frame result review)
    } := by
    apply roundStep_of_run
    . dsimp only
      rw [Function.update_self]
      rfl
    . rfl
    . exact run_bind_of_ok hbill
    . rw [Function.update_idem]
  have h3 : roundStep env {
        world := w2
        points := Function.update points role (.billed frame result review)
      } (role, .time) = some {
      world := w'
      points := Function.update points role (.recorded result review seconds)
    } := by
    apply roundStep_of_run
    . dsimp only
      rw [Function.update_self]
      rfl
    . rfl
    . exact run_bind_of_ok htime
    . rw [Function.update_idem]
  exact ((Steps.single trivial h1).trans (.single trivial h2)).trans (.single trivial h3)

-- A step of a reviewer of the workflow is a run of the round, unless it raises.
theorem stepReviewer_round (hmatches : ∀ role, Matches (reviewers role) (points role))
    (hstep : stepReviewer env w reviewers label = some { world := w', pc := .reviewing reviewers' })
    (hraised : ∀ role exn, reviewers' role ≠ .raised exn) :
    ∃ points', (∀ role, Matches (reviewers' role) (points' role))
      ∧ Reaches (roundStep env) { world := w, points } { world := w', points := points' } := by
  cases label with
  | reviewerEnter role =>
    dsimp only [stepReviewer] at hstep
    split at hstep
    . next hready =>
      unfold runReviewer at hstep
      split at hstep
      . next pc w1 hrun =>
        cases hstep
        have hpoint : points role = .node .ready := by
          rw [← hready]
          apply (hmatches role).node
          rw [hready]
          simp
        have hentered : roundStep env { world := w, points } (role, .enter)
            = some { world := w', points := Function.update points role (.node pc) } := by
          apply roundStep_of_run
          . dsimp only
            rw [hpoint]
            rfl
          . rfl
          . exact run_bind_of_ok hrun
          . rfl
        exact ⟨Function.update points role (.node pc), Matches.update hmatches (.inl rfl),
          .single trivial hentered⟩
      . cases hstep
        exact absurd (Function.update_self ..) (hraised role _)
    . contradiction
  | reviewerWake role answer =>
    dsimp only [stepReviewer] at hstep
    split at hstep
    . next frame structured hsuspended =>
      split at hstep
      . next haccepts =>
        unfold runReviewer at hstep
        split at hstep
        . next pc w1 hrun =>
          cases hstep
          have hpoint : points role = .node (.suspended frame structured) := by
            rw [← hsuspended]
            apply (hmatches role).node
            rw [hsuspended]
            simp
          have henabled : enabled w (points role) (.wake answer) = true := by
            rw [hpoint]
            exact haccepts
          unfold reviewerWake at hrun
          obtain ⟨outcome, w2, hwake, hrun⟩ := run_bind_eq_ok hrun
          cases outcome with
          | inl structured' =>
            cases hrun
            have hsuspended' : roundStep env { world := w, points } (role, .wake answer) = some {
                world := w'
                points := Function.update points role (.node (.suspended frame structured'))
              } := by
              apply roundStep_of_run
              . dsimp only
                rw [hpoint]
                rfl
              . exact henabled
              . exact run_bind_of_ok hwake
              . rfl
            exact ⟨_, Matches.update hmatches (.inl rfl), .single trivial hsuspended'⟩
          | inr answered =>
            obtain ⟨result, review⟩ := answered
            have hanswered : roundStep env { world := w, points } (role, .wake answer) = some {
                world := w2
                points := Function.update points role (.answered frame result review)
              } := by
              apply roundStep_of_run
              . dsimp only
                rw [hpoint]
                rfl
              . exact henabled
              . exact run_bind_of_ok hwake
              . rfl
            have hpoint2 : Function.update points role
                (ReviewerPoint.answered frame result review) role
                = .answered frame result review := Function.update_self ..
            obtain ⟨hdone, seconds, hsteps⟩ := steps_commitReview hpoint2 hrun
            rw [Function.update_idem] at hsteps
            refine ⟨Function.update points role (.recorded result review seconds),
              Matches.update hmatches (.inr ⟨hdone, result, review, seconds, rfl⟩), ?_⟩
            exact (Steps.single trivial hanswered).trans hsteps
        . cases hstep
          exact absurd (Function.update_self ..) (hraised role _)
      . contradiction
    . contradiction
  | reviewersJoin =>
    dsimp only [stepReviewer] at hstep
    split at hstep
    . cases hstep
    . contradiction
  | reviewersFail role =>
    dsimp only [stepReviewer] at hstep
    split at hstep
    . next exn _ =>
      have hplace : place (runTask env.toEnv (throw exn) w).pc ∈ [Place.finished] :=
        runTask_place (.throw _ : Goes [] _) (by simp) (by simp)
      rw [Option.some.inj hstep] at hplace
      simp [place] at hplace
    . contradiction
  | _ => contradiction

-- The labels by which reviewers go on.
def goesOn : Label → Bool
  | .reviewerEnter _ => true
  | .reviewerWake _ _ => true
  | _ => false

theorem stepReviewer_update {c : Config} (hlabel : goesOn label = true)
    (hstep : stepReviewer env w reviewers label = some c) :
    ∃ role pc, c.pc = .reviewing (Function.update reviewers role pc)
      ∧ ∀ exn, reviewers role ≠ .raised exn := by
  have hrunReviewer : ∀ role program, ∃ pc,
      (runReviewer role reviewers program w).pc = .reviewing (Function.update reviewers role pc) := by
    intro role program
    unfold runReviewer
    split
    . exact ⟨_, rfl⟩
    . exact ⟨_, rfl⟩
  cases label with
  | reviewerEnter role =>
    dsimp only [stepReviewer] at hstep
    split at hstep
    . next hready =>
      obtain ⟨pc, hpc⟩ := hrunReviewer role (reviewerNode env.toEnv role)
      rw [← Option.some.inj hstep]
      exact ⟨role, pc, hpc, by simp [hready]⟩
    . contradiction
  | reviewerWake role answer =>
    dsimp only [stepReviewer] at hstep
    split at hstep
    . next frame structured hsuspended =>
      split at hstep
      . obtain ⟨pc, hpc⟩ := hrunReviewer role (reviewerWake env role frame structured answer)
        rw [← Option.some.inj hstep]
        exact ⟨role, pc, hpc, by simp [hsuspended]⟩
      . contradiction
    . contradiction
  | _ => contradiction

-- The reviewers of a workflow that have gone on without raising have done so as in a round.
def Rounded (env : WorkflowEnv) (w : World) (c : Config) : Prop :=
  ∃ reviewers, c.pc = .reviewing reviewers
    ∧
  (
    (∀ role exn, reviewers role ≠ .raised exn) →
      ∃ points, (∀ role, Matches (reviewers role) (points role))
        ∧ Reaches (roundStep env) (startRound w) { world := c.world, points }
  )

theorem rounded_of_steps {c : Config}
    (hrun : Steps (step env) (fun _ label => goesOn label = true)
      { world := w, pc := .reviewing fun _ => .ready } c) : Rounded env w c := by
  apply hrun.invariant (I := Rounded env w)
  . exact ⟨_, rfl, fun _ => ⟨_, fun _ => .inl rfl, .refl⟩⟩
  . rintro ⟨w1, pc⟩ label c2 ⟨reviewers, rfl, hrounded⟩ hlabel hstep
    have hreviewer : stepReviewer env w1 reviewers label = some c2 := by
      cases label with
      | reviewerEnter role => exact hstep
      | reviewerWake role answer => exact hstep
      | _ => contradiction
    obtain ⟨role, pc, hpc, hgoing⟩ := stepReviewer_update hlabel hreviewer
    obtain ⟨w2, pc2⟩ := c2
    dsimp only at hpc
    subst hpc
    refine ⟨_, rfl, ?_⟩
    intro hraised
    have hbefore : ∀ role exn, reviewers role ≠ .raised exn := by
      intro role' exn
      by_cases heq : role' = role
      . subst heq
        exact hgoing exn
      . have hsame := hraised role' exn
        rw [Function.update_of_ne heq] at hsame
        exact hsame
    obtain ⟨points, hmatches, hreaches⟩ := hrounded hbefore
    obtain ⟨points', hmatches', hsteps⟩ := stepReviewer_round hmatches hreviewer hraised
    exact ⟨points', hmatches', hreaches.trans hsteps⟩

end Refinement

section Deeds

variable {τ : Type}

-- What a reviewer does to the run, with its timing as it is read in `τ`.
inductive Deed (τ : Type) where
  | entered
  | reviewed (review : RoleReview)
  | billed (usage : TokenUsage)
  | timed (entry : Option τ)

namespace Deed

def change (execution : RunExecution) (role : ReviewRole) (snapshot : RunSnapshot) :
    Deed τ → RunSnapshot
  | entered =>
    {
      snapshot with
      nodeStatuses := Function.update snapshot.nodeStatuses role.node .running
    }
  | reviewed review =>
    {
      snapshot with
      reviews := Function.update snapshot.reviews role (some review)
      nodeStatuses := Function.update snapshot.nodeStatuses role.node .succeeded
    }
  | billed usage => addNodeUsage execution role.node usage snapshot
  | timed _ => snapshot

def timings : Deed τ → Multiset τ
  | timed entry => entry.toList
  | _ => 0

def events : Deed τ → Nat
  | timed _ => 0
  | _ => 1

end Deed

-- What the run holds, apart from the times, the active node and the order of the timings.
structure Outlook (τ : Type) where
  snapshot : RunSnapshot
  timings : Multiset τ
  sequence : Nat

def bare (snapshot : RunSnapshot) : RunSnapshot :=
  {
    snapshot with
    activeNode := none
    nodeTimings := []
    elapsedSeconds := 0
    updatedAt := 0
    latestEventSequence := 0
  }

def outlook (measure : NodeTiming → τ) (w : World) : Outlook τ :=
  {
    snapshot := bare w.snapshot
    timings := w.snapshot.nodeTimings.map measure
    sequence := w.eventStore.sequence
  }

def act (execution : RunExecution) (role : ReviewRole) (deed : Deed τ) (v : Outlook τ) :
    Outlook τ :=
  {
    snapshot := deed.change execution role v.snapshot
    timings := v.timings + deed.timings
    sequence := v.sequence + deed.events
  }

theorem node_injective {role role' : ReviewRole} (h : role ≠ role') : role.node ≠ role'.node := by
  cases role <;> cases role' <;> simp_all [ReviewRole.node]

theorem usage_add_right_comm (a b c : TokenUsage) : (a.add b).add c = (a.add c).add b := by
  simp [TokenUsage.add, TokenUsage.ofTokens, Nat.add_right_comm]

theorem change_comm {execution : RunExecution} {role role' : ReviewRole} (h : role ≠ role')
    (deed deed' : Deed τ) (snapshot : RunSnapshot) :
    deed.change execution role (deed'.change execution role' snapshot)
      =
    deed'.change execution role' (deed.change execution role snapshot) := by
  have hnode := node_injective h
  cases deed <;> cases deed' <;>
    simp [Deed.change, addNodeUsage, Function.update_comm h, Function.update_comm hnode,
      Function.update_of_ne hnode, Function.update_of_ne hnode.symm, usage_add_right_comm]

theorem act_independent (execution : RunExecution) :
    Interleaving.Independent (act execution : ReviewRole → Deed τ → Outlook τ → Outlook τ) := by
  intro role role' h deed deed' v
  unfold act
  rw [change_comm h, add_right_comm v.timings, Nat.add_right_comm v.sequence]

@[simp]
theorem change_iteration (execution : RunExecution) (role : ReviewRole) (deed : Deed τ)
    (snapshot : RunSnapshot) :
    (deed.change execution role snapshot).currentIteration = snapshot.currentIteration := by
  cases deed <;> rfl

@[simp]
theorem change_runId (execution : RunExecution) (role : ReviewRole) (deed : Deed τ)
    (snapshot : RunSnapshot) :
    (deed.change execution role snapshot).runId = snapshot.runId := by
  cases deed <;> rfl

-- The event of a deed, in an iteration.
def Tells (role : ReviewRole) (iteration : Nat) (e : RunEvent) : Deed τ → Prop
  | .entered => e.event = .nodeStarted
  | .reviewed review =>
    review.role = role ∧ e.event = .reviewCompleted ∧ e.payload = review.dump
      ∧ e.iteration = iteration
  | .billed _ => e.event = .telemetryUpdated
  | .timed _ => False

def Voiced (role : ReviewRole) (w : World) (deed : Deed τ) : Option RunEvent → Prop
  | none => ∃ entry, deed = .timed entry
  | some e =>
    e.runId = w.snapshot.runId ∧ e.sequence = w.eventStore.sequence + 1
      ∧ Tells role w.snapshot.currentIteration e deed

def Deed.active (role : ReviewRole) (node : Option Node) : Deed τ → Option Node
  | .entered => some role.node
  | .reviewed _ => if node = some role.node then none else node
  | _ => node

/--
A reviewer has gone on by one commit.
-/
structure Did (execution : RunExecution) (measure : NodeTiming → τ) (role : ReviewRole)
    (deed : Deed τ) (w w' : World) : Prop where
  effect : outlook measure w' = act execution role deed (outlook measure w)
  active : w'.snapshot.activeNode = deed.active role w.snapshot.activeNode
  latest :
    w'.snapshot.latestEventSequence = w'.eventStore.sequence
      ∨
    (∃ entry, deed = .timed entry)
      ∧ w'.snapshot.latestEventSequence = w.snapshot.latestEventSequence
      ∧ w'.eventStore.sequence = w.eventStore.sequence
  journal :
    ∃ event, w'.journal = w.journal ++ [{ snapshot := w'.snapshot, event }]
        ∧ Voiced role w deed event

-- What the waits of a reviewer do not touch.
def held (w : World) : RunSnapshot × Nat × List Commit :=
  (w.snapshot, w.eventStore.sequence, w.journal)

instance : Ticking held :=
  {
    congr := by
      intro w w' hsnapshot _ hjournal hstore _
      unfold held
      rw [hsnapshot, hjournal, hstore]
  }

theorem overlooks_held (call : ProviderCall) : Overlooks held call :=
  fun _ => rfl

variable {execution : RunExecution} {measure : NodeTiming → τ} {role : ReviewRole} {deed : Deed τ}
  {w w' w1 : World}

theorem outlook_congr (h : held w1 = held w) : outlook measure w1 = outlook measure w := by
  unfold held at h
  simp only [Prod.mk.injEq] at h
  obtain ⟨hsnapshot, hsequence, _⟩ := h
  unfold outlook
  rw [hsnapshot, hsequence]

theorem Did.congr_left (h : Did execution measure role deed w1 w') (hheld : held w1 = held w) :
    Did execution measure role deed w w' := by
  have houtlook : outlook measure w1 = outlook measure w := outlook_congr hheld
  unfold held at hheld
  simp only [Prod.mk.injEq] at hheld
  obtain ⟨hsnapshot, hsequence, hjournal⟩ := hheld
  obtain ⟨event, hevent, hvoiced⟩ := h.journal
  constructor
  . rw [← houtlook]
    exact h.effect
  . rw [← hsnapshot]
    exact h.active
  . rw [← hsnapshot, ← hsequence]
    exact h.latest
  . refine ⟨event, ?_, ?_⟩
    . rw [← hjournal]
      exact hevent
    . unfold Voiced at hvoiced ⊢
      rw [hsnapshot, hsequence] at hvoiced
      exact hvoiced

theorem Did.congr_right (h : Did execution measure role deed w w1) (hheld : held w' = held w1) :
    Did execution measure role deed w w' := by
  have houtlook : outlook measure w' = outlook measure w1 := outlook_congr hheld
  unfold held at hheld
  simp only [Prod.mk.injEq] at hheld
  obtain ⟨hsnapshot, hsequence, hjournal⟩ := hheld
  constructor
  . rw [houtlook]
    exact h.effect
  . rw [hsnapshot]
    exact h.active
  . rw [hsnapshot, hsequence]
    exact h.latest
  . rw [hsnapshot, hjournal]
    exact h.journal

-- A deed with an event.
theorem did_of_publishes {kind : RunEventType} {payload : Payload} {s : RunSnapshot}
    (h : Publishes kind payload s w w')
    (hchange : bare s = deed.change execution role (bare w.snapshot))
    (htimings : s.nodeTimings = w.snapshot.nodeTimings)
    (hactive : s.activeNode = deed.active role w.snapshot.activeNode)
    (hdeed : deed.timings = 0 ∧ deed.events = 1)
    (htells : ∀ e : RunEvent, e.event = kind → e.payload = payload →
      e.iteration = w.snapshot.currentIteration → Tells role w.snapshot.currentIteration e deed) :
    Did execution measure role deed w w' := by
  obtain ⟨now, elapsed, hsnapshot⟩ := h.snapshot
  obtain ⟨e, hjournal, hrun, hsequence, hevent, hpayload, hiteration⟩ := h.journal
  have hsame : ∀ {υ : Type} (f : RunSnapshot → υ), (∀ s', f (bare s') = f s') →
      (∀ s', f (deed.change execution role s') = f s') → f s = f w.snapshot := by
    intro υ f hbare hf
    rw [← hbare s, hchange, hf, hbare]
  constructor
  . unfold outlook act
    rw [h.sequence, hsnapshot]
    change Outlook.mk (bare s) (s.nodeTimings.map measure : Multiset τ) _ = _
    rw [hchange, htimings, hdeed.1, hdeed.2, add_zero]
  . rw [hsnapshot]
    exact hactive
  . left
    rw [hsnapshot, h.sequence]
    rfl
  . refine ⟨some e, hjournal, ?_, hsequence, ?_⟩
    . rw [hrun]
      exact hsame RunSnapshot.runId (fun _ => rfl) (change_runId execution role deed)
    . apply htells e hevent hpayload
      rw [hiteration]
      exact hsame RunSnapshot.currentIteration (fun _ => rfl)
        (change_iteration execution role deed)

theorem did_of_saves {s : RunSnapshot} {entry : Option τ} (h : Saves s w w')
    (hchange : bare s = bare w.snapshot)
    (htimings : (s.nodeTimings.map measure : Multiset τ)
      = (w.snapshot.nodeTimings.map measure : Multiset τ) + entry.toList)
    (hactive : s.activeNode = w.snapshot.activeNode)
    (hlatest : s.latestEventSequence = w.snapshot.latestEventSequence) :
    Did execution measure role (.timed entry) w w' := by
  obtain ⟨now, elapsed, hsnapshot⟩ := h.snapshot
  constructor
  . unfold outlook act
    rw [h.sequence, hsnapshot]
    change Outlook.mk (bare s) (s.nodeTimings.map measure : Multiset τ) _ = _
    rw [hchange, htimings]
    rfl
  . rw [hsnapshot]
    exact hactive
  . right
    refine ⟨⟨entry, rfl⟩, ?_, h.sequence⟩
    rw [hsnapshot]
    exact hlatest
  . exact ⟨none, h.journal, entry, rfl⟩

end Deeds

section Programs

variable {τ : Type} {env : Env} {measure : NodeTiming → τ} {role : ReviewRole} {w : World}

theorem wp_markNode_did :
    wp (markNode env role.node .running (some role)) w
      (fun _ w' => Did env.execution measure role .entered w w') fun _ _ => True := by
  unfold markNode
  apply wp_mono
  . apply wp_commit_publishes (P := fun s => s = markSnapshot role.node .running w.snapshot)
    rfl
  . rintro _ w' ⟨s, rfl, hpublishes⟩
    apply did_of_publishes hpublishes rfl rfl rfl ⟨rfl, rfl⟩
    intro e hevent _ _
    exact hevent
  . intro _ _ _
    trivial

theorem wp_recordUsage_did {usage : TokenUsage} :
    wp (recordUsage env role.node usage) w
      (fun _ w' => Did env.execution measure role (.billed usage) w w') fun _ _ => True := by
  unfold recordUsage
  apply wp_mono
  . apply wp_commit_publishes (P := fun s => s = addNodeUsage env.execution role.node usage w.snapshot)
    rfl
  . rintro _ w' ⟨s, rfl, hpublishes⟩
    apply did_of_publishes hpublishes rfl rfl rfl ⟨rfl, rfl⟩
    intro e hevent _ _
    exact hevent
  . intro _ _ _
    trivial

theorem wp_completeReview_did {review : RoleReview} :
    wp (completeReview env role review) w
      (fun _ w' => review.role = role ∧ Did env.execution measure role (.reviewed review) w w')
      fun _ _ => True := by
  unfold completeReview
  split
  . next hrole =>
    rw [wp_bind]
    apply wp_mono ((keeping_checkCancel : Keeping held _) w)
    . intro _ w1 h1
      rw [wp_bind, wp_get, wp_bind]
      have hmutation : wp (finishReview w1.cancelSignal role review) w1.snapshot
          (fun _ s => s = {
            w1.snapshot with
            reviews := Function.update w1.snapshot.reviews role (some review)
            nodeStatuses := Function.update w1.snapshot.nodeStatuses role.node .succeeded
            activeNode :=
              if w1.snapshot.activeNode = some role.node then none else w1.snapshot.activeNode
          }) fun _ _ => True := by
        unfold finishReview
        split
        . trivial
        . rfl
      apply wp_mono (wp_commit_publishes hmutation)
      . rintro _ w' ⟨s, rfl, hpublishes⟩
        refine ⟨hrole, Did.congr_left ?_ h1⟩
        apply did_of_publishes hpublishes rfl rfl rfl ⟨rfl, rfl⟩
        intro e hevent hpayload hiteration
        exact ⟨hrole, hevent, hpayload, hiteration⟩
      . intro _ _ _
        trivial
    . intro _ _ _
      trivial
  . trivial

-- The timing of a review in an iteration.
def reviewTiming (role : ReviewRole) (iteration : Nat) (seconds : ℚ) (usage : TokenUsage) :
    Option NodeTiming :=
  NodeTiming.validate? role.node iteration 1 (Rounding.round (max 0 seconds) 2) true
    usage.inputTokens usage.outputTokens

theorem wp_timeReview_did {frame : NodeFrame} {result : ProviderStructuredResult} :
    wp (timeReview env role frame result) w
      (fun seconds w' => Did env.execution measure role
        (.timed ((reviewTiming role frame.state.currentIteration seconds result.usage).map measure))
        w w')
      fun _ _ => True := by
  unfold timeReview
  rw [wp_bind, wp_monotonic, wp_bind]
  have hmutation : wp
      (timingMutation role.node frame.state.currentIteration 1 (env.clock w.ticks - frame.started)
        true (some result.usage)) w.tick.snapshot
      (fun _ s => ∃ timing,
        reviewTiming role frame.state.currentIteration (env.clock w.ticks - frame.started)
            result.usage
          = some timing
          ∧ s = w.snapshot.addTiming timing)
      fun _ _ => True := by
    unfold timingMutation
    dsimp only
    split
    . trivial
    . next timing htiming => exact ⟨timing, htiming, rfl⟩
  unfold recordTiming
  apply wp_mono (wp_commit_saves hmutation)
  . rintro _ w' ⟨s, ⟨timing, htiming, rfl⟩, hsaves⟩
    rw [wp_pure, htiming]
    have hdid : Did env.execution measure role (.timed (some (measure timing))) w.tick w' := by
      apply did_of_saves hsaves rfl _ rfl rfl
      unfold RunSnapshot.addTiming
      dsimp only
      rw [List.map_append, ← Multiset.coe_add]
      rfl
    exact hdid.congr_left rfl
  . intro _ _ _
    trivial

end Programs

end Workflow

end AgenticPrd
