import AgenticPrd.Backend.Workflow.ReviewOrder
import AgenticPrd.Live.Severity
import AgenticPrd.Live.Tracking

/-!
Three reviewers that go on in any order, as the run and a client that follows it come to see them.
-/

namespace AgenticPrd

namespace Live

open Transition Workflow Interleaving
open Client (RunViewState receive Locked)

section Hearing

variable {τ : Type} {isoformat : Timestamp → String} {view : RunViewState} {runId : RunId}
  {iteration sequence : Nat} {done : List (ReviewRole × Deed τ)} {told : List RunEvent}

-- What a deed brings to the reviews of a view.
def hear (iteration : Nat) (role : ReviewRole) (deed : Deed τ)
    (reviewsByVersion : List (ℚ × Client.Reviews)) : List (ℚ × Client.Reviews) :=
  match deed with
  | .reviewed review =>
    Record.set reviewsByVersion (iteration : ℚ)
      (Function.update ((Record.get? reviewsByVersion (iteration : ℚ)).getD fun _ => none) role
        (some (Client.normalizeReview review.dump)))
  | _ => reviewsByVersion

theorem hear_independent (iteration : Nat) :
    Independent (hear iteration : ReviewRole → Deed τ → _ → _) := by
  intro role role' h deed deed' reviewsByVersion
  cases deed <;> cases deed' <;>
    simp [hear, Record.set_set, Function.update_comm h]

theorem applyEvent_heard {e : RunEvent} {role : ReviewRole} {deed : Deed τ}
    (htells : Tells role iteration e deed) :
    (Client.applyEvent view (e.wire isoformat)).reviewsByVersion
        = hear iteration role deed view.reviewsByVersion
      ∧ (Client.applyEvent view (e.wire isoformat)).status = view.status := by
  have hquiet : e.event ≠ .reviewCompleted →
      (Client.applyEvent view (e.wire isoformat)).reviewsByVersion = view.reviewsByVersion := by
    intro hevent
    rw [Client.applyEvent_reviewsByVersion]
    unfold Client.eventReviews RunEvent.wire
    dsimp only
    split
    . contradiction
    . rfl
  rw [Client.applyEvent_status]
  unfold Client.eventStatus RunEvent.wire
  cases deed with
  | entered =>
    have hevent : e.event = .nodeStarted := htells
    refine ⟨hquiet (by simp [hevent]), ?_⟩
    rw [hevent]
    rfl
  | reviewed review =>
    obtain ⟨hrole, hevent, hpayload, hiteration⟩ := htells
    constructor
    . rw [← hrole, ← hiteration]
      exact applyEvent_review hevent hpayload
    . rw [hevent]
      rfl
  | billed usage =>
    have hevent : e.event = .telemetryUpdated := htells
    refine ⟨hquiet (by simp [hevent]), ?_⟩
    rw [hevent]
    rfl
  | timed entry => exact htells.elim

theorem receive_concat {events : List Client.RunEvent} {event : Client.RunEvent} :
    receive view (events ++ [event])
      =
    Client.runReducer (receive view events) (.eventReceived event) := by
  unfold receive
  rw [List.foldl_append]
  rfl

-- A view that follows the run, and has not come further than the round's start.
theorem heard_of_voices (h : Voices runId iteration sequence done told)
    (hrun : view.runId = some runId) (hlatest : view.latestSequence ≤ sequence)
    (hlocked : ¬Locked view) :
    let heard := receive view (told.map (RunEvent.wire isoformat))
    heard.runId = some runId
      ∧ heard.latestSequence ≤ (sequence + told.length : Nat)
      ∧ heard.status = view.status
      ∧ heard.reviewsByVersion = run (hear iteration) view.reviewsByVersion done := by
  dsimp only
  induction h with
  | nil => exact ⟨hrun, hlatest, rfl, rfl⟩
  | @tell done told role deed e _ hsame hsequence htells ih =>
    rw [List.map_append, List.map_singleton, receive_concat]
    generalize receive view (told.map (RunEvent.wire isoformat)) = before at ih ⊢
    obtain ⟨ihrun, ihlatest, ihstatus, ihreviews⟩ := ih
    have hnot : ¬Client.Ignores before (e.wire isoformat) := by
      rintro (hother | hearlier | hended)
      . apply hother
        rw [ihrun, ← hsame]
        rfl
      . have hle : (e.sequence : ℚ) ≤ (sequence + told.length : Nat) := hearlier.trans ihlatest
        rw [Nat.cast_le] at hle
        omega
      . unfold Locked at hended hlocked
        rw [ihstatus] at hended
        exact hlocked hended
    have happly : Client.runReducer before (.eventReceived (e.wire isoformat))
        = Client.applyEvent before (e.wire isoformat) := if_neg hnot
    have hheard : (Client.applyEvent before (e.wire isoformat)).reviewsByVersion
          = hear iteration role deed before.reviewsByVersion
        ∧ (Client.applyEvent before (e.wire isoformat)).status = before.status :=
      applyEvent_heard htells
    rw [happly]
    refine ⟨?_, ?_, hheard.2.trans ihstatus, ?_⟩
    . rw [Client.applyEvent_runId]
      exact ihrun
    . rw [Client.applyEvent_latestSequence, List.length_append]
      have hle : (e.sequence : ℚ) ≤ (sequence + (told.length + 1) : Nat) := by
        rw [Nat.cast_le]
        omega
      exact hle
    . rw [hheard.1, ihreviews, run_append]
      rfl
  | keep _ ih =>
    obtain ⟨ihrun, ihlatest, ihstatus, ihreviews⟩ := ih
    refine ⟨ihrun, ihlatest, ihstatus, ?_⟩
    rw [run_append]
    exact ihreviews

-- A view of another run.
theorem receive_elsewhere {events : List Client.RunEvent}
    (h : ∀ event ∈ events, some event.runId ≠ view.runId) : receive view events = view := by
  induction events with
  | nil => rfl
  | cons event events ih =>
    rw [List.forall_mem_cons] at h
    have hsame : Client.runReducer view (.eventReceived event) = view := if_pos (.inl h.1)
    unfold receive at ih ⊢
    rw [List.foldl_cons, hsame]
    exact ih h.2

end Hearing

section Commuting

variable {env env' : WorkflowEnv} {isoformat : Timestamp → String} {view : RunViewState}
  {w : World} {round round' : ReviewRound} {results : ReviewRole → TokenUsage × RoleReview}

-- The reviews of a view that has the events of the round.
def heardReviews (isoformat : Timestamp → String) (view : RunViewState) (w : World)
    (round : ReviewRound) : List (ℚ × Client.Reviews) :=
  (receive view ((roundEvents w round).map (RunEvent.wire isoformat))).reviewsByVersion

theorem heardReviews_eq (hrun : Reaches (roundStep env) (startRound w) round)
    (hrun' : Reaches (roundStep env') (startRound w) round')
    (hfinished : Finished results round) (hfinished' : Finished results round')
    (hlatest : view.latestSequence ≤ w.eventStore.sequence) :
    heardReviews isoformat view w round' = heardReviews isoformat view w round := by
  obtain ⟨done, told, h⟩ : ∃ done told, Unfolds env.execution unmeasured w done told round :=
    Unfolds.of_steps hrun
  obtain ⟨done', told', h'⟩ : ∃ done told, Unfolds env'.execution unmeasured w done told round' :=
    Unfolds.of_steps hrun'
  unfold heardReviews
  rw [h.roundEvents_eq, h'.roundEvents_eq]
  by_cases hsame : view.runId = some w.snapshot.runId
  . by_cases hlocked : Locked view
    . rw [receive_locked hlocked, receive_locked hlocked]
    . rw [(heard_of_voices h.voices hsame hlatest hlocked).2.2.2,
        (heard_of_voices h'.voices hsame hlatest hlocked).2.2.2]
      apply (hear_independent w.snapshot.currentIteration).run_eq
      intro role
      rw [h.threads, h'.threads, hfinished.unmeasured_deeds hfinished']
  . have hother : ∀ {done : List (ReviewRole × Deed NodeTiming)} {told : List RunEvent},
        Voices w.snapshot.runId w.snapshot.currentIteration w.eventStore.sequence done told →
        receive view (told.map (RunEvent.wire isoformat)) = view := by
      intro done told hvoices
      apply receive_elsewhere
      intro event hevent
      obtain ⟨e, he, rfl⟩ := List.mem_map.mp hevent
      have hrunId : (e.wire isoformat).runId = w.snapshot.runId := hvoices.runId_eq e he
      rw [hrunId]
      exact Ne.symm hsame
    rw [hother h.voices, hother h'.voices]

/--
Two runs of a round from `w` come to the same, for the run, its aggregator and a client.
-/
structure Agree (isoformat : Timestamp → String) (view : RunViewState) (w : World)
    (env env' : WorkflowEnv) (round round' : ReviewRound) : Prop where
  snapshot : untimed round'.world.snapshot = untimed round.world.snapshot
  timings :
    (round'.world.snapshot.nodeTimings.map unmeasured).Perm
      (round.world.snapshot.nodeTimings.map unmeasured)
  measured :
    (∀ role, seconds? (round'.points role) = seconds? (round.points role)) →
      round'.world.snapshot.nodeTimings.Perm round.world.snapshot.nodeTimings
  evaluation : judged? round'.world.snapshot = judged? round.world.snapshot
  gate :
    ∀ pc pc' judging judging', (aggregatorNode env.toEnv).run round.world = (.ok pc, judging) →
      (aggregatorNode env'.toEnv).run round'.world = (.ok pc', judging') →
      judging'.snapshot.latestEvaluation = judging.snapshot.latestEvaluation
        ∧ (judging'.snapshot.status = .completed ↔ judging.snapshot.status = .completed)
  reviewsByVersion : heardReviews isoformat view w round' = heardReviews isoformat view w round

/--
Two rounds of the same results agree, and whatever the reviewers of a workflow do without raising is a
round.
-/
theorem reviewers_commute (hexecution : env'.execution = env.execution)
    (hrun : Reaches (roundStep env) (startRound w) round)
    (hrun' : Reaches (roundStep env') (startRound w) round')
    (hfinished : Finished results round) (hfinished' : Finished results round')
    (hlatest : view.latestSequence ≤ w.eventStore.sequence) :
    Agree isoformat view w env env' round round'
      ∧
    ∀ (wenv : WorkflowEnv) (c : Config),
      Steps (step wenv) (fun _ label => goesOn label = true)
          { world := w, pc := .reviewing fun _ => .ready } c →
        Rounded wenv w c := by
  refine ⟨?_, fun _ _ hsteps => rounded_of_steps hsteps⟩
  obtain ⟨done, told, h⟩ : ∃ done told, Unfolds env.execution unmeasured w done told round :=
    Unfolds.of_steps hrun
  obtain ⟨done', told', h'⟩ : ∃ done told, Unfolds env.execution unmeasured w done told round' := by
    rw [← hexecution]
    exact Unfolds.of_steps hrun'
  have hdeeds : ∀ role, deeds unmeasured w.snapshot.currentIteration role (round'.points role)
      = deeds unmeasured w.snapshot.currentIteration role (round.points role) :=
    fun role => hfinished'.unmeasured_deeds hfinished
  have hsnapshot : untimed round'.world.snapshot = untimed round.world.snapshot :=
    (h'.untimed_eq h hfinished' hfinished hdeeds).1
  have hreviews : round'.world.snapshot.reviews = round.world.snapshot.reviews := by
    have hsame := congrArg RunSnapshot.reviews hsnapshot
    exact hsame
  have hthreshold : round'.world.snapshot.qualityThreshold
      = round.world.snapshot.qualityThreshold := by
    have hsame := congrArg RunSnapshot.qualityThreshold hsnapshot
    exact hsame
  have hevaluation : judged? round'.world.snapshot = judged? round.world.snapshot := by
    unfold judged?
    rw [hreviews]
  constructor
  . exact hsnapshot
  . exact Multiset.coe_eq_coe.mp (congrArg Outlook.timings (h'.outlook_eq h hdeeds))
  . intro hseconds
    obtain ⟨done, told, h⟩ : ∃ done told, Unfolds env.execution id w done told round :=
      Unfolds.of_steps hrun
    obtain ⟨done', told', h'⟩ : ∃ done told, Unfolds env.execution id w done told round' := by
      rw [← hexecution]
      exact Unfolds.of_steps hrun'
    have htimings := congrArg Outlook.timings
      (h'.outlook_eq h fun role => hfinished'.deeds_eq hfinished (hseconds role))
    unfold outlook at htimings
    rw [List.map_id, List.map_id] at htimings
    exact Multiset.coe_eq_coe.mp htimings
  . exact hevaluation
  . intro pc pc' judging judging' haggregated haggregated'
    have hjudged := (Prog.wp_of_run_ok haggregated).mp wp_aggregatorNode_judges
    have hjudged' := (Prog.wp_of_run_ok haggregated').mp wp_aggregatorNode_judges
    rw [hevaluation, hthreshold] at hjudged'
    obtain ⟨evaluation, hsome, hlatest, hgate⟩ := hjudged
    obtain ⟨evaluation', hsome', hlatest', hgate'⟩ := hjudged'
    cases hsome.symm.trans hsome'
    exact ⟨hlatest'.trans hlatest.symm, hgate'.trans hgate.symm⟩
  . exact heardReviews_eq hrun hrun' hfinished hfinished' hlatest

-- The run of the answering provider whose first version is to be reviewed.
def reviewingWorld : World :=
  ((exec (step answeringWorkflow) answeringInit ([.begin] ++ answeredVersion.take 3)).getD
    answeringInit).world

def reviewMoves (role : ReviewRole) : List (ReviewRole × ReviewerMove) :=
  [.enter, .wake (.returned { value := .str role.value, usage := .ofTokens 100 20 }), .complete,
    .bill, .time].map fun move => (role, move)

-- One reviewer after the other.
def oneByOne : List (ReviewRole × ReviewerMove) :=
  [ReviewRole.tech, .ux, .biz].flatMap reviewMoves

-- Each move of the three reviewers before the next.
def inStep : List (ReviewRole × ReviewerMove) :=
  (List.range 5).flatMap fun i =>
    [ReviewRole.biz, .ux, .tech].filterMap fun role => (reviewMoves role)[i]?

theorem reviewers_commute_inStep :
    ∃ round round',
      exec (roundStep answeringWorkflow) (startRound reviewingWorld) oneByOne = some round
        ∧ exec (roundStep answeringWorkflow) (startRound reviewingWorld) inStep = some round'
        ∧ Agree (fun _ => "")
          (Client.loadSnapshot Client.initialRunViewState reviewingWorld.snapshot.wire)
          reviewingWorld answeringWorkflow answeringWorkflow round round' := by
  have hends : ∀ moves ∈ [oneByOne, inStep], ∃ round,
      exec (roundStep answeringWorkflow) (startRound reviewingWorld) moves = some round
        ∧ Finished (fun role => (.ofTokens 100 20, mockReview role)) round := by
    intro moves hmoves
    have hany : (exec (roundStep answeringWorkflow) (startRound reviewingWorld) moves).any
        (fun round => [ReviewRole.tech, .ux, .biz].all fun role =>
          reviewed? (round.points role) = some (.ofTokens 100 20, mockReview role)) = true := by
      simp only [List.mem_cons, List.not_mem_nil, or_false] at hmoves
      rcases hmoves with rfl | rfl <;> decide +kernel
    obtain ⟨round, hround, hreviewed⟩ := (Option.any_eq_true _ _).mp hany
    refine ⟨round, hround, ?_⟩
    intro role
    cases role <;> simp_all
  obtain ⟨round, hexec, hfinished⟩ := hends oneByOne (by simp)
  obtain ⟨round', hexec', hfinished'⟩ := hends inStep (by simp)
  exact ⟨round, round', hexec, hexec', And.left (reviewers_commute rfl (.of_exec hexec)
    (.of_exec hexec') hfinished hfinished' (by decide +kernel))⟩

end Commuting

end Live

end AgenticPrd
