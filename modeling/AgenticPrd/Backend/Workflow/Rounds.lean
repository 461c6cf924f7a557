import AgenticPrd.Backend.Workflow.Account
import AgenticPrd.Backend.Workflow.Flow
import AgenticPrd.Backend.Workflow.Run

/-!
The rounds of the optimizer, step by step: the calls that a round makes for a plan, and the commit
that ends it. No other step touches the rounds, but that a resume sets the pending override.
-/

namespace AgenticPrd

namespace Workflow

open RunManager Prog Transition

variable {env : Env} {w : World}

-- What a call for a plan passes on: the iteration and the override of the snapshot that was read.
def offer (state : RunSnapshot) : Nat × Option String :=
  (state.currentIteration, state.pendingUserOverride)

-- The last attempt of the call has not reached the provider.
def Uncalled (structured : StructuredPc) : Prop :=
  ∃ attempt exn, structured = .calling attempt (.settling exn)

-- The call has been made once more, unless its cancel check has raised before.
def Offers (state : RunSnapshot) (w : World) (structured : StructuredPc) (w' : World) : Prop :=
  w'.rounds = w.rounds ∧ Uncalled structured
    ∨
  w'.rounds = (w.snapshot.round, w.passed ++ [offer state], w.planned)

theorem offer_eq {s s' : RunSnapshot} (h : s'.round = s.round) : offer s' = offer s := by
  have hiteration : s'.currentIteration = s.currentIteration := congrArg Round.currentIteration h
  have hoverride : s'.pendingUserOverride = s.pendingUserOverride :=
    congrArg Round.pendingUserOverride h
  unfold offer
  rw [hiteration, hoverride]

theorem Offers.of_rounds {state : RunSnapshot} {structured : StructuredPc} {w1 w' : World}
    (h1 : w1.rounds = w.rounds) (h : Offers state w1 structured w') :
    Offers state w structured w' := by
  have hround : w1.snapshot.round = w.snapshot.round := congrArg Prod.fst h1
  have hrest : (w1.passed, w1.planned) = (w.passed, w.planned) := congrArg Prod.snd h1
  rw [Prod.mk.injEq] at hrest
  unfold Offers at h ⊢
  rw [h1, hround, hrest.1, hrest.2] at h
  exact h

-- The event that tells of the plan that ends the round of `w`.
structure Announces (plan : RevisionPlan) (w : World) (e : RunEvent) : Prop where
  event : e.event = .revisionPlanned
  payload : e.payload = [("revision_plan", .obj plan.dump)]
  iteration : e.iteration = w.snapshot.currentIteration + 1

-- The round of `w` has ended with the plan.
def Plans (plan : RevisionPlan) (w w' : World) : Prop :=
  ∃ e, Announces plan w e
    ∧ w'.rounds = ({ currentIteration := w.snapshot.currentIteration + 1, pendingUserOverride := none },
        w.passed, w.planned ++ [e])

-- What a round leaves behind that fails around its commit.
def Fails (plan : RevisionPlan) (w w' : World) : Prop :=
  w'.passed = w.passed
    ∧
  (w'.planned = w.planned ∨ ∃ e, Announces plan w e ∧ w'.planned = w.planned ++ [e])

def Answers {T : Type} (model : Json → Option T) (answer : Answer ProviderStructuredResult)
    (parsed : T) : Prop :=
  ∃ result, answer = .returned result ∧ model result.value = some parsed

section Call

variable {state : RunSnapshot} {evaluation : EvaluationResult}

theorem rounds_called :
    (w.called (planCall state evaluation)).rounds
      =
    (w.snapshot.round, w.passed ++ [offer state], w.planned) := by
  unfold World.rounds World.seen World.passed World.called
  rw [List.filterMap_append]
  rfl

theorem wp_planCall {attempt : Nat} :
    wp (structuredCall env attempt (planCall state evaluation)) w (Offers state w)
      fun _ _ => False := by
  unfold structuredCall beginAwait
  rw [wp_bind, wp_tryCatch, wp_bind]
  apply wp_mono (keeping_rounds keeping_checkCancel w)
  . intro _ w1 h1
    rw [wp_bind]
    apply wp_mono (keeping_rounds keeping_remainingRunSeconds w1)
    . intro _ w2 h2
      dsimp only
      rw [wp_bind, wp_modify, wp_pure, wp_pure]
      rw [h1] at h2
      apply Offers.of_rounds h2
      exact .inr rounds_called
    . intro exn w2 h2
      rw [wp_pure, wp_pure]
      rw [h1] at h2
      exact .inl ⟨h2, attempt, exn, rfl⟩
  . intro exn w1 h1
    rw [wp_pure, wp_pure]
    exact .inl ⟨h1, attempt, exn, rfl⟩

end Call

section Start

-- The optimizer is parked, or it has started its round.
def Starts (w : World) (pc : Pc) (w' : World) : Prop :=
  w'.rounds = w.rounds
      ∧ (∀ frame structured, pc = .optimizing frame structured → Uncalled structured)
    ∨
  (∃ frame structured, pc = .optimizing frame structured)
    ∧
  w'.rounds = (w.snapshot.round, w.passed ++ [offer w.snapshot], w.planned)

theorem Starts.of_rounds {w1 w' : World} {pc : Pc} (h1 : w1.rounds = w.rounds)
    (h : Starts w1 pc w') : Starts w pc w' := by
  have hround : w1.snapshot.round = w.snapshot.round := congrArg Prod.fst h1
  have hrest : (w1.passed, w1.planned) = (w.passed, w.planned) := congrArg Prod.snd h1
  rw [Prod.mk.injEq] at hrest
  unfold Starts at h ⊢
  rw [h1, offer_eq hround, hround, hrest.1, hrest.2] at h
  exact h

theorem wp_startOptimizer_rounds :
    wp (startOptimizer env) w (Starts w) fun _ w' => w'.rounds = w.rounds := by
  unfold startOptimizer
  rw [wp_bind]
  apply wp_mono (keeping_rounds keeping_monotonic w)
  . intro started w1 h1
    rw [wp_bind]
    apply wp_mono (keeping_rounds keeping_markNode w1)
    . intro _ w2 h2
      rw [h1] at h2
      rw [wp_bind, wp_get]
      split
      . exact h2
      . rw [wp_bind]
        apply wp_mono wp_planCall
        . intro structured w3 h3
          rw [wp_pure]
          apply Starts.of_rounds h2
          cases h3 with
          | inl hsame =>
            refine .inl ⟨hsame.1, ?_⟩
            rintro _ _ ⟨⟩
            exact hsame.2
          | inr hcalled => exact .inr ⟨⟨_, _, rfl⟩, hcalled⟩
        . intro _ _ h3
          contradiction
    . intro _ w2 h2
      rw [h2, h1]
  . intro _ w1 h1
    exact h1

-- A program that leaves the rounds alone before it starts the optimizer.
theorem wp_bind_rounds {α : Type} {x : Prog World Exn α} {f : α → Prog World Exn Pc}
    (hx : Keeping World.account x)
    (hf : ∀ a w1, wp (f a) w1 (Starts w1) fun _ w' => w'.rounds = w1.rounds) :
    wp (x >>= f) w (Starts w) fun _ w' => w'.rounds = w.rounds := by
  rw [wp_bind]
  apply wp_mono (keeping_rounds hx w)
  . intro a w1 h1
    apply wp_mono (hf a w1)
    . intro pc w2 h2
      exact h2.of_rounds h1
    . intro _ w2 h2
      rw [h2, h1]
  . intro _ w1 h1
    exact h1

theorem wp_stageOptimizer_rounds :
    wp (stageOptimizer env) w (Starts w) fun _ w' => w'.rounds = w.rounds := by
  unfold stageOptimizer
  apply wp_bind_rounds keeping_setStage
  intro stage w1
  split
  . apply wp_bind_rounds keeping_enterPaused
    intro _ w2
    exact .inl ⟨rfl, by simp⟩
  . exact wp_startOptimizer_rounds

theorem wp_optimizerNode_rounds :
    wp (optimizerNode env) w (Starts w) fun _ w' => w'.rounds = w.rounds := by
  unfold optimizerNode
  apply wp_bind_rounds keeping_checkCancel
  intro _ w1
  apply wp_bind_rounds .get
  intro read w2
  split
  . apply wp_bind_rounds keeping_enterPaused
    intro _ w3
    exact .inl ⟨rfl, by simp⟩
  . exact wp_stageOptimizer_rounds

theorem wp_optimizerUnpark_rounds {staged : Bool} :
    wp (optimizerUnpark env staged) w (Starts w) fun _ w' => w'.rounds = w.rounds := by
  unfold optimizerUnpark
  apply wp_bind_rounds keeping_checkCancel
  intro _ w1
  split
  . apply wp_bind_rounds keeping_setStage
    intro _ w2
    exact wp_startOptimizer_rounds
  . exact wp_stageOptimizer_rounds

end Start

section Wake

variable {T : Type} {model : Json → Option T} {state : RunSnapshot} {evaluation : EvaluationResult}
  {structured : StructuredPc} {answer : Answer ProviderStructuredResult} {frame : NodeFrame}
  {plan : RevisionPlan}

theorem wp_awaitResult_returned {α : Type} {await : Await} {answer : Answer α} :
    wp (awaitResult await answer) w
      (fun value w' => w' = w ∧ await = .waiting ∧ answer = .returned value)
      fun _ w' => w' = w := by
  cases await with
  | settling exn => exact rfl
  | waiting =>
    cases answer with
    | returned value => exact ⟨rfl, rfl, rfl⟩
    | _ => exact rfl

-- A structured call for a plan goes on with a suspension, or with what the answer was read as.
theorem wp_structuredWake_rounds {repair : Json → ProviderCall}
    (hrepair : ∀ value, (repair value).passed? = none) :
    wp (structuredWake env model (planCall state evaluation) repair answer structured) w
      (fun outcome w' =>
        match outcome with
        | .inl next => Offers state w next w' ∨ w'.rounds = w.rounds ∧ ¬Uncalled structured
        | .inr (_, parsed) =>
          w'.rounds = w.rounds ∧ ¬Uncalled structured ∧ Answers model answer parsed)
      fun _ w' => w'.rounds = w.rounds := by
  cases structured with
  | calling attempt await =>
    unfold structuredWake
    rw [wp_bind, wp_tryCatch, wp_bind]
    apply wp_mono wp_awaitResult_returned
    . rintro result w1 ⟨rfl, hawait, hanswer⟩
      have hcalled : ¬Uncalled (.calling attempt await) := by
        rintro ⟨_, _, heq⟩
        rw [hawait] at heq
        cases heq
      rw [wp_pure]
      dsimp only
      cases hparsed : model result.value with
      | some parsed => exact ⟨rfl, hcalled, result, hanswer, hparsed⟩
      | none =>
        dsimp only
        rw [wp_bind]
        have hmade : ∀ made ∈ some (repair result.value), Overlooks World.account made := by
          intro made hmade
          cases hmade
          exact overlooks_account (hrepair _)
        apply wp_mono (keeping_rounds (keeping_beginAwait hmade) w1)
        . intro await' w2 h2
          exact .inr ⟨h2, hcalled⟩
        . intro _ w2 h2
          exact h2
    . rintro exn w1 rfl
      split
      . rw [wp_pure]
        dsimp only
        rw [wp_bind]
        apply wp_mono wp_planCall
        . intro structured w2 h2
          exact .inl h2
        . intro _ _ h2
          contradiction
      . exact rfl
  | repairing result await =>
    unfold structuredWake
    rw [wp_bind]
    apply wp_mono wp_awaitResult_returned
    . rintro repaired w1 ⟨rfl, _, hanswer⟩
      have hcalled : ¬Uncalled (.repairing result await) := by
        rintro ⟨_, _, heq⟩
        cases heq
      cases hparsed : model repaired.value with
      | some parsed => exact ⟨rfl, hcalled, repaired, hanswer, hparsed⟩
      | none => exact rfl
    . rintro exn w1 rfl
      exact rfl

theorem wp_publish_plan {s : RunSnapshot} (hround : s.round
    = { currentIteration := w.snapshot.currentIteration + 1, pendingUserOverride := none }) :
    wp (publish env .none true (some .revisionPlanned) [("revision_plan", .obj plan.dump)])
      (stamped env (w.withSnapshot s))
      (fun envelope w' => Plans plan w (journaled envelope w'))
      fun _ w' => Fails plan w w' := by
  have hstamped := @seen_stamped env _ _ stampless_round (w.withSnapshot s)
  rw [World.seen, World.seen, Prod.mk.injEq, Prod.mk.injEq] at hstamped
  obtain ⟨hsnapshot, hpassed, hplanned⟩ := hstamped
  rw [wp_publish]
  cases heq : envelope? env (stamped env (w.withSnapshot s)) .revisionPlanned
      [("revision_plan", .obj plan.dump)] with
  | none => exact ⟨hpassed, .inl hplanned⟩
  | some e =>
    obtain ⟨_, _, hevent, hpayload, hiteration⟩ := envelope?_fields heq
    have he : Announces plan w e := by
      refine ⟨hevent, hpayload, ?_⟩
      rw [hiteration]
      have hnext := hsnapshot.trans hround
      exact congrArg Round.currentIteration hnext
    have hpublished := seen_published stampless_round e (stamped env (w.withSnapshot s)).tick
    rw [World.seen, World.seen, Prod.mk.injEq, Prod.mk.injEq] at hpublished
    have hjournaled : ∀ w', w'.snapshot.round = s.round → w'.passed = w.passed →
        w'.planned = w.planned → Plans plan w (journaled (some e) w') := by
      intro w' hsnapshot' hpassed' hplanned'
      refine ⟨e, he, ?_⟩
      have hlog : (journaled (some e) w').planned = w'.planned ++ [e] := by
        have hsome : Commit.planned? { snapshot := w'.snapshot, event := some e } = some e := by
          simp [Commit.planned?, Option.filter, hevent]
        unfold World.planned journaled
        rw [List.filterMap_append, List.filterMap_cons_some hsome, List.filterMap_nil]
      unfold World.rounds World.seen
      rw [hlog, hplanned', ← hround, ← hsnapshot', ← hpassed']
      rfl
    have hsnapshot' := hpublished.1.trans hsnapshot
    have hpassed' := hpublished.2.1.trans hpassed
    have hplanned' := hpublished.2.2.trans hplanned
    dsimp only
    split
    . exact ⟨hpassed, .inl hplanned⟩
    . split
      . exact hjournaled _ hsnapshot' hpassed' hplanned'
      . split
        . exact ⟨hpassed', .inl hplanned'⟩
        . exact hjournaled _ hsnapshot' hpassed' hplanned'

theorem Plans.fails {w1 w' : World} (h : Plans plan w w1) (hsame : w'.rounds = w1.rounds) :
    Fails plan w w' := by
  obtain ⟨e, he, hrounds⟩ := h
  rw [← hsame] at hrounds
  have hpassed : w'.passed = w.passed := congrArg (fun r => r.2.1) hrounds
  have hplanned : w'.planned = w.planned ++ [e] := congrArg (fun r => r.2.2) hrounds
  exact ⟨hpassed, .inr ⟨e, he, hplanned⟩⟩

theorem Fails.of_rounds {w1 w' : World} (h1 : w1.rounds = w.rounds) (h : Fails plan w1 w') :
    Fails plan w w' := by
  have hiteration : w1.snapshot.currentIteration = w.snapshot.currentIteration :=
    congrArg (fun r => r.1.currentIteration) h1
  have hpassed : w1.passed = w.passed := congrArg (fun r => r.2.1) h1
  have hplanned : w1.planned = w.planned := congrArg (fun r => r.2.2) h1
  refine ⟨h.1.trans hpassed, ?_⟩
  cases h.2 with
  | inl hsame => exact .inl (hsame.trans hplanned)
  | inr hnext =>
    obtain ⟨e, he, hlog⟩ := hnext
    rw [hplanned] at hlog
    have he' := he.iteration
    rw [hiteration] at he'
    exact .inr ⟨e, ⟨he.event, he.payload, he'⟩, hlog⟩

theorem Fails.of_same {w' : World} (h : w'.rounds = w.rounds) : Fails plan w w' :=
  ⟨congrArg (fun r => r.2.1) h, .inl (congrArg (fun r => r.2.2) h)⟩

theorem Plans.of_rounds {w1 w' : World} (h1 : w1.rounds = w.rounds) (h : Plans plan w1 w') :
    Plans plan w w' := by
  have hiteration : w1.snapshot.currentIteration = w.snapshot.currentIteration :=
    congrArg (fun r => r.1.currentIteration) h1
  have hpassed : w1.passed = w.passed := congrArg (fun r => r.2.1) h1
  have hplanned : w1.planned = w.planned := congrArg (fun r => r.2.2) h1
  obtain ⟨e, he, hrounds⟩ := h
  rw [hiteration, hpassed, hplanned] at hrounds
  have he' := he.iteration
  rw [hiteration] at he'
  exact ⟨e, ⟨he.event, he.payload, he'⟩, hrounds⟩

theorem wp_commitPlan_rounds {result : ProviderStructuredResult} :
    wp (commitPlan env frame result plan) w (fun pc w' => pc = .toGenerator ∧ Plans plan w w')
      fun _ w' => Fails plan w w' := by
  have hrest : ∀ w1, Plans plan w w1 →
      wp
        (do
          let _ ← recordUsage env .optimizer result.usage
          let now ← monotonic env
          let _ ← recordTiming env .optimizer frame.state.currentIteration 1 (now - frame.started)
            true (some result.usage)
          let _ ← setStage env .generating
          return Pc.toGenerator) w1 (fun pc w' => pc = .toGenerator ∧ Plans plan w w')
        fun _ w' => Fails plan w w' := by
    intro w1 hplans
    have hsame : ∀ w2, w2.rounds = w1.rounds → Plans plan w w2 := by
      intro w2 h2
      obtain ⟨e, he, hrounds⟩ := hplans
      exact ⟨e, he, h2.trans hrounds⟩
    rw [wp_bind]
    apply wp_mono ((keeping_recordUsage : Keeping World.rounds _) w1)
    . intro _ w2 h2
      rw [wp_bind]
      apply wp_mono (keeping_rounds keeping_monotonic w2)
      . intro now w3 h3
        rw [wp_bind]
        apply wp_mono ((keeping_recordTiming : Keeping World.rounds _) w3)
        . intro _ w4 h4
          rw [wp_bind]
          apply wp_mono (keeping_rounds keeping_setStage w4)
          . intro _ w5 h5
            rw [wp_pure]
            exact ⟨rfl, hsame w5 (by rw [h5, h4, h3, h2])⟩
          . intro _ w5 h5
            exact hplans.fails (by rw [h5, h4, h3, h2])
        . intro _ w4 h4
          exact hplans.fails (by rw [h4, h3, h2])
      . intro _ w3 h3
        exact hplans.fails (by rw [h3, h2])
    . intro _ w2 h2
      exact hplans.fails h2
  unfold commitPlan
  rw [wp_bind]
  apply wp_mono (keeping_rounds keeping_checkCancel w)
  . intro _ w1 h1
    rw [wp_bind, wp_get, wp_bind, wp_commit]
    unfold finishOptimizer
    rw [wp_ite]
    split
    . exact .of_same h1
    . rw [wp_modify]
      apply wp_mono (wp_publish_plan rfl)
      . intro envelope w2 h2
        exact hrest _ (h2.of_rounds h1)
      . intro _ w2 h2
        exact h2.of_rounds h1
  . intro _ w1 h1
    exact .of_same h1

-- The optimizer goes on with its round, or it has ended it with a plan that the answer was read as.
def Proceeds (env : WorkflowEnv) (frame : NodeFrame) (structured : StructuredPc)
    (answer : Answer ProviderStructuredResult) (w : World) (pc : Pc) (w' : World) : Prop :=
  (∃ next, pc = .optimizing frame next
      ∧ (Offers frame.state w next w' ∨ w'.rounds = w.rounds ∧ ¬Uncalled structured))
    ∨
  pc = .toGenerator ∧ ¬Uncalled structured
    ∧ ∃ plan, Answers env.revisionPlan answer plan ∧ Plans plan w w'

def Stops (env : WorkflowEnv) (answer : Answer ProviderStructuredResult) (w w' : World) : Prop :=
  w'.rounds = w.rounds ∨ ∃ plan, Answers env.revisionPlan answer plan ∧ Fails plan w w'

theorem Stops.of_account {env : WorkflowEnv} {w1 w' : World} (h : Stops env answer w w1)
    (haccount : w'.account = w1.account) : Stops env answer w w' := by
  have hpassed : w'.passed = w1.passed := congrArg (fun account => account.2.1) haccount
  have hplanned : w'.planned = w1.planned := congrArg (fun account => account.2.2) haccount
  have hrounds : w'.rounds = w1.rounds :=
    congrArg (fun account => (account.1.1, account.2)) haccount
  cases h with
  | inl hsame => exact .inl (hrounds.trans hsame)
  | inr hfails =>
    obtain ⟨plan, hanswers, hsame, hlog⟩ := hfails
    refine .inr ⟨plan, hanswers, hpassed.trans hsame, ?_⟩
    rw [hplanned]
    exact hlog

theorem wp_optimizerWake_rounds {env : WorkflowEnv} :
    wp (optimizerWake env frame structured answer) w (Proceeds env frame structured answer w)
      fun _ w' => Stops env answer w w' := by
  unfold optimizerWake
  split
  . exact .inl rfl
  . rw [wp_bind]
    apply wp_mono (wp_structuredWake_rounds fun _ => rfl)
    . intro outcome w1 h1
      cases outcome with
      | inl next => exact .inl ⟨next, rfl, h1⟩
      | inr pair =>
        obtain ⟨result, plan⟩ := pair
        obtain ⟨hsame, hcalled, hanswers⟩ := h1
        dsimp only
        apply wp_mono wp_commitPlan_rounds
        . rintro pc w2 ⟨hpc, hplans⟩
          exact .inr ⟨hpc, hcalled, plan, hanswers, hplans.of_rounds hsame⟩
        . intro _ w2 hfails
          exact .inr ⟨plan, hanswers, hfails.of_rounds hsame⟩
    . intro _ w1 h1
      exact .inl h1

end Wake

section Step

variable {wenv : WorkflowEnv} {c c' : Config} {label : Label}

theorem rounds_of_account {w1 : World} (h : w.account = w1.account) : w.rounds = w1.rounds :=
  congrArg (fun account => (account.1.1, account.2)) h

-- The steps that are part of a round, and the request that goes into one.
def Label.isRound : Label → Bool
  | .resumeRun _ => true
  | .enterOptimizer => true
  | .optimizerUnpark => true
  | .optimizerWake _ => true
  | _ => false

theorem serve_rounds {request : Prog World Exn RunSnapshot} (h : Keeping World.account request) :
    (serve c request).world.rounds = c.world.rounds :=
  rounds_of_account (h.run c.world)

theorem stepTask_rounds {pc : Pc} (hlabel : label.isRound = false)
    (hstep : stepTask wenv w pc label = some c') : c'.world.rounds = w.rounds := by
  have hfinish : ∀ attempt cancelled version content payload, Keeping World.rounds
      (commit wenv.toEnv .none (finishGeneration cancelled version content attempt)
        (some .prdGenerated) payload) :=
    fun _ _ _ _ _ => keeping_rounds account_finishGeneration
  unfold stepTask at hstep
  split at hstep
  . cases hstep
    exact runTask_keeps keeping_begin
  . cases hstep
    exact runTask_keeps (keeping_generatorNode (fun _ _ => overlooks_rounds rfl) hfinish)
  . split at hstep
    . cases hstep
      exact runTask_keeps (keeping_generatorWake (fun _ _ => overlooks_rounds rfl) hfinish)
    . contradiction
  . exact stepReviewer_keeps (fun _ _ => overlooks_rounds rfl) (fun _ _ _ => overlooks_rounds rfl)
      hstep
  . cases hstep
    exact runTask_keeps
      (keeping_rounds (keeping_aggregatorNode fun _ _ _ _ => account_aggregate))
  . split at hstep
    . cases hstep
      exact runTask_keeps keeping_aggregatorWake
    . contradiction
  . cases hstep
    exact runTask_keeps keeping_routeAfterAggregate
  . contradiction
  . contradiction
  . contradiction
  . contradiction

theorem step_rounds (hlabel : label.isRound = false) (hstep : step wenv c label = some c') :
    c'.world.rounds = c.world.rounds := by
  cases label with
  | requestPause =>
    cases hstep
    exact serve_rounds keeping_requestPause
  | cancelRun =>
    cases hstep
    exact serve_rounds keeping_cancelRun
  | resumeRun userOverride => contradiction
  | _ => exact stepTask_rounds hlabel hstep

-- The optimizer starts a round, or is parked, or ends with the run.
theorem step_starts (hlabel : label = .enterOptimizer ∨ label = .optimizerUnpark)
    (hstep : step wenv c label = some c') : Starts c.world c'.pc c'.world := by
  have hrun : ∀ {program : Prog World Exn Pc},
      wp program c.world (Starts c.world) (fun _ w' => w'.rounds = c.world.rounds) →
      Starts c.world (runTask wenv.toEnv program c.world).pc
        (runTask wenv.toEnv program c.world).world := by
    intro program hprogram
    cases runTask_cases World.account hprogram with
    | inl hstarts => exact hstarts
    | inr hfinished =>
      obtain ⟨w1, exn, hsame, haccount, hpc⟩ := hfinished
      refine .inl ⟨(rounds_of_account haccount).trans hsame, ?_⟩
      intro frame structured hpc'
      rw [hpc] at hpc'
      contradiction
  rcases hlabel with rfl | rfl
  . dsimp only [step] at hstep
    cases hpc : c.pc with
    | toOptimizer =>
      rw [hpc] at hstep
      cases hstep
      exact hrun wp_optimizerNode_rounds
    | _ =>
      rw [hpc] at hstep
      contradiction
  . dsimp only [step] at hstep
    cases hpc : c.pc with
    | optimizerParked staged =>
      rw [hpc] at hstep
      dsimp only [stepTask] at hstep
      split at hstep
      . cases hstep
        exact hrun wp_optimizerUnpark_rounds
      . contradiction
    | _ =>
      rw [hpc] at hstep
      contradiction

-- An answer to the optimizer lets its round go on, or ends it.
theorem step_optimizerWake {answer : Answer ProviderStructuredResult}
    (hstep : step wenv c (.optimizerWake answer) = some c') :
    ∃ frame structured, c.pc = .optimizing frame structured
      ∧
    (Proceeds wenv frame structured answer c.world c'.pc c'.world
      ∨ (∃ exn, c'.pc = .finished (some exn)) ∧ Stops wenv answer c.world c'.world) := by
  dsimp only [step] at hstep
  cases hpc : c.pc with
  | optimizing frame structured =>
    rw [hpc] at hstep
    dsimp only [stepTask] at hstep
    split at hstep
    . cases hstep
      refine ⟨frame, structured, rfl, ?_⟩
      cases runTask_cases World.account wp_optimizerWake_rounds with
      | inl hproceeds => exact .inl hproceeds
      | inr hfinished =>
        obtain ⟨w1, exn, hstops, haccount, hpc'⟩ := hfinished
        exact .inr ⟨⟨exn, hpc'⟩, hstops.of_account haccount⟩
    . contradiction
  | _ =>
    rw [hpc] at hstep
    contradiction

end Step

section Enter

variable {wenv : WorkflowEnv} {c c' : Config} {label : Label}

def Pc.isOptimizing : Pc → Bool
  | .optimizing _ _ => true
  | _ => false

def Elsewhere (pc : Pc) : Prop :=
  Pc.isOptimizing pc = false

theorem elsewhere_of_place {pc : Pc} (h : place pc ≠ .optimizing) : Elsewhere pc := by
  cases pc with
  | optimizing => contradiction
  | _ => rfl

theorem stepTask_elsewhere {pc : Pc} (hlabel : label.isRound = false)
    (hstep : stepTask wenv w pc label = some c') : Elsewhere c'.pc := by
  have hplace := stepTask_place hstep
  apply elsewhere_of_place
  intro hoptimizing
  rw [hoptimizing] at hplace
  cases pc with
  | toOptimizer | optimizerParked | optimizing =>
    unfold stepTask at hstep
    cases label <;> contradiction
  | _ => simp [place, Place.next] at hplace

-- The optimizer's call is only entered, and only left, by the steps of a round.
theorem step_elsewhere (hlabel : label.isRound = false) (hstep : step wenv c label = some c') :
    c'.pc = c.pc ∨ Elsewhere c'.pc := by
  cases label with
  | requestPause =>
    cases hstep
    exact .inl rfl
  | cancelRun =>
    cases hstep
    exact .inl rfl
  | resumeRun userOverride => contradiction
  | _ => exact .inr (stepTask_elsewhere hlabel hstep)

theorem step_optimizing {frame : NodeFrame} {structured : StructuredPc}
    (hpc : c.pc = .optimizing frame structured) (hlabel : label.isRound = false)
    (hstep : step wenv c label = some c') : c'.pc = c.pc := by
  cases label with
  | requestPause =>
    cases hstep
    rfl
  | cancelRun =>
    cases hstep
    rfl
  | resumeRun userOverride => contradiction
  | optimizerWake answer => contradiction
  | _ =>
    dsimp only [step] at hstep
    rw [hpc] at hstep
    contradiction

end Enter

end Workflow

end AgenticPrd
