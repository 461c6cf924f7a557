import AgenticPrd.Backend.RunManager.Plans
import AgenticPrd.Backend.Workflow.Rounds

/-!
Where the plans of a run come from. A plan names an iteration, and nothing but the provider decides
which: the run goes on to the next iteration whatever the plan says.
-/

namespace AgenticPrd

namespace Workflow

open RunManager Prog Transition

-- The cancel check that a node makes between its call and its commit passes.
def Continues (env : Env) (w : World) : Bool :=
  ((checkCancel env).run w).1.isOk

-- A plan that the optimizer is about to commit names the iteration of its round.
def Numbers (env : WorkflowEnv) (c : Config) : Label → Prop
  | .optimizerWake (.returned result) =>
    Continues env.toEnv c.world = true →
      ∀ plan ∈ env.revisionPlan result.value, plan.iteration = c.world.snapshot.currentIteration
  | _ => True

instance (env : WorkflowEnv) (c : Config) (label : Label) : Decidable (Numbers env c label) := by
  unfold Numbers
  split <;> infer_instance

section Blocked

variable {env : Env} {w : World} {frame : NodeFrame} {answer : Answer ProviderStructuredResult}
  {structured : StructuredPc} {result : ProviderStructuredResult} {plan : RevisionPlan}

theorem wp_commitPlan_blocked (h : Continues env w = false) :
    wp (commitPlan env frame result plan) w (fun _ _ => False) fun _ w' => w'.rounds = w.rounds := by
  have hcheck : wp (checkCancel env) w (fun _ _ => False) fun _ _ => True := by
    unfold Continues at h
    unfold wp
    split
    . next heq =>
      rw [heq] at h
      contradiction
    . trivial
  unfold commitPlan
  rw [wp_bind]
  apply wp_mono (wp_and hcheck (keeping_rounds keeping_checkCancel w))
  . intro _ w1 h1
    exact h1.1.elim
  . intro _ w1 h1
    exact h1.2

-- A structured call that returns has done nothing but to wait.
theorem wp_structuredWake_returned {T : Type} {model : Json → Option T} {call : ProviderCall}
    {repair : Json → ProviderCall} :
    wp (structuredWake env model call repair answer structured) w
      (fun outcome w' => ∀ pair, outcome = .inr pair → w' = w) fun _ _ => True := by
  cases structured with
  | calling attempt await =>
    unfold structuredWake
    rw [wp_bind, wp_tryCatch, wp_bind]
    apply wp_mono wp_awaitResult_returned
    . rintro result w1 ⟨rfl, _, _⟩
      rw [wp_pure]
      dsimp only
      split
      . rintro _ _
        rfl
      . rw [wp_bind]
        apply wp_mono (wp_trivial _)
        . rintro await' w2 _ _ ⟨⟩
        . exact fun _ _ _ => trivial
    . rintro exn w1 rfl
      split
      . rw [wp_pure]
        dsimp only
        rw [wp_bind]
        apply wp_mono (wp_trivial _)
        . rintro structured w2 _ _ ⟨⟩
        . exact fun _ _ _ => trivial
      . trivial
  | repairing result await =>
    unfold structuredWake
    rw [wp_bind]
    apply wp_mono wp_awaitResult_returned
    . rintro repaired w1 ⟨rfl, _, _⟩
      split
      . trivial
      . rintro _ _
        rfl
    . exact fun _ _ _ => trivial

theorem wp_optimizerWake_blocked {env : WorkflowEnv} (h : Continues env.toEnv w = false) :
    wp (optimizerWake env frame structured answer) w (fun _ w' => w'.planned = w.planned)
      fun _ w' => w'.planned = w.planned := by
  unfold optimizerWake
  split
  . rfl
  . next evaluation _ =>
    rw [wp_bind]
    apply wp_mono (wp_and (wp_structuredWake_rounds fun _ => rfl) wp_structuredWake_returned)
    . rintro outcome w1 ⟨h1, hreturned⟩
      cases outcome with
      | inl next =>
        rw [wp_pure]
        rcases h1 with (⟨hsame, _⟩ | hcalled) | ⟨hsame, _⟩
        . exact congrArg (fun rounds => rounds.2.2) hsame
        . exact congrArg (fun rounds => rounds.2.2) hcalled
        . exact congrArg (fun rounds => rounds.2.2) hsame
      | inr pair =>
        have hsame := hreturned pair rfl
        subst hsame
        apply wp_mono (wp_commitPlan_blocked h)
        . exact fun _ _ hfalse => hfalse.elim
        . intro _ w2 h2
          exact congrArg (fun rounds => rounds.2.2) h2
    . rintro _ w1 ⟨h1, _⟩
      exact congrArg (fun rounds => rounds.2.2) h1

end Blocked

section Step

variable {env : WorkflowEnv} {c c' : Config} {label : Label} {plan : RevisionPlan} {e : RunEvent}

theorem Announces.named (h : Announces plan c.world e)
    (hplan : plan.iteration = c.world.snapshot.currentIteration) : Named e := by
  intro _
  refine ⟨plan, h.payload, ?_⟩
  rw [h.iteration, hplan]

theorem step_blocked {answer : Answer ProviderStructuredResult}
    (hcontinues : Continues env.toEnv c.world = false)
    (hstep : step env c (.optimizerWake answer) = some c') : c'.world.planned = c.world.planned := by
  dsimp only [step] at hstep
  cases hpc : c.pc with
  | optimizing frame structured =>
    rw [hpc] at hstep
    dsimp only [stepTask] at hstep
    split at hstep
    . cases hstep
      cases runTask_cases World.account (wp_optimizerWake_blocked hcontinues) with
      | inl hsame => exact hsame
      | inr hfinished =>
        obtain ⟨w1, _, hsame, haccount, _⟩ := hfinished
        have hplanned := congrArg (fun account => account.2.2) haccount
        exact hplanned.trans hsame
    . contradiction
  | _ =>
    rw [hpc] at hstep
    contradiction

-- What a step adds to the plans of the run is a plan that the answer was read as.
theorem step_planned (hstep : step env c label = some c') :
    c'.world.planned = c.world.planned
      ∨
    ∃ answer plan e,
      label = .optimizerWake answer ∧ Continues env.toEnv c.world = true
        ∧ Answers env.revisionPlan answer plan ∧ Announces plan c.world e
        ∧ c'.world.planned = c.world.planned ++ [e] := by
  have hrounds : ∀ {w w' : World}, w'.rounds = w.rounds → w'.planned = w.planned :=
    fun h => congrArg (fun rounds => rounds.2.2) h
  cases hround : label.isRound with
  | false => exact .inl (hrounds (step_rounds hround hstep))
  | true =>
    cases label with
    | resumeRun userOverride =>
      cases hstep
      left
      have hkeeping : Keeping (World.seen RunSnapshot.currentIteration)
          (resumeRun env.toEnv userOverride) := keeping_resumeRun
      exact congrArg (fun seen => seen.2.2) (hkeeping.run c.world)
    | enterOptimizer | optimizerUnpark =>
      left
      rcases step_starts (by simp) hstep with ⟨hsame, _⟩ | ⟨_, hcalled⟩
      . exact hrounds hsame
      . exact congrArg (fun rounds => rounds.2.2) hcalled
    | optimizerWake answer =>
      cases hcontinues : Continues env.toEnv c.world with
      | false => exact .inl (step_blocked hcontinues hstep)
      | true =>
        obtain ⟨frame, structured, _, hproceeds | ⟨_, hstops⟩⟩ := step_optimizerWake hstep
        . rcases hproceeds with ⟨next, _, hwaits⟩ | ⟨_, _, plan, hanswers, e, he, hplans⟩
          . left
            rcases hwaits with (⟨hsame, _⟩ | hcalled) | ⟨hsame, _⟩
            . exact hrounds hsame
            . exact congrArg (fun rounds => rounds.2.2) hcalled
            . exact hrounds hsame
          . right
            refine ⟨answer, plan, e, rfl, rfl, hanswers, he, ?_⟩
            exact congrArg (fun rounds => rounds.2.2) hplans
        . rcases hstops with hsame | ⟨plan, hanswers, _, hlog | ⟨e, he, hlog⟩⟩
          . exact .inl (hrounds hsame)
          . exact .inl hlog
          . exact .inr ⟨answer, plan, e, rfl, rfl, hanswers, he, hlog⟩
    | _ => contradiction

-- Every plan of a run in which every plan that is committed names the iteration of its round.
theorem planned_named {runId : RunId} {request : CreateRunRequest} {outputLanguage : String}
    {bufferSize : Nat}
    (hrun : Steps (step env) (Numbers env) (init env.toEnv runId request outputLanguage bufferSize) c) :
    ∀ e ∈ c.world.planned, Named e := by
  apply hrun.invariant (I := fun c => ∀ e ∈ c.world.planned, Named e)
  . intro e he
    contradiction
  . intro c label c' ih hnumbers hstep
    rcases step_planned hstep with hsame | ⟨answer, plan, e, rfl, hcontinues, hanswers, he, hlog⟩
    . rw [hsame]
      exact ih
    . rw [hlog, List.forall_mem_append]
      refine ⟨ih, ?_⟩
      simp only [List.mem_singleton, forall_eq]
      obtain ⟨result, rfl, hplan⟩ := hanswers
      exact he.named (hnumbers hcontinues plan hplan)

theorem named_of_planned (h : ∀ e ∈ c.world.planned, Named e) :
    ∀ e ∈ events c.world.journal, Named e := by
  intro e he hevent
  apply h e _ hevent
  unfold events at he
  obtain ⟨commit, hmem, hsome⟩ := List.mem_filterMap.mp he
  refine List.mem_filterMap.mpr ⟨commit, hmem, ?_⟩
  unfold Commit.planned?
  rw [hsome, Option.filter_some, if_pos (by simpa using hevent)]

end Step

end Workflow

end AgenticPrd
