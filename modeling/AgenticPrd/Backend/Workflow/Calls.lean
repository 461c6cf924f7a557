import AgenticPrd.Backend.Workflow.Safety
import AgenticPrd.Backend.Workflow.Turns

/-!
How often a run calls its provider. The retries of the generator and of the structured calls, and
the repairs, stay within a few calls for each iteration, whatever the provider answers and whatever
is requested in between.
-/

namespace AgenticPrd

-- The calls for the purpose that one iteration may make.
def Purpose.cap : Purpose → Nat
  | generation => 2
  | review _ => 3
  | plan => 3

namespace Workflow

open RunManager Prog Transition

variable {env : WorkflowEnv} {runId : RunId} {request : CreateRunRequest} {outputLanguage : String}
  {bufferSize : Nat} {c c' : Config} {label : Label} {pc : Pc} {purpose : Purpose}

section Iteration

theorem step_request_iteration (hlabel : label.isRequest = true)
    (hstep : step env c label = some c') :
    c'.world.snapshot.currentIteration = c.world.snapshot.currentIteration := by
  cases label with
  | requestPause | cancelRun =>
    have hrounds := step_rounds rfl hstep
    exact congrArg (fun rounds => rounds.1.currentIteration) hrounds
  | resumeRun userOverride =>
    cases hstep
    exact congrArg Prod.fst ((keeping_resumeRun).run c.world)
  | _ => contradiction

/--
The iteration stays until a plan has been committed, which starts the next one. Where the run ends
on the way it is not told.
-/
inductive Iterates (c c' : Config) : Prop where
  | same (hpc : place c.pc = .optimizing → c'.pc ≠ .toGenerator)
    (h : c'.world.snapshot.currentIteration = c.world.snapshot.currentIteration)
  | next (hpc : place c.pc = .optimizing) (hpc' : c'.pc = .toGenerator)
    (h : c'.world.snapshot.currentIteration = c.world.snapshot.currentIteration + 1)
  | ended (h : place c'.pc = .finished)

theorem step_iterates (hlabel : label.isRequest = false) (hstep : step env c label = some c') :
    Iterates c c' := by
  have hrounds : (place c.pc = .optimizing → c'.pc ≠ .toGenerator) →
      c'.world.rounds.1 = c.world.snapshot.round → Iterates c c' := by
    intro hpc h
    exact .same hpc (congrArg Round.currentIteration h)
  cases hround : label.isRound with
  | false =>
    apply hrounds
    . intro hplace
      cases hpc : c.pc with
      | optimizing frame structured =>
        rw [step_optimizing hpc hround hstep, hpc]
        simp
      | _ =>
        rw [hpc] at hplace
        contradiction
    . rw [step_rounds hround hstep]
      rfl
  | true =>
    cases label with
    | enterOptimizer | optimizerUnpark =>
      apply hrounds
      . intro hplace
        have htask := step_stepTask hlabel hstep
        cases hpc : c.pc with
        | optimizing frame structured =>
          rw [hpc] at htask
          contradiction
        | _ =>
          rw [hpc] at hplace
          contradiction
      . cases step_starts (by simp) hstep with
        | inl hsame =>
          rw [hsame.1]
          rfl
        | inr hcalled => rw [hcalled.2]
    | optimizerWake answer =>
      obtain ⟨frame, structured, hpc, hwake⟩ := step_optimizerWake hstep
      rcases hwake with (⟨next, hpc', hoffers⟩ | ⟨hpc', _, plan, _, e, _, hplans⟩) | ⟨⟨exn, hpc'⟩, _⟩
      . apply hrounds
        . intro _
          rw [hpc']
          simp
        . rcases hoffers with (hsame | hcalled) | hsame
          . rw [hsame.1]
            rfl
          . rw [hcalled]
          . rw [hsame.1]
            rfl
      . apply Iterates.next _ hpc'
        . exact congrArg (fun rounds => rounds.1.currentIteration) hplans
        . rw [hpc]
          rfl
      . apply Iterates.ended
        rw [hpc']
        rfl
    | _ => contradiction

-- No step goes back.
theorem Keeps.iteration_le {origin : World} (h : Keeps origin c) :
    origin.snapshot.currentIteration ≤ c.world.snapshot.currentIteration := by
  obtain ⟨later, _, hhistory⟩ := h.sound.history
  apply hhistory.invariant (P := fun s => origin.snapshot.currentIteration ≤ s.currentIteration)
  . exact Nat.le_refl _
  . intro old event payload s hold hchange
    exact Nat.le_trans hold hchange.grown.1
  . rintro s sequence new hs ⟨_, _, _, rfl⟩
    exact hs

end Iteration

section Budget

theorem used_le_cap (htried : pc.Tried)
    (hframe : ∀ frame, pc = .generating frame → frame.attempt ≤ 2) : pc.used purpose ≤ purpose.cap := by
  cases purpose with
  | generation => exact used_le_most hframe .generation
  | review role =>
    cases pc with
    | reviewing reviewers =>
      have hrole := htried role
      change (reviewers role).used ≤ 3
      cases hreviewer : reviewers role with
      | suspended frame structured =>
        rw [hreviewer] at hrole
        exact StructuredPc.Tried.used_le hrole
      | ready => exact Nat.zero_le 3
      | done | raised => exact Nat.le_refl 3
    | created | toGenerator | generating => exact Nat.zero_le 3
    | _ => exact Nat.le_refl 3
  | plan =>
    cases pc with
    | optimizing frame structured => exact StructuredPc.Tried.used_le htried
    | _ => exact Nat.zero_le 3

theorem most_le_cap (htried : pc.Tried)
    (hframe : ∀ frame, pc = .generating frame → frame.attempt ≤ 2) : pc.most purpose ≤ purpose.cap := by
  cases purpose with
  | generation => exact Nat.le_refl 2
  | review role => exact used_le_cap htried hframe
  | plan => exact used_le_cap htried hframe

/--
The calls that have been made for each purpose: those of the earlier iterations, and what the
current one may have made where the task stands. No plan is called for in the last iteration.
-/
structure Budgeted (c : Config) : Prop where
  tried : c.pc.Tried
  spent :
    place c.pc ≠ .finished →
      ∀ purpose, c.world.made purpose
        ≤ purpose.cap * (c.world.snapshot.currentIteration - 1) + c.pc.used purpose
  within : ∀ purpose, c.world.made purpose ≤ purpose.cap * c.world.snapshot.currentIteration
  plans : c.world.made .plan ≤ 3 * (c.world.snapshot.maxIterations - 1)

theorem Inv.frame_le (h : Inv c) (frame : GeneratorFrame) (hpc : c.pc = .generating frame) :
    frame.attempt ≤ 2 :=
  (h.attempt hpc).2

theorem Inv.iteration_pos (h : Inv c) : 1 ≤ c.world.snapshot.currentIteration :=
  h.sound.iteration.1

theorem Inv.iteration_le_max (h : Inv c) :
    c.world.snapshot.currentIteration ≤ c.world.snapshot.maxIterations := by
  obtain ⟨stage, hat⟩ := h.pc.stage
  exact hat.shape.iteration_le

-- Where a plan is called for, an iteration is left.
theorem Inv.iteration_lt_max (h : Inv c) (hpc : place c.pc = .optimizing) :
    c.world.snapshot.currentIteration < c.world.snapshot.maxIterations := by
  have hinv := h.pc
  cases hcase : c.pc with
  | optimizing frame structured =>
    rw [hcase] at hinv
    obtain ⟨hiteration, hless, _⟩ := hinv.1.facts
    change c.world.snapshot.currentIteration = _ at hiteration
    rw [hiteration]
    exact hless
  | _ =>
    rw [hcase] at hpc
    contradiction

theorem used_plan (hpc : place pc ≠ .optimizing) : pc.used .plan = 0 := by
  cases pc with
  | optimizing => exact absurd rfl hpc
  | _ => rfl

-- The bounds follow from what the iterations have spent.
theorem Budgeted.of_spent (hinv : Inv c) (htried : c.pc.Tried)
    (hspent : ∀ purpose, c.world.made purpose
      ≤ purpose.cap * (c.world.snapshot.currentIteration - 1) + c.pc.used purpose) : Budgeted c := by
  have hpos := hinv.iteration_pos
  have hmax := hinv.iteration_le_max
  refine ⟨htried, fun _ => hspent, ?_, ?_⟩
  . intro purpose
    have hcap : c.pc.used purpose ≤ purpose.cap := used_le_cap htried hinv.frame_le
    calc
      c.world.made purpose
        ≤ purpose.cap * (c.world.snapshot.currentIteration - 1) + purpose.cap :=
        Nat.le_trans (hspent purpose) (Nat.add_le_add_left hcap _)
      _ = purpose.cap * c.world.snapshot.currentIteration := by
        rw [← Nat.mul_succ, Nat.succ_eq_add_one, Nat.sub_add_cancel hpos]
  . have hplan := hspent .plan
    have hcap : c.pc.used .plan ≤ 3 := used_le_cap htried hinv.frame_le
    have hthree : Purpose.plan.cap = 3 := rfl
    rw [hthree] at hplan
    by_cases hpc : place c.pc = .optimizing
    . have hless := hinv.iteration_lt_max hpc
      omega
    . rw [used_plan hpc] at hplan
      omega

-- A step that leaves all calls and iterations alone.
theorem Budgeted.congr (h : Budgeted c) (htried : c'.pc.Tried) (hplace : place c'.pc = place c.pc)
    (hused : ∀ purpose, c'.pc.used purpose = c.pc.used purpose)
    (hmade : c'.world.made = c.world.made)
    (hiteration : c'.world.snapshot.currentIteration = c.world.snapshot.currentIteration)
    (hmax : c'.world.snapshot.maxIterations = c.world.snapshot.maxIterations) : Budgeted c' := by
  refine ⟨htried, ?_, ?_, ?_⟩
  . intro hunfinished purpose
    rw [hplace] at hunfinished
    rw [hmade, hiteration, hused]
    exact h.spent hunfinished purpose
  . intro purpose
    rw [hmade, hiteration]
    exact h.within purpose
  . rw [hmade, hmax]
    exact h.plans

theorem Keeps.maxIterations {origin : World} (h : Keeps origin c) :
    c.world.snapshot.maxIterations = origin.snapshot.maxIterations := by
  obtain ⟨later, _, hhistory⟩ := h.sound.history
  exact hhistory.sameRequest.maxIterations

-- The run has ended within the calls of its last iteration.
theorem Budgeted.finish (h : Budgeted c) (hinv : Inv c) (hkeeps : Keeps c.world c')
    (hmade : ∀ purpose, c'.world.made purpose
      ≤ purpose.cap * (c.world.snapshot.currentIteration - 1) + purpose.cap)
    (hplan : c'.world.made .plan ≤ c.world.made .plan) (hpc' : place c'.pc = .finished) :
    Budgeted c' := by
  have hpos := hinv.iteration_pos
  have hgrown := hkeeps.iteration_le
  have htried' : c'.pc.Tried := by
    cases hpc : c'.pc with
    | finished => trivial
    | _ =>
      rw [hpc] at hpc'
      contradiction
  refine ⟨htried', fun hnot => absurd hpc' hnot, ?_, ?_⟩
  . intro purpose
    calc
      c'.world.made purpose
        ≤ purpose.cap * (c.world.snapshot.currentIteration - 1) + purpose.cap := hmade purpose
      _ = purpose.cap * c.world.snapshot.currentIteration := by
        rw [← Nat.mul_succ, Nat.succ_eq_add_one, Nat.sub_add_cancel hpos]
      _ ≤ purpose.cap * c'.world.snapshot.currentIteration := Nat.mul_le_mul_left _ hgrown
  . rw [hkeeps.maxIterations]
    exact Nat.le_trans hplan h.plans

theorem Budgeted.turns (h : Budgeted c) (hunfinished : place c.pc ≠ .finished) (hinv : Inv c)
    (hkeeps : Keeps c.world c') (hiterates : Iterates c c')
    (hturns : Turns c.pc c.world c'.pc c'.world) : Budgeted c' := by
  have hmade : ∀ purpose, c'.world.made purpose
      ≤ purpose.cap * (c.world.snapshot.currentIteration - 1) + c'.pc.used purpose := by
    intro purpose
    have hspent := h.spent hunfinished purpose
    have hturn := hturns.made purpose
    omega
  cases hiterates with
  | same _ hsame =>
    apply Budgeted.of_spent hkeeps.inv hturns.tried
    rw [hsame]
    exact hmade
  | next hpc hpc' _ =>
    have hmoves := hturns.moves
    rw [hpc'] at hmoves
    cases hcase : c.pc with
    | optimizing frame structured =>
      rw [hcase] at hmoves
      change 25 < 4 - structured.used at hmoves
      omega
    | _ =>
      rw [hcase] at hpc
      contradiction
  | ended hpc' =>
    apply h.finish hinv hkeeps _ _ hpc'
    . intro purpose
      apply Nat.le_trans (hmade purpose)
      apply Nat.add_le_add_left
      apply used_le_cap hturns.tried
      intro frame hframe
      rw [hframe] at hpc'
      contradiction
    . have hnone : c'.pc.used .plan = 0 := by
        apply used_plan
        rw [hpc']
        decide
      have hturn := hturns.made .plan
      omega

theorem Budgeted.halts (h : Budgeted c) (hunfinished : place c.pc ≠ .finished) (hinv : Inv c)
    (hkeeps : Keeps c.world c') (hhalts : Halts c.pc c.world c'.world)
    (hpc' : place c'.pc = .finished) : Budgeted c' := by
  apply h.finish hinv hkeeps _ _ hpc'
  . intro purpose
    have hspent := h.spent hunfinished purpose
    have hhalt := hhalts purpose
    have hcap : c.pc.most purpose ≤ purpose.cap := most_le_cap h.tried hinv.frame_le
    omega
  . have hhalt : c'.world.made .plan + c.pc.used .plan ≤ c.world.made .plan + c.pc.used .plan :=
      hhalts .plan
    omega

-- The plan starts the next iteration, which has made no call yet.
theorem Budgeted.planned (h : Budgeted c) (hpc : place c.pc = .optimizing) (hinv : Inv c)
    (hkeeps : Keeps c.world c') (hiterates : Iterates c c') (hpc' : c'.pc = .toGenerator)
    (hmade : c'.world.made = c.world.made) : Budgeted c' := by
  have hpos := hinv.iteration_pos
  cases hiterates with
  | same hnot => exact absurd hpc' (hnot hpc)
  | next _ _ hnext =>
    apply Budgeted.of_spent hkeeps.inv
    . rw [hpc']
      trivial
    . intro purpose
      rw [hmade, hnext, Nat.add_sub_cancel]
      exact Nat.le_trans (h.within purpose) (Nat.le_add_right _ _)
  | ended hended =>
    rw [hpc'] at hended
    contradiction

theorem Budgeted.step (h : Budgeted c) (hinv : Inv c) (hstep : step env c label = some c') :
    Budgeted c' := by
  have hkeeps := Keeps.step hinv hstep
  have hinv' := hkeeps.inv
  cases hlabel : label.isRequest with
  | true =>
    have hpc := step_request hlabel hstep
    apply h.congr
    . rw [hpc]
      exact h.tried
    . rw [hpc]
    . intro purpose
      rw [hpc]
    . apply step_request_keeps hlabel _ hstep
      intro _ _
      exact keeping_commit_made
    . exact step_request_iteration hlabel hstep
    . exact hkeeps.maxIterations
  | false =>
    have hunfinished : place c.pc ≠ .finished := by
      intro hfinished
      have hplace := stepTask_place (step_stepTask hlabel hstep)
      rw [hfinished] at hplace
      simp [Place.next] at hplace
    have hiterates := step_iterates hlabel hstep
    cases step_turning hinv h.tried hlabel hstep with
    | turns hturns => exact h.turns hunfinished hinv hkeeps hiterates hturns
    | halts hpc' hhalts =>
      apply h.halts hunfinished hinv hkeeps hhalts
      rw [hpc']
      rfl
    | planned hpc hpc' hmade =>
      apply h.planned _ hinv hkeeps hiterates hpc' hmade
      rw [hpc]
      rfl
    | absorbs hpc _ habsorbs =>
      obtain ⟨event, frame', _, hpc', hattempt, hmade⟩ := habsorbs
      apply h.congr _ _ _ hmade _ hkeeps.maxIterations
      . rw [hpc']
        trivial
      . rw [hpc', hpc]
        rfl
      . intro purpose
        rw [hpc', hpc]
        cases purpose with
        | generation => exact hattempt
        | review | plan => rfl
      . cases hiterates with
        | same _ hsame => exact hsame
        | next hplace _ _ =>
          rw [hpc] at hplace
          contradiction
        | ended hended =>
          rw [hpc'] at hended
          contradiction

theorem budgeted_init : Budgeted (init env.toEnv runId request outputLanguage bufferSize) := by
  apply Budgeted.of_spent Inv.init trivial
  intro purpose
  exact Nat.zero_le _

theorem Reachable.budgeted (h : Reachable env runId request outputLanguage bufferSize c) :
    Budgeted c := by
  have hboth : Inv c ∧ Budgeted c := by
    apply Steps.invariant (I := fun c => Inv c ∧ Budgeted c) h ⟨Inv.init, budgeted_init⟩
    intro b label b' hb _ hstep
    exact ⟨(Keeps.step hb.1 hstep).inv, hb.2.step hb.1 hstep⟩
  exact hboth.2

end Budget

section Run

-- Every call is made for one of the purposes.
theorem length_calls (calls : List ProviderCall) :
    calls.length
      =
    calls.countP (fun call => call.purpose = .generation)
      + calls.countP (fun call => call.purpose = .review .tech)
      + calls.countP (fun call => call.purpose = .review .ux)
      + calls.countP (fun call => call.purpose = .review .biz)
      + calls.countP (fun call => call.purpose = .plan) := by
  induction calls with
  | nil => rfl
  | cons call calls ih =>
    rw [List.length_cons, ih]
    simp only [List.countP_cons]
    cases call.purpose with
    | generation | plan =>
      simp
      omega
    | review role =>
      cases role <;> simp <;> omega

/--
What a run may call its provider for: two generations for each version, three calls of each reviewer
for it, three calls for each plan, of which the last version has none.
-/
structure CallsBounded (maxIterations : Nat) (w : World) : Prop where
  current : ∀ purpose, w.made purpose ≤ purpose.cap * w.snapshot.currentIteration
  generations : w.made .generation ≤ 2 * maxIterations
  reviews : ∀ role, w.made (.review role) ≤ 3 * maxIterations
  plans : w.made .plan ≤ 3 * (maxIterations - 1)
  total : w.calls.length ≤ 14 * maxIterations - 3

theorem calls_bounded (h : Reachable env runId request outputLanguage bufferSize c) :
    CallsBounded request.maxIterations c.world := by
  have hbudgeted := h.budgeted
  have hmax : c.world.snapshot.maxIterations = request.maxIterations := h.keeps.maxIterations
  have hiteration := h.inv.iteration_le_max
  have hpos := request.iterations_range.1
  rw [hmax] at hiteration
  have hwithin : ∀ purpose, c.world.made purpose ≤ purpose.cap * request.maxIterations := by
    intro purpose
    exact Nat.le_trans (hbudgeted.within purpose) (Nat.mul_le_mul_left _ hiteration)
  have hgenerations : c.world.made .generation ≤ 2 * request.maxIterations := hwithin .generation
  have hreviews : ∀ role, c.world.made (.review role) ≤ 3 * request.maxIterations := by
    intro role
    exact hwithin (.review role)
  have hplans : c.world.made .plan ≤ 3 * (request.maxIterations - 1) := by
    rw [← hmax]
    exact hbudgeted.plans
  refine ⟨hbudgeted.within, hgenerations, hreviews, hplans, ?_⟩
  have htotal : c.world.calls.length = c.world.made .generation + c.world.made (.review .tech)
      + c.world.made (.review .ux) + c.world.made (.review .biz) + c.world.made .plan :=
    length_calls c.world.calls
  have htech := hreviews .tech
  have hux := hreviews .ux
  have hbiz := hreviews .biz
  omega

-- Both attempts of the generator, and every call that a reviewer has: it is tried again after a
-- timeout, and its answer has to be repaired.
def retried : List Label :=
  [
    .begin,
    .enterGenerator,
    .generatorWake .timedOut,
    .generatorWake (.returned (some {
      delta := "# PRD\n<!-- PRD_COMPLETE -->\n"
      usage := some .empty
      finishReason := some "stop"
    })),
    .generatorWake (.returned none),
    .reviewerEnter .tech,
    .reviewerWake .tech .timedOut,
    .reviewerWake .tech (answered .null),
    .reviewerWake .tech (answered (.str "tech"))
  ]

theorem calls_bounded_retried :
    ∃ c,
      exec (step answeringWorkflow) answeringInit retried = some c
        ∧ c.world.made .generation = 2
        ∧ c.world.made (.review .tech) = 3
        ∧ CallsBounded 3 c.world := by
  have hsome :
      (exec (step answeringWorkflow) answeringInit retried).any
        (fun c => c.world.made .generation = 2 ∧ c.world.made (.review .tech) = 3) = true := by
    decide +kernel
  obtain ⟨c, hexec, hmade⟩ := (Option.any_eq_true _ _).mp hsome
  have hmade' : c.world.made .generation = 2 ∧ c.world.made (.review .tech) = 3 := by
    simpa using hmade
  have hreachable : Reachable answeringWorkflow "run" mockRequest "English" 1000 c :=
    Reaches.of_exec hexec
  exact ⟨c, hexec, hmade'.1, hmade'.2, calls_bounded hreachable⟩

end Run

end Workflow

end AgenticPrd
