import AgenticPrd.Backend.Workflow.Run

/-!
What the invariant says about every run: the status only moves along the edges of the state machine,
and the loop over the versions is closed by the quality gate alone.
-/

namespace AgenticPrd

namespace Workflow

open RunManager Prog Transition

variable {env : WorkflowEnv} {runId : RunId} {request : CreateRunRequest} {outputLanguage : String}
  {bufferSize : Nat} {c c' : Config}

section Status

theorem isChain_getLastD {l t : List RunStatus} {a : RunStatus}
    (h : (a :: (l ++ t)).IsChain Legal) : (l.getLastD a :: t).IsChain Legal := by
  induction l generalizing a with
  | nil => exact h
  | cons b l ih =>
    rw [List.cons_append, List.isChain_cons_cons] at h
    rw [List.getLastD_cons]
    exact ih h.2

-- Once a chain has reached a terminal status it stays there.
theorem isChain_terminal {t : List RunStatus} {a : RunStatus} (h : (a :: t).IsChain Legal)
    (hterminal : a.isTerminal = true) : ∀ b ∈ t, b = a := by
  induction t with
  | nil => simp
  | cons b t ih =>
    rw [List.isChain_cons_cons] at h
    have hb : b = a := by
      cases h.1 with
      | inl heq => exact heq
      | inr hlegal =>
        rw [RunStatus.not_canTransition_of_isTerminal hterminal] at hlegal
        contradiction
    subst hb
    intro d hd
    rw [List.mem_cons] at hd
    cases hd with
    | inl heq => exact heq
    | inr hmem => exact ih h.2 d hmem

theorem Keeps.statuses (h : Keeps c.world c') : statuses c.world <+: statuses c'.world :=
  h.sound.grown.map _

theorem Keeps.terminal (hc : Inv c) (h : Keeps c.world c')
    (hterminal : c.world.snapshot.status.isTerminal = true) :
    c'.world.snapshot.status = c.world.snapshot.status := by
  obtain ⟨later, hlater⟩ := h.statuses
  have hchain := h.sound.chain
  rw [← hlater] at hchain
  replace hchain := isChain_getLastD hchain
  rw [hc.sound.last] at hchain
  have hlast := h.sound.last
  rw [← hlater] at hlast
  cases later with
  | nil =>
    rw [List.append_nil, hc.sound.last] at hlast
    exact hlast.symm
  | cons b later =>
    rw [← hlast]
    apply isChain_terminal hchain hterminal
    rw [List.getLastD_eq_getLast?, List.getLast?_append_cons, List.getLast?_cons, Option.getD_some,
      ← List.getLastD_eq_getLast?]
    apply List.getLastD_mem_cons

/--
The history of the stored status is a path of the state machine from QUEUED to the current status,
later steps only prolong it, a terminal status is its end, and no exception that ends a task of the
run comes from `require_transition`.
-/
structure LegalStatus (env : WorkflowEnv) (c : Config) : Prop where
  path : (RunStatus.queued :: statuses c.world).IsChain Legal
  current : (statuses c.world).getLastD .queued = c.world.snapshot.status
  stored : c.world.runRow.status = c.world.snapshot.status
  later : ∀ c', Reaches (step env) c c' → statuses c.world <+: statuses c'.world
  terminal :
    c.world.snapshot.status.isTerminal = true →
      ∀ c', Reaches (step env) c c' → c'.world.snapshot.status = c.world.snapshot.status
  finished : ∀ exn, c.pc = .finished (some exn) → ∀ current target, exn ≠ .illegalTransition current target
  reviewer :
    ∀ reviewers role exn, c.pc = .reviewing reviewers → reviewers role = .raised exn →
      ∀ current target, exn ≠ .illegalTransition current target

theorem legal_status (h : Reachable env runId request outputLanguage bufferSize c) :
    LegalStatus env c := by
  have hinv := h.inv
  exact {
    path := hinv.sound.chain
    current := hinv.sound.last
    stored := hinv.sound.row_status
    later := by
      intro c' hrun
      exact (Keeps.steps hinv hrun).statuses
    terminal := by
      intro hterminal c' hrun
      exact (Keeps.steps hinv hrun).terminal hinv hterminal
    finished := by
      intro exn hpc
      have hfinished := hinv.pc
      rw [hpc] at hfinished
      exact hfinished.2.2 exn rfl
    reviewer := by
      intro reviewers role exn hpc hraised
      have hreviewing := hinv.pc
      rw [hpc] at hreviewing
      have hrole := hreviewing.2.2 role
      rw [hraised] at hrole
      exact hrole.1
  }

theorem legal_status_cancelled :
    LegalStatus mockWorkflow (mockRun [.begin, .enterGenerator, .requestPause, .cancelRun]) :=
  legal_status (mockRun_reachable (by rfl))

end Status

section Loop

variable {loop : LoopView} {threshold : ℚ} {version : PRDVersion}

theorem Held.not_approved (h : Held threshold version) : ¬Approved threshold version := by
  rintro ⟨evaluation, hevaluation, hpasses⟩
  obtain ⟨evaluation', hevaluation', hfails⟩ := h
  rw [Option.mem_def] at hevaluation hevaluation'
  rw [hevaluation] at hevaluation'
  cases hevaluation'
  exact hfails hpasses

theorem not_held_of_none (h : version.evaluation = none) : ¬Held threshold version := by
  rintro ⟨evaluation, hevaluation, _⟩
  rw [h] at hevaluation
  contradiction

theorem not_approved_of_none (h : version.evaluation = none) : ¬Approved threshold version := by
  rintro ⟨evaluation, hevaluation, _⟩
  rw [h] at hevaluation
  contradiction

theorem Shape.last_version (h : Shape loop) {last : PRDVersion}
    (hlast : loop.versions.getLast? = some last) : last.version = loop.versions.length := by
  obtain ⟨earlier, hversions⟩ := List.getLast?_eq_some_iff.mp hlast
  have hnumbered := h.numbered
  rw [hversions, List.map_append, List.length_append, List.length_singleton, List.range'_concat]
    at hnumbered
  have hlengths : (earlier.map PRDVersion.version).length = (List.range' 1 earlier.length).length := by
    simp
  have hlastNumber := (List.append_inj hnumbered hlengths).2
  rw [List.map_singleton, List.singleton_inj] at hlastNumber
  rw [hversions, List.length_append, List.length_singleton]
  omega

theorem Stage.Facts.approved_iff {stage : Stage} (h : stage.Facts loop) :
    (∃ last ∈ loop.versions.getLast?, Approved loop.qualityThreshold last) ↔ stage = .approved := by
  constructor
  . rintro ⟨last, hlast, happroved⟩
    have hmem : last ∈ loop.versions := List.mem_of_getLast? hlast
    cases stage with
    | approved => rfl
    | pending => exact absurd happroved (h.2 last hmem).not_approved
    | judged => exact absurd happroved (h.2.2 last hmem).not_approved
    | fresh =>
      obtain ⟨_, last', hlast', hnone⟩ := h
      cases Option.mem_unique hlast hlast'
      exact absurd happroved (not_approved_of_none hnone)
    | exhausted =>
      obtain ⟨_, _, last', hlast', hheld⟩ := h
      cases Option.mem_unique hlast hlast'
      exact absurd happroved hheld.not_approved
  . intro heq
    subst heq
    exact h.2

theorem Stage.Facts.exhausted_iff {stage : Stage} (h : stage.Facts loop) (hshape : Shape loop) :
    (∃ last ∈ loop.versions.getLast?,
        Held loop.qualityThreshold last ∧ last.version = loop.maxIterations)
      ↔
    stage = .exhausted := by
  constructor
  . rintro ⟨last, hlast, hheld, hmax⟩
    have hnumber := hshape.last_version hlast
    have hle := hshape.iteration_le
    cases stage with
    | exhausted => rfl
    | pending =>
      have hiteration := h.1
      omega
    | judged =>
      have hlt := h.2.1
      omega
    | fresh =>
      obtain ⟨_, last', hlast', hnone⟩ := h
      cases Option.mem_unique hlast hlast'
      exact absurd hheld (not_held_of_none hnone)
    | approved =>
      obtain ⟨_, last', hlast', happroved⟩ := h
      cases Option.mem_unique hlast hlast'
      exact absurd happroved hheld.not_approved
  . intro heq
    subst heq
    obtain ⟨_, hlength, last, hlast, hheld⟩ := h
    refine ⟨last, hlast, hheld, ?_⟩
    rw [hshape.last_version hlast]
    exact hlength

-- The loop over the versions, in a configuration of a run.
structure QualityLoop (c : Config) : Prop where
  numbered :
    c.world.snapshot.versions.map PRDVersion.version
      = List.range' 1 c.world.snapshot.versions.length
  bounded : c.world.snapshot.versions.length ≤ c.world.snapshot.maxIterations
  iteration :
    c.world.snapshot.currentIteration = c.world.snapshot.versions.length
      ∨ c.world.snapshot.currentIteration = c.world.snapshot.versions.length + 1
  iteration_le : c.world.snapshot.currentIteration ≤ c.world.snapshot.maxIterations
  earlier :
    ∀ version ∈ c.world.snapshot.versions.dropLast,
      Held c.world.snapshot.qualityThreshold version
  completed :
    c.world.snapshot.status = .completed
      ↔
    ∃ last ∈ c.world.snapshot.versions.getLast?,
      Approved c.world.snapshot.qualityThreshold last
  exhausted :
    c.world.snapshot.status = .maxIterationsReached
      ↔
    ∃ last ∈ c.world.snapshot.versions.getLast?,
      Held c.world.snapshot.qualityThreshold last
        ∧ last.version = c.world.snapshot.maxIterations
  evaluated :
    c.pc = .toAggregator →
      ∃ tech ux biz,
        c.world.snapshot.reviews .tech = some tech
          ∧ c.world.snapshot.reviews .ux = some ux
          ∧ c.world.snapshot.reviews .biz = some biz
          ∧ ∃ evaluation,
            EvaluationResult.validate? tech ux biz (averageScore tech ux biz)
              (tech.feedback ++ ux.feedback ++ biz.feedback) = some evaluation
  streams : ∀ version, c.world.calls.countP (ProviderCall.isStreamOf version) ≤ 2

theorem PcInv.stage {v : View} {pc : Pc} (h : PcInv v pc) : ∃ stage, At v stage := by
  cases pc with
  | created => exact ⟨_, h.1⟩
  | toGenerator => exact ⟨_, h.1⟩
  | generating frame => exact ⟨_, h.1.stage⟩
  | reviewing reviewers => exact ⟨_, h.1⟩
  | toAggregator => exact ⟨_, h.1⟩
  | aggregatorParked => exact ⟨_, h.1⟩
  | routing => rcases h with h | h | h <;> exact ⟨_, h.1⟩
  | toOptimizer => exact ⟨_, h.1⟩
  | optimizerParked staged => exact ⟨_, h.1⟩
  | optimizing frame structured => exact ⟨_, h.1⟩
  | finished exn => exact h.1

theorem quality_loop (h : Reachable env runId request outputLanguage bufferSize c) :
    QualityLoop c := by
  have hinv := h.inv
  obtain ⟨stage, hat⟩ := hinv.pc.stage
  exact {
    numbered := hat.shape.numbered
    bounded := hat.shape.bounded
    iteration := hat.shape.iteration
    iteration_le := hat.shape.iteration_le
    earlier := hat.shape.earlier
    completed := by
      have hcompleted := hat.completed
      rw [← hat.facts.approved_iff] at hcompleted
      exact hcompleted
    exhausted := by
      have hexhausted := hat.exhausted
      rw [← hat.facts.exhausted_iff hat.shape] at hexhausted
      exact hexhausted
    evaluated := by
      intro hpc
      have hreviews := hinv.pc
      rw [hpc] at hreviews
      obtain ⟨tech, htech, htechRole⟩ := hreviews.2.2 .tech
      obtain ⟨ux, hux, huxRole⟩ := hreviews.2.2 .ux
      obtain ⟨biz, hbiz, hbizRole⟩ := hreviews.2.2 .biz
      obtain ⟨evaluation, hsome, _⟩ := EvaluationResult.validate?_average htechRole huxRole hbizRole
        (tech.feedback ++ ux.feedback ++ biz.feedback)
      exact ⟨tech, ux, biz, htech, hux, hbiz, evaluation, hsome⟩
    streams := hat.shape.streams
  }

-- The first version of a run, streamed as one event.
def mockGeneration : List Label :=
  [
    .begin,
    .enterGenerator,
    .generatorWake (.returned (some {
      delta := "# PRD <!-- PRD_COMPLETE -->"
      usage := some .empty
      finishReason := some "stop"
    })),
    .generatorWake (.returned none)
  ]

theorem quality_loop_generated : QualityLoop (mockRun mockGeneration) :=
  quality_loop (mockRun_reachable (by decide +kernel))

example : (mockRun mockGeneration).world.snapshot.versions.map PRDVersion.content = ["# PRD"] := by
  decide +kernel

end Loop

end Workflow

end AgenticPrd
