import AgenticPrd.Backend.RunManager.Activity
import AgenticPrd.Backend.Workflow.Reload
import AgenticPrd.Live.Ranking

/-!
The node that a failed run blames. Three reviewers run at once, but the snapshot has a single active
node, and this is the one that is marked as failed, whichever of them has raised.
-/

namespace AgenticPrd

namespace Live

open RunManager Transition SQLiteRunStore

-- The nodes that raise when the workflow raises where it is suspended.
def Raises : Pc → Node → Prop
  | .toGenerator, node => node = .generator
  | .generating _, node => node = .generator
  | .reviewing reviewers, node => ∃ role exn, node = role.node ∧ reviewers role = .raised exn
  | .toAggregator, node => node = .aggregator
  | .aggregatorParked, node => node = .aggregator
  | .toOptimizer, node => node = .optimizer
  | .optimizerParked _, node => node = .optimizer
  | .optimizing _ _, node => node = .optimizer
  | _, _ => False

variable {env : WorkflowEnv} {runId : RunId} {request : CreateRunRequest} {outputLanguage : String}
  {bufferSize : Nat} {c c' final : Workflow.Config} {initial : RunSnapshot}

/--
`failed`: a step of the run from `c` commits the failure, and the run goes on as it may. `interrupted`:
a new process reads a row of a run that had not ended, which may have been saved at any time.
-/
structure FailuresAttributed (env : WorkflowEnv) (initial : RunSnapshot) (c : Workflow.Config) :
    Prop where
  failed :
    ∀ label c' before commit after final,
      Workflow.step env c label = some c' → c'.world.journal = before ++ commit :: after →
        c.world.journal <+: before → (∃ e ∈ commit.event, e.event = .runFailed) →
          Reaches (Workflow.step env) c' final →
            (Attributed (Raises c.pc) (latest initial before) final.world.snapshot
              ↔ Alone (Raises c.pc) (latest initial before))
  interrupted :
    ∀ row ∈ savedRows c.world, row.status.isTerminal = false → ∀ now,
      Attributed (fun node => row.nodeStatuses node = .running) row (loadSnapshot now row)
        ↔ Alone (fun node => row.nodeStatuses node = .running) row

-- From the commit of the failure on the nodes stay as it has left them.
theorem blames_final {before after later : List Commit} {commit : Commit} {new : RunSnapshot}
    (h : History initial (before ++ commit :: after ++ later) new)
    (hfailed : ∃ e ∈ commit.event, e.event = .runFailed) :
    (latest initial before).status.isTerminal = false ∧ Blames (latest initial before) new := by
  rw [List.append_assoc, List.cons_append, List.append_cons, List.append_assoc] at h
  obtain ⟨mid, hbefore, hrest⟩ := h.split
  obtain ⟨s, hcommit, hafter⟩ := hrest.split
  rw [latest_eq hbefore]
  obtain ⟨e, he, hevent⟩ := hfailed
  obtain ⟨changed, payload, sequence, hchange, hstamped⟩ := hcommit.of_singleton
  rw [Option.mem_def.mp he, Option.map_some, hevent] at hchange
  cases hchange with
  | moved _ htransit => cases htransit
  | @failed now code message retryable _ hopen =>
    have hterminal : s.status.isTerminal = true := by
      rw [hstamped.status]
      rfl
    have hblames := blames_failSnapshot code message retryable now mid
    exact ⟨hopen, (hblames.congr ⟨hstamped.nodeStatuses, hstamped.activeNode⟩).congr
      (hafter.nodes_closed hterminal)⟩

theorem failures_attributed
    (h : Workflow.Reachable env runId request outputLanguage bufferSize c) :
    FailuresAttributed env
      (Workflow.init env.toEnv runId request outputLanguage bufferSize).world.snapshot c := by
  have hposted : Posted (Workflow.init env.toEnv runId request outputLanguage bufferSize).world.snapshot :=
    posted_create _ _ _ _ _
  constructor
  . intro label c' before commit after final hstep hjournal _ hfailed hrun
    have hfailing : Workflow.Reachable env runId request outputLanguage bufferSize c' :=
      .tail h trivial hstep
    have hfinal : Workflow.Reachable env runId request outputLanguage bufferSize final :=
      hfailing.trans hrun
    obtain ⟨later, hlater⟩ := (Workflow.Keeps.steps hfailing.inv hrun).sound.grown
    have hhistory := hfinal.history
    rw [← hlater, hjournal] at hhistory
    obtain ⟨hopen, hblames⟩ := blames_final hhistory hfailed
    obtain ⟨mid, hbefore, _⟩ := History.split (by rwa [List.append_assoc] at hhistory)
    have hold := hbefore.posted hposted
    rw [← latest_eq hbefore] at hold
    exact hblames.attributed_iff hold hopen _
  . intro row hrow hopen now
    have hblames : Blames row (loadSnapshot now row) := by
      unfold loadSnapshot
      rw [hopen]
      exact blames_interrupted now row
    apply hblames.attributed_iff _ hopen
    rcases h.keeps.sound.rows row hrow with hinitial | ⟨commit, hmem, rfl⟩
    . have hcreated : row
          = (Workflow.init env.toEnv runId request outputLanguage bufferSize).world.snapshot := by
        simpa [savedRows, Workflow.init, create] using hinitial
      rw [hcreated]
      exact hposted
    . obtain ⟨_, _, _, hbefore, _⟩ := h.history.through hmem
      exact hbefore.posted hposted

-- The reviewers start one after the other, and the first one raises while the others are running.
def raisedReview : List Workflow.Label :=
  [.begin] ++ Workflow.answeredVersion.take 6 ++ [.reviewerWake .tech (.raised .otherError)]

theorem failures_attributed_review :
    ∃ c,
      exec (Workflow.step Workflow.answeringWorkflow) Workflow.answeringInit raisedReview = some c
        ∧ FailuresAttributed Workflow.answeringWorkflow Workflow.answeringInit.world.snapshot c := by
  have hany :
      (exec (Workflow.step Workflow.answeringWorkflow) Workflow.answeringInit
        raisedReview).isSome = true := by decide +kernel
  obtain ⟨c, hexec⟩ := Option.isSome_iff_exists.mp hany
  have hreach : Workflow.Reachable Workflow.answeringWorkflow "run" mockRequest "English" 1000 c :=
    .of_exec hexec
  exact ⟨c, hexec, failures_attributed hreach⟩

-- The reviewer that has started last is marked as failed, and the other two are left running.
theorem not_attributed_review :
    ∃ c c',
      exec (Workflow.step Workflow.answeringWorkflow) Workflow.answeringInit raisedReview = some c
        ∧ Workflow.step Workflow.answeringWorkflow c (.reviewersFail .tech) = some c'
        ∧ c'.world.snapshot.nodeStatuses .bizReviewer = .failed
        ∧ ¬Attributed (Raises c.pc) c.world.snapshot c'.world.snapshot := by
  have hstatuses :
      ((exec (Workflow.step Workflow.answeringWorkflow) Workflow.answeringInit raisedReview).bind
        fun c =>
          (Workflow.step Workflow.answeringWorkflow c (.reviewersFail .tech)).map fun c' =>
            (c'.world.snapshot.nodeStatuses .techReviewer,
              c'.world.snapshot.nodeStatuses .bizReviewer)) = some (.running, .failed) := by
    decide +kernel
  obtain ⟨c, hexec, hrest⟩ := Option.bind_eq_some_iff.mp hstatuses
  obtain ⟨c', hstep, hc'⟩ := Option.map_eq_some_iff.mp hrest
  obtain ⟨htech, hbiz⟩ := Prod.mk.inj hc'
  refine ⟨c, c', hexec, hstep, hbiz, ?_⟩
  intro hattributed
  exact hattributed.settled .techReviewer htech

end Live

end AgenticPrd
