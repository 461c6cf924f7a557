import AgenticPrd.Backend.Workflow.Lineage
import AgenticPrd.Live.Restore

/-!
Where a view keeps the revision plans of a run: under the version that the plan says it is made for.
-/

namespace AgenticPrd

namespace Client

-- Only a plan that the view is told of changes the plans that it keeps.
theorem applyEvent_plans_other {view : RunViewState} {event : RunEvent}
    (h : event.event ≠ .revisionPlanned) :
    (applyEvent view event).revisionPlansBySourceVersion = view.revisionPlansBySourceVersion := by
  unfold applyEvent
  dsimp only
  cases hevent : event.event with
  | prdDelta =>
    dsimp only
    cases applyDelta view (numberPayload event.payload "version" event.iteration) event.payload <;>
      rfl
  | statusChanged | pauseRequested | nodeStarted =>
    dsimp only
    split <;> rfl
  | reviewCompleted =>
    dsimp only
    unfold applyReview
    split <;> rfl
  | revisionPlanned => contradiction
  | _ => rfl

end Client

namespace Live

open RunManager Transition
open Client (RunViewState VersionRevisionPlan planSourceVersion)

-- What a view keeps of a plan that is made for the version `source`.
def planEntry (source : Nat) (plan : Json) : ℚ × VersionRevisionPlan :=
  (source, { sourceVersion := source, targetVersion := source + 1, plan })

/--
One entry for each round that has ended: the rounds review the versions from the first one on, and
the entry of a round stands under the version that it reviewed.
-/
structure Lineage (log : List RunEvent) (plans : List (ℚ × VersionRevisionPlan)) : Prop where
  rounds : (planned log).map RunEvent.iteration = List.range' 2 (planned log).length
  entries :
    plans = (planned log).map fun e =>
      planEntry (e.iteration - 1) (Client.Value.field (.obj e.payload) "revision_plan")
  once : (plans.map Prod.fst).Nodup

def plansOf (s : RunSnapshot) : List (ℚ × VersionRevisionPlan) :=
  s.plans.map fun plan => planEntry plan.iteration (.obj plan.dump)

section Entries

variable {s : RunSnapshot} {plan : RevisionPlan} {versions : List PRDVersion} {log : List RunEvent}

theorem planSourceVersion_dump (plan : RevisionPlan) (target : ℚ) :
    planSourceVersion (.obj plan.dump) target = plan.iteration := by
  have hiteration : Client.Value.field (.obj plan.dump) "iteration" = .ofNat plan.iteration := by
    simp [Client.Value.field, RevisionPlan.dump, Record.get?_cons]
  unfold planSourceVersion
  rw [hiteration, positiveInteger?_ofNat plan.iteration_range.1]
  rfl

theorem planned_field (plan : RevisionPlan) :
    Client.Value.field (.obj (planPayload plan)) "revision_plan" = .obj plan.dump := by
  simp [Client.Value.field, planPayload, Record.get?_cons]

theorem keys_plansOf (h : Lined s) :
    (plansOf s).map Prod.fst = (List.range' 1 s.plans.length).map (Nat.cast : Nat → ℚ) := by
  rw [← h.named]
  unfold plansOf planEntry
  rw [List.map_map, List.map_map]
  rfl

theorem plansOf_nodup (h : Lined s) : ((plansOf s).map Prod.fst).Nodup := by
  rw [keys_plansOf h]
  apply List.Nodup.map Nat.cast_injective
  exact List.nodup_range'

theorem committedPlans_eq (h : ∀ version ∈ versions, ∀ plan ∈ version.revisionPlan,
      version.version = plan.iteration + 1) :
    (((versions.map PRDVersion.wire).filter fun version =>
        Client.Value.truthy version.revisionPlan).map fun version =>
      let sourceVersion := planSourceVersion version.revisionPlan version.version
      (sourceVersion, ({
        sourceVersion, targetVersion := version.version, plan := version.revisionPlan
      } : VersionRevisionPlan)))
      =
    (versions.filterMap PRDVersion.revisionPlan).map fun plan =>
      planEntry plan.iteration (.obj plan.dump) := by
  induction versions with
  | nil => rfl
  | cons version versions ih =>
    simp only [List.forall_mem_cons] at h
    rw [List.map_cons, List.filter_cons, List.filterMap_cons]
    cases hplan : version.revisionPlan with
    | none =>
      have hnull : version.wire.revisionPlan = .null := by
        unfold PRDVersion.wire
        rw [hplan]
        rfl
      rw [hnull]
      exact ih h.2
    | some plan =>
      have hobj : version.wire.revisionPlan = .obj plan.dump := by
        unfold PRDVersion.wire
        rw [hplan]
        rfl
      have htarget : version.wire.version = (plan.iteration : ℚ) + 1 := by
        unfold PRDVersion.wire
        rw [h.1 plan hplan]
        exact Nat.cast_succ _
      have htruthy : Client.Value.truthy version.wire.revisionPlan = true := by
        rw [hobj]
        rfl
      rw [if_pos htruthy, List.map_cons, List.map_cons, ih h.2]
      dsimp only
      rw [hobj, planSourceVersion_dump, htarget]
      rfl

theorem revisionPlansFromSnapshot_eq (h : Lined s) :
    Client.revisionPlansFromSnapshot s.wire = plansOf s := by
  unfold Client.revisionPlansFromSnapshot
  have hcommitted := committedPlans_eq h.target
  have hwire : s.wire.versions = s.versions.map PRDVersion.wire := rfl
  dsimp only at hcommitted ⊢
  rw [hwire, hcommitted]
  have hpending :
      (if Client.Value.truthy s.wire.pendingRevisionPlan then
        [(planSourceVersion s.wire.pendingRevisionPlan s.wire.currentIteration,
          ({
            sourceVersion := planSourceVersion s.wire.pendingRevisionPlan s.wire.currentIteration
            targetVersion := planSourceVersion s.wire.pendingRevisionPlan s.wire.currentIteration + 1
            plan := s.wire.pendingRevisionPlan
          } : VersionRevisionPlan))]
      else
        [])
        =
      s.pendingRevisionPlan.toList.map fun plan => planEntry plan.iteration (.obj plan.dump) := by
    unfold RunSnapshot.wire
    cases hplan : s.pendingRevisionPlan with
    | none => rfl
    | some plan =>
      have htruthy : Client.Value.truthy (.ofOption (fun plan : RevisionPlan => .obj plan.dump)
          (some plan)) = true := rfl
      dsimp only
      rw [if_pos htruthy]
      unfold Json.ofOption
      dsimp only
      rw [planSourceVersion_dump]
      rfl
  rw [hpending, ← List.map_append]
  exact Record.update_of_nodup (plansOf_nodup h)

theorem Tells.lineage (h : Tells log s) (hlined : Lined s) : Lineage log (plansOf s) := by
  unfold Tells at h
  have hlength : (planned log).length = s.plans.length := by
    simpa using congrArg List.length h
  constructor
  . have hiterations := congrArg (List.map Prod.fst) h
    rw [List.map_map, List.map_map] at hiterations
    have hnext : s.plans.map (fun plan => plan.iteration + 1)
        = (s.plans.map RevisionPlan.iteration).map (1 + ·) := by
      rw [List.map_map]
      apply List.map_congr_left
      intro plan _
      exact Nat.add_comm _ _
    rw [hlined.named, List.map_add_range'] at hnext
    rw [hlength]
    exact hiterations.trans hnext
  . have hentries := congrArg (List.map fun told : Nat × Payload =>
      planEntry (told.1 - 1) (Client.Value.field (.obj told.2) "revision_plan")) h
    rw [List.map_map, List.map_map] at hentries
    symm
    apply hentries.trans
    unfold plansOf
    apply List.map_congr_left
    intro plan _
    simp only [Function.comp_apply, Nat.add_sub_cancel, planned_field]
  . exact plansOf_nodup hlined

end Entries

section Simulation

variable {isoformat : Timestamp → String} {view : RunViewState} {old s new : RunSnapshot}
  {e : RunEvent} {event : Option RunEventType} {payload : Payload}

-- The view keeps the plans of the snapshot.
structure Keeps (view : RunViewState) (s : RunSnapshot) : Prop where
  lined : Lined s
  coherent : Coherent s
  plans : view.revisionPlansBySourceVersion = plansOf s

theorem Keeps.load (hlined : Lined s) (hcoherent : Coherent s) (view : RunViewState) :
    Keeps (Client.loadSnapshot view s.wire) s :=
  {
    lined := hlined
    coherent := hcoherent
    plans := revisionPlansFromSnapshot_eq hlined
  }

theorem applyPlan_plans {view next : RunViewState} {plan : RevisionPlan}
    (hpayload : e.payload = planPayload plan) (hiteration : e.iteration = plan.iteration + 1) :
    (Client.applyPlan view next (e.wire isoformat)).revisionPlansBySourceVersion
      =
    Record.set view.revisionPlansBySourceVersion plan.iteration
      (planEntry plan.iteration (.obj plan.dump)).2 := by
  have hfield : Client.Value.field (.obj (e.wire isoformat).payload) "revision_plan"
      = .obj plan.dump := by
    unfold RunEvent.wire
    dsimp only
    rw [hpayload]
    exact planned_field plan
  have htruthy : Client.Value.truthy (.obj plan.dump) = true := rfl
  have htarget : (e.wire isoformat).iteration = (plan.iteration : ℚ) + 1 := by
    unfold RunEvent.wire
    dsimp only
    rw [hiteration]
    exact Nat.cast_succ _
  unfold Client.applyPlan
  dsimp only
  rw [hfield, if_pos htruthy, planSourceVersion_dump, htarget, max_self]
  rfl

theorem Keeps.told (h : Keeps view old) (hnamed : Named e)
    (hchange : Change old (some e.event) e.payload s) (hiteration : e.iteration = s.currentIteration) :
    Keeps (Client.applyEvent view (e.wire isoformat)) s := by
  have hlined := h.lined.change h.coherent hchange (hnamed.ofRound h.coherent hchange hiteration)
  refine ⟨hlined, h.coherent.change hchange, ?_⟩
  rcases hchange.plans h.coherent with ⟨hsame, hne⟩ | ⟨plan, hevent, hpayload, hplans, _⟩
  . rw [Client.applyEvent_plans_other (Option.some_inj.not.mp hne), h.plans]
    unfold plansOf
    rw [hsame]
  . rw [Option.some_inj] at hevent
    obtain ⟨plan', hpayload', hplan'⟩ := hnamed hevent
    have heq : planPayload plan = planPayload plan' := hpayload.symm.trans hpayload'
    rw [← planPayload_iteration heq] at hplan'
    have hgrown : plansOf s = plansOf old ++ [planEntry plan.iteration (.obj plan.dump)] := by
      unfold plansOf
      rw [hplans, List.map_append, List.map_singleton]
    have hnew : (plan.iteration : ℚ) ∉ (plansOf old).map Prod.fst := by
      have hnodup := plansOf_nodup hlined
      rw [hgrown, List.map_append, List.nodup_append] at hnodup
      intro hmem
      exact hnodup.2.2 _ hmem _ (List.mem_singleton.mpr rfl) rfl
    have hwire : (e.wire isoformat).event = .revisionPlanned := hevent
    unfold Client.applyEvent
    dsimp only
    rw [hwire]
    dsimp only
    rw [applyPlan_plans hpayload hplan'.symm, h.plans, Record.set_of_new _ hnew, hgrown]
    rfl

theorem Keeps.unseen (h : Keeps view old) (hchange : Change old event payload s)
    (hquiet : event = none ∨ old.status.isTerminal = true) : Keeps view s := by
  have hround : OfRound old event payload := by
    intro hopen hevent
    rcases hquiet with hnone | hterminal
    . rw [hnone] at hevent
      contradiction
    . rw [hopen] at hterminal
      contradiction
  refine ⟨h.lined.change h.coherent hchange hround, h.coherent.change hchange, ?_⟩
  have hsame := hchange.plans_quiet h.coherent hquiet
  rw [h.plans]
  unfold plansOf
  rw [hsame]

theorem Keeps.stamped {sequence : Nat} (h : Keeps view s) (hstamped : Stamped s sequence new) :
    Keeps view new := by
  refine ⟨h.lined.stamped hstamped, h.coherent.stamped hstamped, ?_⟩
  obtain ⟨_, _, _, rfl⟩ := hstamped
  exact h.plans

theorem keeps_simulation (isoformat : Timestamp → String) : Simulation isoformat Named Keeps :=
  {
    told := fun _ hnamed h hchange hiteration => h.told hnamed hchange hiteration
    unseen := fun h hchange hquiet => h.unseen hchange hquiet
    stamped := fun h hstamped => h.stamped hstamped
  }

end Simulation

section Run

variable {env : WorkflowEnv} {runId : RunId} {request : CreateRunRequest} {outputLanguage : String}
  {bufferSize : Nat} {c : Workflow.Config} {journal : List Commit} {snapshot : RunSnapshot}
  {delivered : List RunEvent}

/--
If every plan that the optimizer commits names the iteration of its round, then a view keeps one
entry for each round whose plan it has been told of, whichever stored snapshot it has loaded and
whatever has been delivered to it again.
-/
theorem plan_lineage (isoformat : Timestamp → String)
    (hrun : Steps (Workflow.step env) (Workflow.Numbers env)
      (Workflow.init env.toEnv runId request outputLanguage bufferSize) c)
    (hjournal : journal <+: c.world.journal)
    (hstores : Stores (Workflow.init env.toEnv runId request outputLanguage bufferSize).world.snapshot
      journal snapshot)
    (hdelivered : Redelivers (events journal) snapshot.latestEventSequence delivered)
    (view : RunViewState) :
    Lineage (events journal)
      (Client.receive (Client.loadSnapshot view snapshot.wire)
        (delivered.map (RunEvent.wire isoformat))).revisionPlansBySourceVersion := by
  have hreach : Workflow.Reachable env runId request outputLanguage bufferSize c := hrun.reaches
  have hnamed : ∀ e ∈ events journal, Named e := by
    intro e he
    apply Workflow.named_of_planned (Workflow.planned_named hrun)
    exact (events_mono hjournal).subset he
  have hcoherent := coherent_create env.toEnv runId request outputLanguage (env.utc 0)
  have hlined := lined_create env.toEnv runId request outputLanguage (env.utc 0)
  have hstored : Lined snapshot ∧ Coherent snapshot := by
    obtain ⟨final, hhistory⟩ := Reachable.heard hreach hjournal
    obtain ⟨before, after, rfl, hbefore, _⟩ := hstores.split hhistory
    have hsome : ∀ e ∈ events before, Named e := by
      intro e he
      apply hnamed e
      unfold events at he ⊢
      rw [List.filterMap_append]
      exact List.mem_append_left _ he
    exact ⟨(hbefore.lined hcoherent hlined rfl hsome).1, hbefore.coherent hcoherent⟩
  obtain ⟨final, hhistory, hfollows⟩ :=
    Reachable.restore (keeps_simulation isoformat) hreach hjournal hnamed hstores hdelivered view
      (.load hstored.1 hstored.2 view)
  obtain ⟨hfinal, htells⟩ := hhistory.lined hcoherent hlined rfl hnamed
  rw [hfollows.related.plans]
  exact Tells.lineage htells hfinal

-- A version is generated and reviewed, and the optimizer's answer is a plan for the iteration.
def plannedRound (iteration : Nat) : List Workflow.Label :=
  Workflow.answeredVersion
    ++ [.enterAggregator, .route, .enterOptimizer,
      .optimizerWake (Workflow.answered (.ofNat iteration))]

-- What a view keeps that has followed the run from its start.
def livePlans (c : Workflow.Config) : List (ℚ × VersionRevisionPlan) :=
  (Client.receive
    (Client.loadSnapshot Client.initialRunViewState Workflow.answeringInit.world.snapshot.wire)
    ((events c.world.journal).map (RunEvent.wire fun _ => ""))).revisionPlansBySourceVersion

theorem plan_lineage_two_rounds :
    ∃ c,
      exec (Workflow.step Workflow.answeringWorkflow) Workflow.answeringInit
          ([.begin] ++ plannedRound 1 ++ plannedRound 2) = some c
        ∧ Lineage (events c.world.journal) (livePlans c) := by
  have hany :
      (exec (Workflow.step Workflow.answeringWorkflow) Workflow.answeringInit
        ([.begin] ++ plannedRound 1 ++ plannedRound 2)).isSome = true := by decide +kernel
  have hallowed : Allowed (Workflow.step Workflow.answeringWorkflow)
      (Workflow.Numbers Workflow.answeringWorkflow) Workflow.answeringInit
      ([.begin] ++ plannedRound 1 ++ plannedRound 2) := by decide +kernel
  obtain ⟨c, hexec⟩ := Option.isSome_iff_exists.mp hany
  have hreach : Workflow.Reachable Workflow.answeringWorkflow "run" mockRequest "English" 1000 c :=
    .of_exec hexec
  exact ⟨c, hexec, plan_lineage _ (.of_exec hallowed hexec) List.prefix_rfl (.inl rfl)
    (.whole (Reachable.increasing hreach List.prefix_rfl) _) _⟩

-- The plan of the second round says that it is made for the first version, and takes its place.
theorem not_plan_lineage :
    ¬∀ c, Workflow.Reachable Workflow.answeringWorkflow "run" mockRequest "English" 1000 c →
      Lineage (events c.world.journal) (livePlans c) := by
  intro hclaim
  have hlengths :
      (exec (Workflow.step Workflow.answeringWorkflow) Workflow.answeringInit
        ([.begin] ++ plannedRound 1 ++ plannedRound 1)).map
          (fun c => ((planned (events c.world.journal)).length, (livePlans c).length))
        = some (2, 1) := by decide +kernel
  obtain ⟨c, hexec, hc⟩ := Option.map_eq_some_iff.mp hlengths
  rw [Prod.mk.injEq] at hc
  have hentries := congrArg List.length (hclaim c (.of_exec hexec)).entries
  rw [List.length_map, hc.1, hc.2] at hentries
  contradiction

end Run

end Live

end AgenticPrd
