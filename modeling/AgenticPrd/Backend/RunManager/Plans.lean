import AgenticPrd.Backend.RunManager.Change

/-!
The revision plans of a history. If every plan names the iteration of its round, the plans are
numbered in the order in which they were made, and the versions carry them in that order.
-/

namespace AgenticPrd

def RunSnapshot.plans (s : RunSnapshot) : List RevisionPlan :=
  s.versions.filterMap PRDVersion.revisionPlan ++ s.pendingRevisionPlan.toList

namespace RunManager

def planPayload (plan : RevisionPlan) : Payload :=
  [("revision_plan", .obj plan.dump)]

-- A plan that the event tells of names the iteration before that of the event.
def Named (e : RunEvent) : Prop :=
  e.event = .revisionPlanned →
    ∃ plan, e.payload = planPayload plan ∧ plan.iteration + 1 = e.iteration

def planned (log : List RunEvent) : List RunEvent :=
  log.filter fun e => e.event = .revisionPlanned

structure Lined (s : RunSnapshot) : Prop where
  named : s.plans.map RevisionPlan.iteration = List.range' 1 s.plans.length
  count : s.currentIteration = s.plans.length + 1
  target : ∀ version ∈ s.versions, ∀ plan ∈ version.revisionPlan, version.version = plan.iteration + 1

-- The events tell of the plans of the snapshot.
def Tells (log : List RunEvent) (s : RunSnapshot) : Prop :=
  (planned log).map (fun e => (e.iteration, e.payload))
    =
  s.plans.map fun plan => (plan.iteration + 1, planPayload plan)

variable {old s new start : RunSnapshot} {event : Option RunEventType} {payload : Payload}
  {plan : RevisionPlan}

theorem planPayload_iteration {plan' : RevisionPlan} (h : planPayload plan = planPayload plan') :
    plan.iteration = plan'.iteration := by
  simp only [planPayload, RevisionPlan.dump, List.cons.injEq, Prod.mk.injEq, Json.obj.injEq,
    Json.ofNat, Json.num.injEq, Nat.cast_inj] at h
  exact h.1.2.1.2

theorem plans_withVersion {version : PRDVersion} {attempt : Nat}
    (hplan : version.revisionPlan = old.pendingRevisionPlan) :
    (old.withVersion version attempt).plans = old.plans := by
  unfold RunSnapshot.plans RunSnapshot.withVersion
  simp only [List.filterMap_append, List.filterMap_cons, List.filterMap_nil, Option.toList_none,
    List.append_nil, hplan]
  cases old.pendingRevisionPlan <;> rfl

theorem plans_withPlan (hnone : old.pendingRevisionPlan = none) :
    (old.withPlan plan).plans = old.plans ++ [plan] := by
  unfold RunSnapshot.plans RunSnapshot.withPlan
  rw [hnone]
  simp

theorem plans_aggregate {evaluation : EvaluationResult} {bestScore : Option ℚ}
    {bestVersion : Option Nat} (hfresh : old.Fresh) :
    (Workflow.aggregate evaluation bestScore bestVersion old).plans = old.plans := by
  obtain ⟨_, last, hlast, _⟩ := hfresh
  obtain ⟨earlier, hversions⟩ := List.getLast?_eq_some_iff.mp hlast
  unfold RunSnapshot.plans Workflow.aggregate
  simp only [hversions, List.modifyLast_concat, List.filterMap_append, List.filterMap_cons]

theorem mem_plans {version : PRDVersion} (hversion : version ∈ s.versions)
    (hplan : plan ∈ version.revisionPlan) : plan ∈ s.plans :=
  List.mem_append_left _ (List.mem_filterMap.mpr ⟨version, hversion, hplan⟩)

-- A pending plan is the last one.
theorem Lined.pending (h : Lined s) (hpending : plan ∈ s.pendingRevisionPlan) :
    plan.iteration + 1 = s.currentIteration := by
  have hnamed := h.named
  have hcount := h.count
  unfold RunSnapshot.plans at hnamed hcount
  rw [Option.mem_def.mp hpending, Option.toList_some, List.length_append, List.length_singleton]
    at hnamed hcount
  rw [List.map_append, List.range'_concat] at hnamed
  have hlengths : (List.map RevisionPlan.iteration
      (s.versions.filterMap PRDVersion.revisionPlan)).length
        = (List.range' 1 (s.versions.filterMap PRDVersion.revisionPlan).length).length := by
    simp
  have hlast := (List.append_inj hnamed hlengths).2
  rw [List.map_singleton, List.singleton_inj] at hlast
  omega

-- A change that leaves the plans alone.
theorem Lined.congr (h : Lined old) (hplans : s.plans = old.plans)
    (hiteration : s.currentIteration = old.currentIteration)
    (htarget : ∀ version ∈ s.versions, ∀ plan ∈ version.revisionPlan,
      version.version = plan.iteration + 1) : Lined s :=
  {
    named := by
      rw [hplans]
      exact h.named
    count := by
      rw [hplans, hiteration]
      exact h.count
    target := htarget
  }

theorem Lined.generated (h : Lined old) {version : PRDVersion} {attempt : Nat}
    (hversion : version.version = old.currentIteration)
    (hplan : version.revisionPlan = old.pendingRevisionPlan) :
    Lined (old.withVersion version attempt) := by
  apply h.congr (plans_withVersion hplan) rfl
  intro v hv plan' hplan'
  simp only [RunSnapshot.withVersion, List.mem_append, List.mem_singleton] at hv
  cases hv with
  | inl hold => exact h.target v hold plan' hplan'
  | inr heq =>
    rw [heq, hplan] at hplan'
    rw [heq, hversion]
    exact (h.pending hplan').symm

theorem Lined.scored (h : Lined old) {evaluation : EvaluationResult} {bestScore : Option ℚ}
    {bestVersion : Option Nat} (hfresh : old.Fresh) :
    Lined (Workflow.aggregate evaluation bestScore bestVersion old) := by
  apply h.congr (plans_aggregate hfresh) rfl
  obtain ⟨_, last, hlast, _⟩ := hfresh
  obtain ⟨earlier, hversions⟩ := List.getLast?_eq_some_iff.mp hlast
  have htarget := h.target
  rw [hversions] at htarget
  simp only [Workflow.aggregate, hversions, List.modifyLast_concat]
  simp only [List.forall_mem_append, List.mem_singleton, forall_eq] at htarget ⊢
  exact htarget

theorem Lined.planned (h : Lined old) (hnone : old.pendingRevisionPlan = none)
    (hplan : plan.iteration = old.currentIteration) : Lined (old.withPlan plan) := by
  have hcount := h.count
  constructor
  . rw [plans_withPlan hnone, List.map_append, List.length_append, List.map_singleton,
      List.length_singleton, List.range'_concat, h.named, hplan]
    congr 2
    omega
  . rw [plans_withPlan hnone, List.length_append, List.length_singleton, ← hcount]
    rfl
  . exact h.target

-- A plan that an open run is told of is one of its round.
def OfRound (old : RunSnapshot) (event : Option RunEventType) (payload : Payload) : Prop :=
  old.status.isTerminal = false → event = some .revisionPlanned →
    ∀ plan, payload = planPayload plan → plan.iteration = old.currentIteration

theorem Lined.change (h : Lined old) (hcoherent : Coherent old)
    (hchange : Change old event payload s) (hplan : OfRound old event payload) : Lined s := by
  cases hchange with
  | moved =>
    unfold RunSnapshot.movedTo
    split <;> exact ⟨h.named, h.count, h.target⟩
  | generated _ _ _ hversion _ hsame => exact h.generated hversion hsame
  | scored _ _ hfresh _ _ _ => exact h.scored hfresh
  | planned hopen hjudged =>
    exact h.planned (hcoherent.plan hjudged.1) (hplan hopen rfl _ rfl)
  | _ => exact ⟨h.named, h.count, h.target⟩

theorem Lined.stamped {sequence : Nat} (h : Lined s) (hstamped : Stamped s sequence new) :
    Lined new := by
  obtain ⟨now, elapsed, _, rfl⟩ := hstamped
  exact ⟨h.named, h.count, h.target⟩

-- Only the event of a plan adds to the plans.
theorem Change.plans (hchange : Change old event payload s) (hcoherent : Coherent old) :
    s.plans = old.plans ∧ event ≠ some .revisionPlanned
      ∨
    ∃ plan, event = some .revisionPlanned ∧ payload = planPayload plan
      ∧ s.plans = old.plans ++ [plan] ∧ s.currentIteration = old.currentIteration + 1 := by
  cases hchange with
  | moved _ htransit =>
    left
    constructor
    . unfold RunSnapshot.movedTo
      split <;> rfl
    . cases htransit <;> simp
  | generated _ _ _ _ _ hsame => exact .inl ⟨plans_withVersion hsame, by simp⟩
  | scored _ _ hfresh _ _ _ => exact .inl ⟨plans_aggregate hfresh, by simp⟩
  | @planned plan _ hjudged =>
    right
    exact ⟨plan, rfl, rfl, plans_withPlan (hcoherent.plan hjudged.1), rfl⟩
  | _ => exact .inl ⟨rfl, by simp⟩

theorem Change.plans_quiet (hchange : Change old event payload s) (hcoherent : Coherent old)
    (hquiet : event = none ∨ old.status.isTerminal = true) : s.plans = old.plans := by
  rcases hchange.plans hcoherent with ⟨hsame, _⟩ | ⟨_, hevent, _, _, _⟩
  . exact hsame
  . rw [hevent] at hchange hquiet
    have hterminal := hquiet.resolve_left (by simp)
    cases hchange with
    | moved _ htransit => cases htransit
    | planned hopen =>
      rw [hopen] at hterminal
      contradiction

theorem Change.plans_ne_nil (hchange : Change old event payload s) (hcoherent : Coherent old)
    (hplans : old.plans ≠ []) : s.plans ≠ [] := by
  rcases hchange.plans hcoherent with ⟨hsame, _⟩ | ⟨_, _, _, hgrown, _⟩
  . rw [hsame]
    exact hplans
  . rw [hgrown]
    simp

theorem plans_eq_nil :
    s.plans = [] ↔ (∀ version ∈ s.versions, version.revisionPlan = none)
      ∧ s.pendingRevisionPlan = none := by
  unfold RunSnapshot.plans
  rw [List.append_eq_nil_iff, List.filterMap_eq_nil_iff, Option.toList_eq_nil_iff]

theorem Named.ofRound {e : RunEvent} (h : Named e) (hcoherent : Coherent old)
    (hchange : Change old (some e.event) e.payload s) (hiteration : e.iteration = s.currentIteration) :
    OfRound old (some e.event) e.payload := by
  intro _ hevent plan hpayload
  rw [Option.some_inj] at hevent
  obtain ⟨plan', hpayload', hnamed⟩ := h hevent
  rw [hpayload] at hpayload'
  have hsame := planPayload_iteration hpayload'
  rcases hchange.plans hcoherent with ⟨_, hne⟩ | ⟨_, _, _, _, hnext⟩
  . rw [hevent] at hne
    contradiction
  . omega

theorem Tells.told {log : List RunEvent} {e : RunEvent} (h : Tells log old)
    (hcoherent : Coherent old) (hchange : Change old (some e.event) e.payload s)
    (hnamed : Named e) : Tells (log ++ [e]) s := by
  unfold Tells at h ⊢
  rcases hchange.plans hcoherent with ⟨hsame, hne⟩ | ⟨plan, hevent, hpayload, hplans, _⟩
  . have hother : planned (log ++ [e]) = planned log := by
      unfold planned
      rw [List.filter_append, List.filter_singleton]
      simp [Option.some_inj.not.mp hne]
    rw [hother, hsame]
    exact h
  . rw [Option.some_inj] at hevent
    have hgrown : planned (log ++ [e]) = planned log ++ [e] := by
      unfold planned
      rw [List.filter_append, List.filter_singleton]
      simp [hevent]
    obtain ⟨plan', hpayload', hplan'⟩ := hnamed hevent
    rw [hpayload] at hpayload'
    have hsame := planPayload_iteration hpayload'
    rw [hgrown, hplans, List.map_append, List.map_append, h, List.map_singleton,
      List.map_singleton, hpayload, hsame, hplan']

theorem History.lined {journal : List Commit} (h : History start journal new)
    (hcoherent : Coherent start) (hstart : Lined start) (hnone : start.plans = [])
    (hnamed : ∀ e ∈ events journal, Named e) : Lined new ∧ Tells (events journal) new := by
  induction h with
  | nil =>
    refine ⟨hstart, ?_⟩
    unfold Tells
    rw [hnone]
    rfl
  | @silent journal old s new payload hhistory hchange hstamped ih =>
    have hevents : events (journal ++ [{ snapshot := new, event := none }]) = events journal := by
      simp [events]
    rw [hevents] at hnamed ⊢
    obtain ⟨hlined, htells⟩ := ih hnamed
    have hold := hhistory.coherent hcoherent
    have hquiet : OfRound old none payload := by
      rintro _ ⟨⟩
    refine ⟨(hlined.change hold hchange hquiet).stamped hstamped, ?_⟩
    have hplans : new.plans = old.plans := by
      rcases hchange.plans hold with ⟨hsame, _⟩ | ⟨_, hevent, _⟩
      . obtain ⟨_, _, _, rfl⟩ := hstamped
        exact hsame
      . contradiction
    unfold Tells
    rw [hplans]
    exact htells
  | @event journal old s new e hhistory hchange hstamped _ _ hiteration ih =>
    have hevents : events (journal ++ [{ snapshot := new, event := some e }])
        = events journal ++ [e] := by
      simp [events]
    rw [hevents] at hnamed ⊢
    rw [List.forall_mem_append] at hnamed
    obtain ⟨hlined, htells⟩ := ih hnamed.1
    have hold := hhistory.coherent hcoherent
    have he : Named e := hnamed.2 e (List.mem_singleton.mpr rfl)
    refine ⟨(hlined.change hold hchange (he.ofRound hold hchange hiteration)).stamped hstamped, ?_⟩
    have htold := htells.told hold hchange he
    obtain ⟨_, _, _, rfl⟩ := hstamped
    exact htold

theorem lined_create (env : Env) (runId : RunId) (request : CreateRunRequest)
    (outputLanguage : String) (now : Timestamp) :
    Lined (createSnapshot env runId request outputLanguage now) :=
  {
    named := rfl
    count := rfl
    target := by simp [createSnapshot]
  }

end RunManager

end AgenticPrd
