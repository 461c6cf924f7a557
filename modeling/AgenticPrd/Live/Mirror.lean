import AgenticPrd.Backend.RunManager.Activity
import AgenticPrd.Lib.Cut
import AgenticPrd.Live.Ranking

/-!
The nodes and the pending plan in a view that follows a run from its start. They are the ones of the
server, but for two effects that the view has no part in: the end of a run by a cancellation or a
failure takes the active node away, and a new version takes the plan that it was generated from.
-/

namespace AgenticPrd

namespace Live

open RunManager Transition
open Cut (forall_cut_concat)
open Client (RunViewState receive withNodeStatus)

variable {isoformat : Timestamp → String} {view : RunViewState} {initial old s new : RunSnapshot}
  {journal : List Commit} {log : List RunEvent} {e : RunEvent}

section Log

-- The ends of a run that do not wait for the active node.
def aborts : RunEventType → Bool
  | .runCancelled => true
  | .runFailed => true
  | _ => false

-- No node was active when the run was cancelled or failed.
def EndsIdle (initial : RunSnapshot) (journal : List Commit) : Prop :=
  ∀ before commit after, journal = before ++ commit :: after →
    ∀ e ∈ commit.event, aborts e.event = true → (latest initial before).activeNode = none

def plans (log : List RunEvent) : Prop :=
  ∃ e ∈ log, e.event = .revisionPlanned

-- A version that was generated from a plan has a later plan after it.
def Superseded (log : List RunEvent) : Prop :=
  ∀ before e after, log = before ++ e :: after → e.event = .prdGenerated → plans before → plans after

theorem endsIdle_concat {commit : Commit} :
    EndsIdle initial (journal ++ [commit])
      ↔
    EndsIdle initial journal
      ∧ ∀ e ∈ commit.event, aborts e.event = true → (latest initial journal).activeNode = none := by
  unfold EndsIdle
  rw [forall_cut_concat]

@[simp]
theorem plans_concat : plans (log ++ [e]) ↔ plans log ∨ e.event = .revisionPlanned := by
  unfold plans
  simp [or_and_right, exists_or]

theorem superseded_planned (h : e.event = .revisionPlanned) : Superseded (log ++ [e]) := by
  unfold Superseded
  rw [forall_cut_concat]
  simp [h]

theorem superseded_generated (h : e.event = .prdGenerated) :
    Superseded (log ++ [e]) ↔ ¬plans log := by
  unfold Superseded
  rw [forall_cut_concat]
  constructor
  . rintro ⟨_, hlast⟩ hplans
    have hnil := hlast h hplans
    simp [plans] at hnil
  . intro hnone
    constructor
    . rintro before g after rfl _ ⟨p, hp, hplanned⟩
      exact absurd ⟨p, by simp [hp], hplanned⟩ hnone
    . intro _ hplans
      exact absurd hplans hnone

theorem superseded_other (hplanned : e.event ≠ .revisionPlanned)
    (hgenerated : e.event ≠ .prdGenerated) : Superseded (log ++ [e]) ↔ Superseded log := by
  unfold Superseded
  rw [forall_cut_concat]
  simp [hplanned, hgenerated]

end Log

section Nodes

-- The nodes of the view are those of the server.
def ShowsNodes (view : RunViewState) (s : RunSnapshot) : Prop :=
  view.snapshot.map Client.nodes = some (Client.nodes s.wire)

instance (view : RunViewState) (s : RunSnapshot) : Decidable (ShowsNodes view s) :=
  inferInstanceAs (Decidable (_ = _))

theorem value_ne_empty (node : Node) : node.value ≠ "" := by
  cases node <;> decide

theorem value_inj {node other : Node} : node.value = other.value ↔ node = other := by
  constructor
  . intro h
    cases node <;> cases other <;> first | rfl | exact absurd h (by decide)
  . rintro rfl
    rfl

theorem set_statuses (statuses : Node → NodeStatus) (node : Node) (status : NodeStatus) :
    Record.set (Node.all.map fun n => (n.value, statuses n)) node.value status
      =
    Node.all.map fun n => (n.value, Function.update statuses node status n) := by
  cases node <;> rfl

-- What the server does to a node that has been started or has finished, the view does as well.
theorem ShowsNodes.mark (h : ShowsNodes view old) {node : Node} {status : NodeStatus}
    (hstatuses : s.nodeStatuses = Function.update old.nodeStatuses node status)
    (hactive : s.activeNode
      = if status = .running then some node
        else if old.activeNode = some node then none else old.activeNode) :
    (withNodeStatus view.snapshot node.value status).map Client.nodes
      = some (Client.nodes s.wire) := by
  unfold ShowsNodes at h
  cases hsnapshot : view.snapshot with
  | none =>
    rw [hsnapshot] at h
    contradiction
  | some shown =>
    rw [hsnapshot, Option.map_some, Option.some.injEq] at h
    obtain ⟨hshownActive, hshownStatuses⟩ := Prod.mk.inj h
    simp only [withNodeStatus, Option.map_some, Client.nodes, Option.some.injEq, Prod.mk.injEq]
    constructor
    . rw [hshownActive]
      unfold RunSnapshot.wire
      dsimp only
      rw [hactive]
      split
      . rfl
      . have hsame : old.activeNode.map Node.value = some node.value ↔ old.activeNode = some node := by
          simp [value_inj]
        simp only [hsame]
        split <;> rfl
    . rw [hshownStatuses]
      unfold RunSnapshot.wire
      dsimp only
      rw [hstatuses, set_statuses]

theorem ShowsNodes.congr (h : ShowsNodes view old) (hstatuses : s.nodeStatuses = old.nodeStatuses)
    (hactive : s.activeNode = old.activeNode) : ShowsNodes view s := by
  unfold ShowsNodes Client.nodes RunSnapshot.wire at h ⊢
  dsimp only at h ⊢
  rw [hstatuses, hactive]
  exact h

theorem showsNodes_told (hview : ShowsNodes view old) (hposted : Posted old)
    (hchange : Change old (some e.event) e.payload s) (habort : aborts e.event = false) :
    ShowsNodes (Client.applyEvent view (e.wire isoformat)) s := by
  have hquiet : Client.eventNode (e.wire isoformat) = none →
      s.nodeStatuses = old.nodeStatuses → s.activeNode = old.activeNode →
        ShowsNodes (Client.applyEvent view (e.wire isoformat)) s := by
    intro hnone hstatuses hactive
    have hsame := hview.congr hstatuses hactive
    unfold ShowsNodes at hsame ⊢
    rw [Client.applyEvent_nodes, hnone]
    exact hsame
  have hmark : ∀ (node : Node) (status : NodeStatus),
      Client.eventNode (e.wire isoformat) = some (node.value, status) →
        s.nodeStatuses = Function.update old.nodeStatuses node status →
          s.activeNode
              = (if status = .running then some node
                else if old.activeNode = some node then none else old.activeNode) →
            ShowsNodes (Client.applyEvent view (e.wire isoformat)) s := by
    intro node status hsome hstatuses hactive
    unfold ShowsNodes
    rw [Client.applyEvent_nodes, hsome]
    exact hview.mark hstatuses hactive
  have hlast : ∀ {node : Node}, (∀ other ∈ old.activeNode, other = node) →
      none = if old.activeNode = some node then none else old.activeNode := by
    intro node honly
    cases hactive : old.activeNode with
    | none => simp
    | some other =>
      rw [honly other hactive]
      simp
  have hpayload : (e.wire isoformat).payload = e.payload := rfl
  have hevent : (e.wire isoformat).event = e.event := rfl
  unfold Client.eventNode at hquiet hmark
  rw [hevent, hpayload] at hquiet hmark
  generalize e.event = event at *
  generalize e.payload = payload at *
  cases hchange with
  | started | resumed | used | reset | streamed => exact hquiet rfl rfl rfl
  | failed => contradiction
  | moved _ htransit =>
    cases htransit with
    | stage htarget =>
      unfold RunSnapshot.movedTo at hquiet ⊢
      rw [htarget] at hquiet ⊢
      exact hquiet rfl rfl rfl
    | pauseRequested | paused => exact hquiet rfl rfl rfl
    | cancelled => contradiction
    | completed hidle | exhausted hidle => exact hquiet rfl rfl hidle.symm
  | @marked node role =>
    apply hmark node .running _ rfl rfl
    simp [startedPayload, Client.stringPayload, Client.Value.field, Client.Value.string?,
      Record.get?_cons, Option.filter, value_ne_empty]
  | generated _ _ hpending =>
    exact hmark .generator .succeeded rfl rfl (hlast (hposted.generator hpending))
  | @reviewed role review _ _ hrole =>
    apply hmark role.node .succeeded _ rfl rfl
    dsimp only
    rw [dump_role, hrole]
    cases role <;> rfl
  | scored _ hactive =>
    apply hmark .aggregator .succeeded rfl rfl
    rw [hactive]
    rfl
  | planned _ hjudged =>
    exact hmark .optimizer .succeeded rfl rfl (hlast (hposted.optimizer hjudged))

theorem Change.aborted {event : RunEventType} {payload : Payload}
    (h : Change old (some event) payload s) (habort : aborts event = true) :
    s.status.isTerminal = true
      ∧ s.activeNode = none
      ∧ (old.activeNode = none → s.nodeStatuses = old.nodeStatuses) := by
  cases h with
  | moved _ htransit =>
    cases htransit with
    | cancelled => exact ⟨rfl, rfl, fun _ => rfl⟩
    | _ => contradiction
  | failed =>
    refine ⟨rfl, rfl, ?_⟩
    intro hidle
    simp only [failSnapshot, hidle]
  | _ => contradiction

-- The view keeps the node that the server takes away.
theorem showsNodes_aborted (hview : ShowsNodes view old)
    (hchange : Change old (some e.event) e.payload s) (habort : aborts e.event = true) :
    ShowsNodes (Client.applyEvent view (e.wire isoformat)) s ↔ old.activeNode = none := by
  have hshown : ShowsNodes (Client.applyEvent view (e.wire isoformat)) old := by
    have hnone : Client.eventNode (e.wire isoformat) = none := by
      unfold Client.eventNode RunEvent.wire
      dsimp only
      cases hevent : e.event <;> simp [hevent, aborts] at habort ⊢
    unfold ShowsNodes at hview ⊢
    rw [Client.applyEvent_nodes, hnone]
    exact hview
  obtain ⟨_, hactive, hstatuses⟩ := Change.aborted hchange habort
  constructor
  . intro hmirrored
    unfold ShowsNodes at hshown hmirrored
    rw [hshown, Option.some.injEq] at hmirrored
    have hsame : old.activeNode.map Node.value = s.activeNode.map Node.value :=
      congrArg Prod.fst hmirrored
    rw [hactive] at hsame
    exact Option.map_eq_none_iff.mp hsame
  . intro hidle
    exact hshown.congr (hstatuses hidle) (by rw [hactive, hidle])

end Nodes

section Plan

def ShowsPlan (view : RunViewState) (s : RunSnapshot) : Prop :=
  view.pendingRevisionPlan = s.wire.pendingRevisionPlan

theorem showsPlan_of_none (h : s.pendingRevisionPlan = none) :
    ShowsPlan view s ↔ view.pendingRevisionPlan = .null := by
  unfold ShowsPlan RunSnapshot.wire
  dsimp only
  rw [h]
  rfl

/--
What a view that has taken the log knows of the plans: it has one once there has been one, and this
is the plan of the server as long as the server has one.
-/
structure Planned (log : List RunEvent) (view : RunViewState) (s : RunSnapshot) : Prop where
  unplanned : view.pendingRevisionPlan = .null ↔ ¬plans log
  pending : s.pendingRevisionPlan = none ∨ ShowsPlan view s
  shows : ShowsPlan view s ↔ Superseded log

theorem pending_change {event : Option RunEventType} {payload : Payload}
    (h : Change old event payload s) (hplanned : event ≠ some .revisionPlanned)
    (hgenerated : event ≠ some .prdGenerated) :
    s.pendingRevisionPlan = old.pendingRevisionPlan := by
  cases h with
  | moved =>
    unfold RunSnapshot.movedTo
    split <;> rfl
  | planned | generated => contradiction
  | _ => rfl

theorem Planned.congr {view' : RunViewState} (h : Planned log view old)
    (hpending : s.pendingRevisionPlan = old.pendingRevisionPlan)
    (hview : view'.pendingRevisionPlan = view.pendingRevisionPlan) : Planned log view' s := by
  have hsame : ShowsPlan view' s ↔ ShowsPlan view old := by
    unfold ShowsPlan RunSnapshot.wire
    dsimp only
    rw [hpending, hview]
  constructor
  . rw [hview]
    exact h.unplanned
  . rw [hpending, hsame]
    exact h.pending
  . rw [hsame]
    exact h.shows

theorem Planned.other (h : Planned log view s) (hplanned : e.event ≠ .revisionPlanned)
    (hgenerated : e.event ≠ .prdGenerated) : Planned (log ++ [e]) view s := by
  constructor
  . rw [plans_concat]
    simp only [hplanned, or_false]
    exact h.unplanned
  . exact h.pending
  . rw [superseded_other hplanned hgenerated]
    exact h.shows

theorem Planned.told (h : Planned log view old) (hchange : Change old (some e.event) e.payload s) :
    Planned (log ++ [e]) (Client.applyEvent view (e.wire isoformat)) s := by
  have hview := Client.applyEvent_pendingRevisionPlan view (e.wire isoformat)
  by_cases hplanned : e.event = .revisionPlanned
  . have hshows : ∃ plan, s.pendingRevisionPlan = some plan
        ∧ (Client.applyEvent view (e.wire isoformat)).pendingRevisionPlan = .obj plan.dump := by
      rw [hplanned] at hchange
      generalize hpayload : e.payload = payload at hchange
      cases hchange with
      | moved _ htransit => cases htransit
      | @planned plan =>
        refine ⟨plan, rfl, ?_⟩
        rw [hview]
        unfold Client.eventPlan RunEvent.wire
        dsimp only
        rw [hplanned, hpayload]
        simp [Client.Value.field, Record.get?_cons, Client.Value.truthy]
    obtain ⟨plan, hpending, hplan⟩ := hshows
    have hmirrored : ShowsPlan (Client.applyEvent view (e.wire isoformat)) s := by
      unfold ShowsPlan RunSnapshot.wire
      dsimp only
      rw [hpending, hplan]
      rfl
    constructor
    . simp [hplan, hplanned]
    . exact .inr hmirrored
    . simp [hmirrored, superseded_planned hplanned]
  . have hkeeps : (Client.applyEvent view (e.wire isoformat)).pendingRevisionPlan
        = view.pendingRevisionPlan := Client.applyEvent_pendingRevisionPlan_other hplanned
    by_cases hgenerated : e.event = .prdGenerated
    . have hpending : s.pendingRevisionPlan = none := by
        rw [hgenerated] at hchange
        generalize e.payload = payload at hchange
        cases hchange with
        | moved _ htransit => cases htransit
        | generated => rfl
      constructor
      . rw [hkeeps, plans_concat]
        simp only [hplanned, or_false]
        exact h.unplanned
      . exact .inl hpending
      . rw [showsPlan_of_none hpending, hkeeps, superseded_generated hgenerated]
        exact h.unplanned
    . have hpending := pending_change hchange (by simpa using hplanned) (by simpa using hgenerated)
      exact (h.congr hpending hkeeps).other hplanned hgenerated

end Plan

section Run

variable {env : WorkflowEnv} {runId : RunId} {request : CreateRunRequest} {outputLanguage : String}
  {bufferSize : Nat} {c : Workflow.Config}

def Mirrors (view : RunViewState) (s : RunSnapshot) : Prop :=
  ShowsNodes view s ∧ ShowsPlan view s

theorem latest_concat (commit : Commit) : latest initial (journal ++ [commit]) = commit.snapshot := by
  simp [latest]

structure Mirroring (initial : RunSnapshot) (journal : List Commit) (view : RunViewState)
    (s : RunSnapshot) : Prop where
  latest : latest initial journal = s
  orderly : Orderly s
  posted : Posted s
  status : view.status = some (.run s.status)
  idle : s.status.isTerminal = false → EndsIdle initial journal
  nodes : ShowsNodes view s ↔ EndsIdle initial journal
  planned : Planned (events journal) view s

theorem showsNodes_stamped {sequence : Nat} (h : Stamped s sequence new) :
    ShowsNodes view new ↔ ShowsNodes view s := by
  obtain ⟨now, elapsed, _, rfl⟩ := h
  rfl

-- The events that a view of a run that has ended does not take.
theorem Change.closed_event {event : RunEventType} {payload : Payload}
    (h : Change old (some event) payload s) (hterminal : old.status.isTerminal = true) :
    aborts event = false ∧ event ≠ .revisionPlanned ∧ event ≠ .prdGenerated := by
  cases h with
  | moved hlegal =>
    rw [RunStatus.not_canTransition_of_isTerminal hterminal] at hlegal
    contradiction
  | resumed hpaused =>
    rw [hpaused] at hterminal
    contradiction
  | failed hopen | marked hopen | generated hopen | reviewed hopen | scored hopen | planned hopen =>
    rw [hopen] at hterminal
    contradiction
  | _ => exact ⟨rfl, by simp, by simp⟩

theorem mirroring_accompanies (isoformat : Timestamp → String) (initial : RunSnapshot) :
    Accompanies (RunEvent.wire isoformat) (fun _ => True) (Mirroring initial) :=
  {
    sends := sends_wire isoformat
    status := fun h => h.status
    told := by
      intro journal view old s new e _ h hopen hchange hstamped hiteration
      have hposted := h.posted.change hchange
      have hshows : ShowsNodes view old := h.nodes.mpr (h.idle hopen)
      have hevents : events (journal ++ [{ snapshot := new, event := some e }])
          = events journal ++ [e] := by
        rw [events_append]
        rfl
      refine {
        latest := latest_concat _
        orderly := (h.orderly.change hchange).stamped hstamped
        posted := hposted.stamped hstamped
        status := ?_
        idle := ?_
        nodes := ?_
        planned := ?_
      }
      . rw [hstamped.status]
        exact told_status h.orderly h.status hchange hiteration
      . intro hstill
        rw [endsIdle_concat]
        refine ⟨h.idle hopen, ?_⟩
        intro e' he' habort
        cases he'
        have hended := (Change.aborted hchange habort).1
        rw [← hstamped.status, hstill] at hended
        contradiction
      . rw [showsNodes_stamped hstamped, endsIdle_concat, h.latest]
        simp only [h.idle hopen, true_and, Option.mem_some_iff, forall_eq']
        cases habort : aborts e.event with
        | true =>
          rw [showsNodes_aborted hshows hchange habort]
          simp
        | false =>
          simp only [Bool.false_eq_true, false_implies, iff_true]
          exact showsNodes_told hshows h.posted hchange habort
      . rw [hevents]
        exact (h.planned.told hchange).congr hstamped.pendingRevisionPlan rfl
    unseen := by
      intro journal view old s new event payload sequence h hchange hstamped hunseen
      have hquiet : ∀ e ∈ event,
          aborts e.event = false ∧ e.event ≠ .revisionPlanned ∧ e.event ≠ .prdGenerated := by
        rintro e rfl
        exact Change.closed_event hchange (hunseen.resolve_left (by simp))
      have hidle : EndsIdle initial (journal ++ [{ snapshot := new, event }])
          ↔ EndsIdle initial journal := by
        rw [endsIdle_concat]
        refine and_iff_left ?_
        intro e he habort
        rw [(hquiet e he).1] at habort
        contradiction
      have hnodes : s.nodeStatuses = old.nodeStatuses ∧ s.activeNode = old.activeNode := by
        rcases hunseen with rfl | hterminal
        . cases hchange <;> exact ⟨rfl, rfl⟩
        . exact hchange.nodes_closed hterminal
      have hshows : ShowsNodes view new ↔ ShowsNodes view old := by
        rw [showsNodes_stamped hstamped]
        constructor
        . intro hview
          exact hview.congr hnodes.1.symm hnodes.2.symm
        . intro hview
          exact hview.congr hnodes.1 hnodes.2
      have hpending : new.pendingRevisionPlan = old.pendingRevisionPlan := by
        rw [hstamped.pendingRevisionPlan]
        apply pending_change hchange
        . cases event with
          | none => simp
          | some e => simpa using (hquiet e rfl).2.1
        . cases event with
          | none => simp
          | some e => simpa using (hquiet e rfl).2.2
      have hstatus : new.status = old.status := by
        rw [hstamped.status]
        rcases hunseen with rfl | hterminal
        . cases hchange <;> rfl
        . exact hchange.terminal hterminal
      refine {
        latest := latest_concat _
        orderly := (h.orderly.change hchange).stamped hstamped
        posted := (h.posted.change hchange).stamped hstamped
        status := ?_
        idle := ?_
        nodes := ?_
        planned := ?_
      }
      . rw [hstatus]
        exact h.status
      . rw [hstatus, hidle]
        exact h.idle
      . rw [hshows, hidle]
        exact h.nodes
      . have hplanned := h.planned.congr hpending rfl
        rw [events_append]
        cases event with
        | none =>
          rw [Option.toList_none, List.append_nil]
          exact hplanned
        | some e => exact hplanned.other (hquiet e rfl).2.1 (hquiet e rfl).2.2
  }

theorem mirroring_load (horder : Orderly initial) (hposted : Posted initial)
    (hpending : initial.pendingRevisionPlan = none) (before : RunViewState) :
    Mirroring initial [] (Client.loadSnapshot before initial.wire) initial := by
  have hidle : EndsIdle initial [] := by simp [EndsIdle]
  have hplan : ShowsPlan (Client.loadSnapshot before initial.wire) initial := rfl
  exact {
    latest := rfl
    orderly := horder
    posted := hposted
    status := rfl
    idle := fun _ => hidle
    nodes := ⟨fun _ => hidle, fun _ => rfl⟩
    planned := {
      unplanned := by
        rw [← showsPlan_of_none hpending]
        simp [hplan, plans, events]
      pending := .inl hpending
      shows := by simp [hplan, Superseded, events]
    }
  }

/--
A view that has loaded the first snapshot and taken the events of a prefix of the journal shows the
nodes and the pending plan of the server exactly when every plan that a version was generated from
has been replaced, and no node was active when the run was cancelled or failed.
-/
theorem mirrors_iff (isoformat : Timestamp → String)
    (h : Workflow.Reachable env runId request outputLanguage bufferSize c)
    (hjournal : journal <+: c.world.journal) (before : RunViewState) :
    let initial := (Workflow.init env.toEnv runId request outputLanguage bufferSize).world.snapshot
    let view :=
      receive (Client.loadSnapshot before initial.wire)
        ((events journal).map (RunEvent.wire isoformat))
    Mirrors view (latest initial journal)
      ↔
    Superseded (events journal) ∧ EndsIdle initial journal := by
  intro initial view
  obtain ⟨final, hhistory⟩ := Reachable.heard h hjournal
  have hload : Tracks (Mirroring initial []) (Client.loadSnapshot before initial.wire) initial :=
    {
      runId := rfl
      sequence := fun _ => rfl
      related :=
        mirroring_load (orderly_create _ _ _ _ _) (posted_create _ _ _ _ _) rfl before
    }
  have htracks := (mirroring_accompanies isoformat initial).history hload hhistory fun _ _ => trivial
  have hmirroring := htracks.related
  rw [hmirroring.latest]
  unfold Mirrors
  rw [hmirroring.nodes, hmirroring.planned.shows, and_comm]

-- A view that has followed the run so far.
def followed (c : Workflow.Config) : RunViewState :=
  receive (Client.loadSnapshot Client.initialRunViewState Workflow.answeringInit.world.snapshot.wire)
    ((events c.world.journal).map (RunEvent.wire fun _ => ""))

-- The first round up to the plan, and the second one while the generator is running.
theorem mirrors_iff_generating :
    ∃ c,
      exec (Workflow.step Workflow.answeringWorkflow) Workflow.answeringInit
          ([.begin] ++ plannedRound 1 ++ [.enterGenerator]) = some c
        ∧ (Mirrors (followed c) (latest Workflow.answeringInit.world.snapshot c.world.journal)
          ↔
        Superseded (events c.world.journal)
          ∧ EndsIdle Workflow.answeringInit.world.snapshot c.world.journal) := by
  have hany :
      (exec (Workflow.step Workflow.answeringWorkflow) Workflow.answeringInit
        ([.begin] ++ plannedRound 1 ++ [.enterGenerator])).isSome = true := by decide +kernel
  obtain ⟨c, hexec⟩ := Option.isSome_iff_exists.mp hany
  have hreach : Workflow.Reachable Workflow.answeringWorkflow "run" mockRequest "English" 1000 c :=
    .of_exec hexec
  exact ⟨c, hexec, mirrors_iff _ hreach List.prefix_rfl _⟩

-- A run that is cancelled or fails while its first version streams, and the second version of one.
theorem not_mirrors :
    (∀ labels ∈ [[.begin, .enterGenerator, .cancelRun],
        [Workflow.Label.begin, .enterGenerator, .generatorWake (.raised .otherError)]],
      ∃ c,
        exec (Workflow.step Workflow.answeringWorkflow) Workflow.answeringInit labels = some c
          ∧ ¬ShowsNodes (followed c)
              (latest Workflow.answeringInit.world.snapshot c.world.journal))
      ∧
    ∃ c,
      exec (Workflow.step Workflow.answeringWorkflow) Workflow.answeringInit
          ([.begin] ++ plannedRound 1 ++ Workflow.answeredVersion.take 3) = some c
        ∧ ¬ShowsPlan (followed c)
            (latest Workflow.answeringInit.world.snapshot c.world.journal) := by
  constructor
  . intro labels hlabels
    have hany :
        (exec (Workflow.step Workflow.answeringWorkflow) Workflow.answeringInit labels).any
          (fun c => ¬ShowsNodes (followed c)
            (latest Workflow.answeringInit.world.snapshot c.world.journal)) = true := by
      simp only [List.mem_cons, List.not_mem_nil, or_false] at hlabels
      rcases hlabels with rfl | rfl <;> decide +kernel
    obtain ⟨c, hexec, hc⟩ := (Option.any_eq_true _ _).mp hany
    exact ⟨c, hexec, of_decide_eq_true hc⟩
  . have hplans :
        (exec (Workflow.step Workflow.answeringWorkflow) Workflow.answeringInit
            ([.begin] ++ plannedRound 1 ++ Workflow.answeredVersion.take 3)).map
          (fun c =>
            (Client.Value.truthy (followed c).pendingRevisionPlan,
              (latest Workflow.answeringInit.world.snapshot
                c.world.journal).pendingRevisionPlan.isNone)) = some (true, true) := by
      decide +kernel
    obtain ⟨c, hexec, hc⟩ := Option.map_eq_some_iff.mp hplans
    obtain ⟨hview, hserver⟩ := Prod.mk.inj hc
    refine ⟨c, hexec, ?_⟩
    rw [showsPlan_of_none (by simpa using hserver)]
    intro hnull
    rw [hnull] at hview
    contradiction

end Run

end Live

end AgenticPrd
