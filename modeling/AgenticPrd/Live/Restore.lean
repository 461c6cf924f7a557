import AgenticPrd.Backend.Workflow.Safety
import AgenticPrd.Live.Told
import AgenticPrd.Live.Tracking

/-!
A view that loads a stored snapshot of a run and goes on with the events behind it shows what a view
shows that has followed the run from its start, whatever is delivered to it more than once.
-/

namespace AgenticPrd

namespace Live

open RunManager
open Suffix (Increasing)
open Client (RunViewState shown receive)

section Follows

variable {isoformat : Timestamp → String} {view : RunViewState} {R : RunViewState → RunSnapshot → Prop}
  {Good : RunEvent → Prop} {old s new start : RunSnapshot} {journal : List Commit}

/--
A relation of views to snapshots that a change of the snapshot and its event keep.
-/
structure Simulation (isoformat : Timestamp → String) (Good : RunEvent → Prop)
    (R : RunViewState → RunSnapshot → Prop) : Prop where
  told :
    ∀ {view old s e}, Orderly old → Good e → R view old →
      Change old (some e.event) e.payload s → e.iteration = s.currentIteration →
        R (Client.applyEvent view (e.wire isoformat)) s
  unseen :
    ∀ {view old s event payload}, R view old → Change old event payload s →
      (event = none ∨ old.status.isTerminal = true) → R view s
  stamped : ∀ {view s sequence new}, R view s → Stamped s sequence new → R view new

-- The view has come as far as the snapshot. Once the run has ended it takes nothing any more.
structure Follows (R : RunViewState → RunSnapshot → Prop) (view : RunViewState) (s : RunSnapshot) :
    Prop where
  orderly : Orderly s
  runId : view.runId = some s.runId
  sequence : s.status.isTerminal = false → view.latestSequence = s.latestEventSequence
  shown : shown view = stored s
  related : R view s

theorem Simulation.simulates (hR : Simulation isoformat Good R) :
    Simulates (RunEvent.wire isoformat) Good fun view s =>
      Orderly s ∧ shown view = stored s ∧ R view s :=
  {
    sends := sends_wire isoformat
    status := fun h => congrArg Client.Shown.status h.2.1
    told := by
      rintro view old s e hgood ⟨horder, hshown, hrelated⟩ _ hchange hiteration
      exact ⟨horder.change hchange, Live.told horder hshown hchange hiteration,
        hR.told horder hgood hrelated hchange hiteration⟩
    unseen := by
      rintro view old s event payload ⟨horder, hshown, hrelated⟩ hchange hunseen
      refine ⟨horder.change hchange, ?_, hR.unseen hrelated hchange hunseen⟩
      rw [stored_unseen hchange hunseen]
      exact hshown
    stamped := by
      rintro view s sequence new ⟨horder, hshown, hrelated⟩ hstamped
      refine ⟨horder.stamped hstamped, ?_, hR.stamped hrelated hstamped⟩
      rw [stored_stamped hstamped]
      exact hshown
  }

end Follows

section Restored

variable {isoformat : Timestamp → String} {env : WorkflowEnv} {runId : RunId}
  {request : CreateRunRequest} {outputLanguage : String} {bufferSize : Nat} {c : Workflow.Config}
  {journal : List Commit} {snapshot : RunSnapshot} {delivered : List RunEvent} {R : RunViewState → RunSnapshot → Prop}
  {Good : RunEvent → Prop}

-- The run is created with the snapshot, or it has been stored by one of its commits.
def Stores (initial : RunSnapshot) (journal : List Commit) (snapshot : RunSnapshot) : Prop :=
  snapshot = initial ∨ ∃ commit ∈ journal, commit.snapshot = snapshot

theorem Stores.split {initial final : RunSnapshot} {journal : List Commit}
    (h : Stores initial journal snapshot) (hhistory : History initial journal final) :
    ∃ before after,
      journal = before ++ after
        ∧ History initial before snapshot ∧ History snapshot after final := by
  rcases h with rfl | ⟨commit, hmem, rfl⟩
  . exact ⟨[], journal, rfl, .nil, hhistory⟩
  . exact hhistory.through hmem

-- What the server has in memory at a step of the run has been stored when it goes on.
theorem Stores.of_reaches {c' : Workflow.Config}
    (h : Workflow.Reachable env runId request outputLanguage bufferSize c)
    (hrun : Transition.Reaches (Workflow.step env) c c') :
    Stores (Workflow.init env.toEnv runId request outputLanguage bufferSize).world.snapshot
      c'.world.journal c.world.snapshot := by
  have hhistory := h.history
  have hgrown := (Workflow.Keeps.steps h.inv hrun).sound.grown
  rcases List.eq_nil_or_concat' c.world.journal with hnil | ⟨before, commit, hjournal⟩
  . rw [hnil] at hhistory
    left
    exact hhistory.eq_of_nil
  . rw [hjournal] at hhistory
    right
    refine ⟨commit, hgrown.subset ?_, hhistory.last⟩
    rw [hjournal]
    exact List.mem_append_right _ (List.mem_singleton.mpr rfl)

-- The events behind a stored snapshot are those with a later sequence.
theorem events_after {initial final : RunSnapshot} {before after : List Commit}
    (hbefore : History initial before snapshot) (hafter : History snapshot after final) :
    (events (before ++ after)).filter (fun e => snapshot.latestEventSequence < e.sequence)
      =
    events after := by
  have hevents : events (before ++ after) = events before ++ events after := by
    unfold events
    rw [List.filterMap_append]
  have hold : (events before).filter (fun e => snapshot.latestEventSequence < e.sequence) = [] := by
    rw [List.filter_eq_nil_iff]
    intro e he
    have hle := hbefore.spans.upTo e he
    simp only [decide_eq_true_eq]
    omega
  have hnew : (events after).filter (fun e => snapshot.latestEventSequence < e.sequence)
      = events after := by
    rw [List.filter_eq_self]
    intro e he
    simpa using hafter.spans.later e he
  rw [hevents, List.filter_append, hold, hnew, List.nil_append]

theorem Reachable.heard (h : Workflow.Reachable env runId request outputLanguage bufferSize c)
    (hjournal : journal <+: c.world.journal) :
    ∃ final,
      History (Workflow.init env.toEnv runId request outputLanguage bufferSize).world.snapshot journal
        final := by
  obtain ⟨rest, hrest⟩ := hjournal
  have hwhole := h.history
  rw [← hrest] at hwhole
  obtain ⟨final, hhistory, _⟩ := hwhole.split
  exact ⟨final, hhistory⟩

-- What is delivered is to a view that has loaded a snapshot what has been committed behind it.
theorem Reachable.behind {send : RunEvent → Client.RunEvent} {view : RunViewState}
    (hsends : Sends send) (h : Workflow.Reachable env runId request outputLanguage bufferSize c)
    (hjournal : journal <+: c.world.journal)
    (hstores : Stores (Workflow.init env.toEnv runId request outputLanguage bufferSize).world.snapshot
      journal snapshot)
    (hdelivered : Redelivers (events journal) snapshot.latestEventSequence delivered)
    (hrun : view.runId = some snapshot.runId)
    (hlatest : view.latestSequence = snapshot.latestEventSequence) :
    ∃ before after final,
      journal = before ++ after
        ∧ History (Workflow.init env.toEnv runId request outputLanguage bufferSize).world.snapshot
            journal final
        ∧ History (Workflow.init env.toEnv runId request outputLanguage bufferSize).world.snapshot
            before snapshot
        ∧ History snapshot after final
        ∧ receive view (delivered.map send) = receive view ((events after).map send) := by
  obtain ⟨final, hhistory⟩ := Reachable.heard h hjournal
  obtain ⟨before, after, rfl, hbefore, hafter⟩ := hstores.split hhistory
  refine ⟨before, after, final, rfl, hhistory, hbefore, hafter, ?_⟩
  rw [hbefore.sameRequest.runId] at hrun
  have hdeliveredRun : ∀ e ∈ delivered, e.runId
      = (Workflow.init env.toEnv runId request outputLanguage bufferSize).world.snapshot.runId := by
    intro e he
    exact hhistory.spans.runId e (hdelivered.mem e he)
  rw [receive_fresh hsends hrun hdeliveredRun (.inr hlatest), hdelivered.fresh_eq,
    events_after hbefore hafter]

-- `journal` is what of the journal the view has heard of.
theorem Reachable.tracks {send : RunEvent → Client.RunEvent} {T : RunViewState → RunSnapshot → Prop}
    {view : RunViewState} (hT : Simulates send Good T)
    (h : Workflow.Reachable env runId request outputLanguage bufferSize c)
    (hjournal : journal <+: c.world.journal) (hgood : ∀ e ∈ events journal, Good e)
    (hstores : Stores (Workflow.init env.toEnv runId request outputLanguage bufferSize).world.snapshot
      journal snapshot)
    (hdelivered : Redelivers (events journal) snapshot.latestEventSequence delivered)
    (hview : Tracks T view snapshot) (hlatest : view.latestSequence = snapshot.latestEventSequence) :
    ∃ final,
      History (Workflow.init env.toEnv runId request outputLanguage bufferSize).world.snapshot journal
          final
        ∧
      Tracks T (receive view (delivered.map send)) final := by
  obtain ⟨before, after, final, rfl, hhistory, _, hafter, hreceived⟩ :=
    Reachable.behind hT.sends h hjournal hstores hdelivered hview.runId hlatest
  refine ⟨final, hhistory, ?_⟩
  rw [hreceived]
  apply hview.history hT hafter
  intro e he
  apply hgood e
  unfold events at he ⊢
  rw [List.filterMap_append]
  exact List.mem_append_right _ he

theorem Stores.orderly {initial final : RunSnapshot} (h : Stores initial journal snapshot)
    (hhistory : History initial journal final) (hinitial : Orderly initial) : Orderly snapshot := by
  obtain ⟨before, after, rfl, hbefore, _⟩ := h.split hhistory
  exact hbefore.orderly hinitial

theorem Reachable.restore (hR : Simulation isoformat Good R)
    (h : Workflow.Reachable env runId request outputLanguage bufferSize c)
    (hjournal : journal <+: c.world.journal) (hgood : ∀ e ∈ events journal, Good e)
    (hstores : Stores (Workflow.init env.toEnv runId request outputLanguage bufferSize).world.snapshot
      journal snapshot)
    (hdelivered : Redelivers (events journal) snapshot.latestEventSequence delivered)
    (view : RunViewState) (hview : R (Client.loadSnapshot view snapshot.wire) snapshot) :
    ∃ final,
      History (Workflow.init env.toEnv runId request outputLanguage bufferSize).world.snapshot journal
          final
        ∧
      Follows R
        (receive (Client.loadSnapshot view snapshot.wire) (delivered.map (RunEvent.wire isoformat)))
        final := by
  obtain ⟨final, hheard⟩ := Reachable.heard h hjournal
  have horder : Orderly snapshot := hstores.orderly hheard (orderly_create _ _ _ _ _)
  have hload : Tracks (fun view s => Orderly s ∧ shown view = stored s ∧ R view s)
      (Client.loadSnapshot view snapshot.wire) snapshot :=
    ⟨rfl, fun _ => rfl, horder, shown_loadSnapshot view snapshot, hview⟩
  obtain ⟨final, hhistory, htracks⟩ :=
    Reachable.tracks hR.simulates h hjournal hgood hstores hdelivered hload rfl
  obtain ⟨horder, hshown, hrelated⟩ := htracks.related
  exact ⟨final, hhistory, horder, htracks.runId, htracks.sequence, hshown, hrelated⟩

theorem Reachable.increasing (h : Workflow.Reachable env runId request outputLanguage bufferSize c)
    (hjournal : journal <+: c.world.journal) : Increasing RunEvent.sequence (events journal) :=
  h.keeps.sound.logged.increasing.sublist (events_mono hjournal).sublist

/--
A view that loads a stored snapshot and then takes the events behind it, redelivered events among
them, shows what a view shows that has loaded the first snapshot and taken every event. This holds
wherever the journal of the run stands, also between the commits of one step.
-/
theorem restored_view (isoformat : Timestamp → String)
    (h : Workflow.Reachable env runId request outputLanguage bufferSize c)
    (hjournal : journal <+: c.world.journal)
    (hstores : Stores (Workflow.init env.toEnv runId request outputLanguage bufferSize).world.snapshot
      journal snapshot)
    (hdelivered : Redelivers (events journal) snapshot.latestEventSequence delivered)
    (restored live : RunViewState) :
    shown (receive (Client.loadSnapshot restored snapshot.wire)
        (delivered.map (RunEvent.wire isoformat)))
      =
    shown (receive
        (Client.loadSnapshot live
          (Workflow.init env.toEnv runId request outputLanguage bufferSize).world.snapshot.wire)
        ((events journal).map (RunEvent.wire isoformat))) := by
  have hR : Simulation isoformat (fun _ => True) fun _ _ => True :=
    {
      told := by simp
      unseen := by simp
      stamped := by simp
    }
  have hwhole := Redelivers.whole (Reachable.increasing h hjournal)
  obtain ⟨final, hhistory, hrestored⟩ :=
    Reachable.restore hR h hjournal (fun _ _ => trivial) hstores hdelivered restored trivial
  obtain ⟨final', hhistory', hlive⟩ :=
    Reachable.restore hR h hjournal (fun _ _ => trivial) (.inl rfl) (hwhole _) live trivial
  rw [hrestored.shown, hlive.shown, hhistory.final_eq hhistory']

-- A view that is restored while the first version streams, and to which the whole log is sent again.
theorem restored_view_generated :
    shown (receive
        (Client.loadSnapshot Client.initialRunViewState
          (Workflow.mockRun [.begin, .enterGenerator]).world.snapshot.wire)
        ((events (Workflow.mockRun Workflow.mockGeneration).world.journal).map
          (RunEvent.wire fun _ => "")))
      =
    shown (receive
        (Client.loadSnapshot Client.initialRunViewState Workflow.mockInit.world.snapshot.wire)
        ((events (Workflow.mockRun Workflow.mockGeneration).world.journal).map
          (RunEvent.wire fun _ => ""))) := by
  have hreach : Workflow.Reachable Workflow.mockWorkflow "run" mockRequest "English" 1000
      (Workflow.mockRun Workflow.mockGeneration) := Workflow.mockRun_reachable (by decide +kernel)
  have hbefore : Workflow.Reachable Workflow.mockWorkflow "run" mockRequest "English" 1000
      (Workflow.mockRun [.begin, .enterGenerator]) := Workflow.mockRun_reachable (by decide +kernel)
  have hrun : Transition.Reaches (Workflow.step Workflow.mockWorkflow)
      (Workflow.mockRun [.begin, .enterGenerator]) (Workflow.mockRun Workflow.mockGeneration) := by
    have hfirst := Workflow.mockRun_step (Workflow.mockGeneration.take 2)
      (.generatorWake (.returned (some {
        delta := "# PRD <!-- PRD_COMPLETE -->"
        usage := some .empty
        finishReason := some "stop"
      }))) (by decide +kernel)
    have hlast := Workflow.mockRun_step (Workflow.mockGeneration.take 3)
      (.generatorWake (.returned none)) (by decide +kernel)
    exact .tail (.tail .refl trivial hfirst) trivial hlast
  exact restored_view _ hreach List.prefix_rfl (.of_reaches hbefore hrun)
    (.whole (Reachable.increasing hreach List.prefix_rfl) _) _ _

end Restored

end Live

end AgenticPrd
