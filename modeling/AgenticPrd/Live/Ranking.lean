import AgenticPrd.Backend.Workflow.Baseline
import AgenticPrd.Live.Lineage

/-!
The best version as a view comes to it by itself, from events and snapshots that send no pointer: it
is the one that the server points at.
-/

namespace AgenticPrd

namespace Live

open RunManager Leader Transition
open Client (RunViewState receive)

-- The best version and its score, as a view keeps them.
def pointer (s : RunSnapshot) : Option ℚ × Option ℚ :=
  (s.bestVersion.map (Nat.cast : Nat → ℚ), s.bestScore)

def pointerKeys : List String :=
  ["best_version", "best_score"]

def unpointed (event : Client.RunEvent) : Client.RunEvent :=
  { event with payload := Record.eraseAll event.payload pointerKeys }

-- What is sent of an event, where some of the events come without the pointer.
def sent (isoformat : Timestamp → String) (older : RunEvent → Bool) (e : RunEvent) :
    Client.RunEvent :=
  if older e then
    unpointed (e.wire isoformat)
  else
    e.wire isoformat

-- A snapshot that has been stored before there was a pointer.
def unpointedSnapshot (snapshot : Client.RunSnapshot) : Client.RunSnapshot :=
  { snapshot with bestVersion := .null, bestScore := .null }

variable {isoformat : Timestamp → String} {older : RunEvent → Bool} {view view' : RunViewState}
  {old s new : RunSnapshot} {e : RunEvent} {event : Client.RunEvent} {payload : Payload}

section Payload

theorem field_unpointed {key : String} (h : key ∉ pointerKeys) :
    Client.Value.field (.obj (Record.eraseAll payload pointerKeys)) key
      =
    Client.Value.field (.obj payload) key := by
  unfold Client.Value.field
  dsimp only
  rw [Record.get?_eraseAll, if_neg h]

theorem optionalNumberPayload_unpointed {key : String} (h : key ∈ pointerKeys) :
    Client.optionalNumberPayload (Record.eraseAll payload pointerKeys) key = none := by
  unfold Client.optionalNumberPayload Client.Value.field
  dsimp only
  rw [Record.get?_eraseAll, if_pos h]
  rfl

theorem statusPayload_unpointed :
    Client.statusPayload (Record.eraseAll payload pointerKeys) = Client.statusPayload payload := by
  unfold Client.statusPayload Client.stringPayload
  rw [field_unpointed (by decide)]

theorem numberPayload_overall_unpointed :
    Client.numberPayload (Record.eraseAll payload pointerKeys) "overall" 0
      =
    Client.numberPayload payload "overall" 0 := by
  unfold Client.numberPayload
  rw [field_unpointed (by decide)]

theorem sends_sent (isoformat : Timestamp → String) (older : RunEvent → Bool) :
    Sends (sent isoformat older) := by
  constructor
  . intro e
    unfold sent
    split <;> rfl
  . intro e
    unfold sent
    split <;> rfl

end Payload

section Fallback

theorem bestOfVersions_leader (versions : List PRDVersion) :
    Client.bestOfVersions (versions.map PRDVersion.wire)
      =
    (
      (versions.foldl (step PRDVersion.score) none).map fun leader => (leader.1.version : ℚ),
      (versions.foldl (step PRDVersion.score) none).map Prod.snd
    ) := by
  induction versions using List.reverseRecOn with
  | nil => rfl
  | append_singleton versions version ih =>
    unfold Client.bestOfVersions at ih ⊢
    rw [List.map_append, List.foldl_append, List.foldl_append, ih]
    generalize versions.foldl (step PRDVersion.score) none = best
    simp only [List.map_singleton, List.foldl_cons, List.foldl_nil]
    unfold step PRDVersion.score PRDVersion.wire
    cases version.evaluation with
    | none => rfl
    | some evaluation =>
      cases best with
      | none => simp [EvaluationResult.wire]
      | some leader =>
        simp only [Option.map_some, EvaluationResult.wire, Option.all_some, decide_eq_true_eq,
          Option.mem_some_iff, forall_eq']
        split <;> rfl

-- The fallback over the versions of a snapshot comes to its pointer.
theorem bestOfVersions_ranked (h : Ranked s) :
    Client.bestOfVersions (s.versions.map PRDVersion.wire) = pointer s := by
  obtain ⟨best, hleader, hversion, hscore⟩ := h
  rw [bestOfVersions_leader, ← hleader.unique (isLeader_foldl PRDVersion.score s.versions)]
  unfold pointer
  rw [hversion, hscore, Option.map_map]
  rfl

theorem pointer_eq_storedBest (h : Orderly s) : pointer s = storedBest s := by
  have hranked := h.ranked
  unfold pointer storedBest
  cases hversion : s.bestVersion with
  | none =>
    cases hscore : s.bestScore with
    | none => rfl
    | some score => simp [hversion, hscore] at hranked
  | some version =>
    cases hscore : s.bestScore with
    | none => simp [hversion, hscore] at hranked
    | some score => rfl

end Fallback

section Simulates

-- A change keeps the pointer, but for the one that comes with an evaluation.
theorem pointer_change {event : RunEventType} {payload : Payload}
    (hchange : Change old (some event) payload s) (hevent : event ≠ .scoresUpdated) :
    pointer s = pointer old := by
  cases hchange with
  | moved =>
    unfold RunSnapshot.movedTo
    split <;> rfl
  | scored => contradiction
  | _ => rfl

theorem pointer_unseen {event : Option RunEventType} (hchange : Change old event payload s)
    (hunseen : event = none ∨ old.status.isTerminal = true) : pointer s = pointer old := by
  cases event with
  | none => cases hchange <;> rfl
  | some event =>
    apply pointer_change hchange
    rintro rfl
    cases hchange with
    | moved _ htransit => cases htransit
    | scored hopen => simp [hopen] at hunseen

theorem eventStatus_unpointed : Client.eventStatus (unpointed event) = Client.eventStatus event := by
  unfold Client.eventStatus unpointed
  dsimp only
  rw [statusPayload_unpointed]

theorem eventStatus_sent :
    Client.eventStatus (sent isoformat older e) = Client.eventStatus (e.wire isoformat) := by
  unfold sent
  split
  . exact eventStatus_unpointed
  . rfl

theorem eventBest_congr (hversion : view.bestVersion = view'.bestVersion)
    (hscore : view.bestScore = view'.bestScore) :
    Client.eventBest view event = Client.eventBest view' event := by
  unfold Client.eventBest
  rw [hversion, hscore]

theorem eventBest_unpointed (h : event.event ≠ .scoresUpdated) :
    Client.eventBest view (unpointed event) = (view.bestVersion, view.bestScore) := by
  unfold Client.eventBest unpointed
  dsimp only
  rw [optionalNumberPayload_unpointed (by decide), optionalNumberPayload_unpointed (by decide)]
  cases hevent : event.event with
  | scoresUpdated => contradiction
  | _ => rfl

-- The comparison of the view is the one of the server.
theorem eventBest_scored (hbest : (view.bestVersion, view.bestScore) = pointer old)
    (hevent : e.event = .scoresUpdated) (hchange : Change old (some e.event) e.payload s)
    (hiteration : e.iteration = s.currentIteration) :
    Client.eventBest view (unpointed (e.wire isoformat)) = pointer s := by
  rw [hevent] at hchange
  generalize hpayload : e.payload = payload at hchange
  cases hchange with
  | moved _ htransit => cases htransit
  | @scored evaluation gatePassed hopen _ hfresh htech hux hbiz =>
    obtain ⟨hversion, hscore⟩ := Prod.mk.inj hbest
    have hkey : e.iteration = old.currentIteration := hiteration
    have hoverall : Client.numberPayload e.payload "overall" 0 = evaluation.overallScore := by
      rw [hpayload]
      simp [Workflow.scoresPayload, Client.numberPayload, Client.Value.field, Client.Value.number?,
        Record.get?_cons]
    unfold Client.eventBest unpointed RunEvent.wire
    dsimp only
    rw [hevent]
    dsimp only
    rw [optionalNumberPayload_unpointed (by decide), optionalNumberPayload_unpointed (by decide),
      numberPayload_overall_unpointed, hoverall, hversion, hscore, hkey]
    unfold pointer Workflow.aggregate RunSnapshot.bestVersionWith RunSnapshot.bestScoreWith
    have himproves : (old.bestScore.all fun score => decide (score < evaluation.overallScore)) = true
        ↔ old.Improves evaluation.overallScore := by
      unfold RunSnapshot.Improves
      cases old.bestScore <;> simp
    simp only [himproves]
    split <;> rfl

-- What a view has of the server when it has come to the pointer by itself.
structure Points (view : RunViewState) (s : RunSnapshot) : Prop where
  orderly : Orderly s
  status : view.status = some (.run s.status)
  best : (view.bestVersion, view.bestScore) = pointer s

theorem points_simulates (isoformat : Timestamp → String) (older : RunEvent → Bool) :
    Simulates (sent isoformat older) (fun _ => True) Points :=
  {
    sends := sends_sent isoformat older
    status := fun h => h.status
    told := by
      intro view old s e _ hview _ hchange hiteration
      have hnew := hview.orderly.change hchange
      -- A view of the old snapshot that takes the event as it is.
      generalize hloaded : Client.loadSnapshot Client.initialRunViewState old.wire = loaded
      have hshown : Client.shown loaded = stored old := by
        rw [← hloaded]
        exact shown_loadSnapshot _ old
      have htold : Client.shown (Client.applyEvent loaded (e.wire isoformat)) = stored s :=
        Live.told hview.orderly hshown hchange hiteration
      have hbest := congrArg Client.Shown.best htold
      change ((Client.applyEvent loaded (e.wire isoformat)).bestVersion,
        (Client.applyEvent loaded (e.wire isoformat)).bestScore) = (stored s).best at hbest
      rw [Client.applyEvent_best, stored_best hnew, ← pointer_eq_storedBest hnew] at hbest
      have hsameBest : (view.bestVersion, view.bestScore) = (loaded.bestVersion, loaded.bestScore) := by
        rw [hview.best, pointer_eq_storedBest hview.orderly, ← stored_best hview.orderly, ← hshown]
        rfl
      obtain ⟨hsameVersion, hsameScore⟩ := Prod.mk.inj hsameBest
      constructor
      . exact hnew
      . rw [Client.applyEvent_status, eventStatus_sent, ← Client.applyEvent_status]
        exact told_status hview.orderly hview.status hchange hiteration
      . rw [Client.applyEvent_best]
        unfold sent
        split
        . by_cases hscored : e.event = .scoresUpdated
          . exact eventBest_scored hview.best hscored hchange hiteration
          . rw [eventBest_unpointed hscored, hview.best, pointer_change hchange hscored]
        . rw [← hbest]
          exact eventBest_congr hsameVersion hsameScore
    unseen := by
      intro view old s event payload hview hchange hunseen
      constructor
      . exact hview.orderly.change hchange
      . have hsame := congrArg Client.Shown.status (stored_unseen hchange hunseen)
        rw [hview.status]
        exact hsame.symm
      . rw [hview.best, pointer_unseen hchange hunseen]
    stamped := by
      intro view s sequence new hview hstamped
      constructor
      . exact hview.orderly.stamped hstamped
      . rw [hview.status, hstamped.status]
      . rw [hview.best]
        obtain ⟨now, elapsed, _, rfl⟩ := hstamped
        rfl
  }

end Simulates

section Run

variable {env : WorkflowEnv} {runId : RunId} {request : CreateRunRequest} {outputLanguage : String}
  {bufferSize : Nat} {c : Workflow.Config} {initial snapshot final : RunSnapshot}
  {journal : List Commit}

-- The snapshot that has been stored last.
def latest (initial : RunSnapshot) (journal : List Commit) : RunSnapshot :=
  (journal.getLast?.map Commit.snapshot).getD initial

theorem latest_eq (h : History initial journal final) : latest initial journal = final := by
  unfold latest
  rcases List.eq_nil_or_concat' journal with rfl | ⟨before, commit, rfl⟩
  . rw [h.eq_of_nil]
    rfl
  . rw [List.getLast?_concat, ← h.last]
    rfl

/--
The pointer of every stored snapshot is at the leader of its versions, and what has been evaluated
stays. A streaming call for a later version passes on the document of the leader before it. A view
that gets the pointer from no snapshot, or from only some of the events, comes to the same one.
-/
structure BestPointer (isoformat : Timestamp → String) (initial : RunSnapshot) (w : World) : Prop where
  current : Ranked w.snapshot
  ranked : ∀ snapshot, Stores initial w.journal snapshot → Ranked snapshot
  settled :
    (initial :: w.journal.map Commit.snapshot).Pairwise
      fun earlier later => Settled earlier.versions later.versions
  first : ∀ call ∈ w.streamed, call.1 = 1 → call.2 = none
  baseline :
    ∀ call ∈ w.streamed, 2 ≤ call.1 →
      ∃ version score,
        Leads PRDVersion.score (w.snapshot.versions.take (call.1 - 1)) version score
          ∧ call.2 = some version.content
  fallback :
    ∀ snapshot, Stores initial w.journal snapshot →
      Client.bestOfVersions snapshot.wire.versions = pointer snapshot
  folded :
    ∀ older journal, journal <+: w.journal →
      ∀ snapshot, Stores initial journal snapshot →
        ∀ loaded ∈ [snapshot.wire, unpointedSnapshot snapshot.wire],
          ∀ delivered, Redelivers (events journal) snapshot.latestEventSequence delivered →
            ∀ before,
              let view :=
                receive (Client.loadSnapshot before loaded) (delivered.map (sent isoformat older))
              (view.bestVersion, view.bestScore) = pointer (latest initial journal)

theorem Stores.ranked (h : Stores initial journal snapshot) (hhistory : History initial journal final)
    (horder : Orderly initial) (hinitial : Ranked initial) : Ranked snapshot := by
  obtain ⟨before, after, rfl, hbefore, _⟩ := h.split hhistory
  exact hbefore.ranked horder hinitial

theorem points_load (horder : Orderly snapshot) (hranked : Ranked snapshot) (before : RunViewState)
    {loaded : Client.RunSnapshot}
    (hloaded : loaded ∈ [snapshot.wire, unpointedSnapshot snapshot.wire]) :
    Points (Client.loadSnapshot before loaded) snapshot := by
  have hbest : Client.bestFromSnapshot loaded = pointer snapshot := by
    rcases List.mem_pair.mp hloaded with rfl | rfl
    . rw [bestFromSnapshot_eq horder, pointer_eq_storedBest horder]
    . exact bestOfVersions_ranked hranked
  refine ⟨horder, ?_, hbest⟩
  rcases List.mem_pair.mp hloaded with rfl | rfl <;> rfl

theorem best_pointer (isoformat : Timestamp → String)
    (h : Workflow.Reachable env runId request outputLanguage bufferSize c) :
    BestPointer isoformat
      (Workflow.init env.toEnv runId request outputLanguage bufferSize).world.snapshot c.world := by
  have horder :
      Orderly (Workflow.init env.toEnv runId request outputLanguage bufferSize).world.snapshot :=
    orderly_create _ _ _ _ _
  have hstart :
      Ranked (Workflow.init env.toEnv runId request outputLanguage bufferSize).world.snapshot :=
    ranked_create _ _ _ _ _
  have hbased := h.based.2
  exact {
    current := h.ranked
    ranked := by
      intro snapshot hstores
      exact hstores.ranked h.history horder hstart
    settled := h.history.pairwise_settled
    first := fun call hcall => (hbased call hcall).first
    baseline := fun call hcall => (hbased call hcall).later
    fallback := by
      intro snapshot hstores
      exact bestOfVersions_ranked (hstores.ranked h.history horder hstart)
    folded := by
      intro older journal hjournal snapshot hstores loaded hloaded delivered hdelivered before
      obtain ⟨final, hheard⟩ := Reachable.heard h hjournal
      have hload := points_load (hstores.orderly hheard horder) (hstores.ranked hheard horder hstart)
        before hloaded
      have hsame : (Client.loadSnapshot before loaded).runId = some snapshot.runId
          ∧ (Client.loadSnapshot before loaded).latestSequence = snapshot.latestEventSequence := by
        rcases List.mem_pair.mp hloaded with rfl | rfl <;> exact ⟨rfl, rfl⟩
      obtain ⟨final', hhistory, htracks⟩ :=
        Reachable.tracks (points_simulates isoformat older) h hjournal (fun _ _ => trivial) hstores
          hdelivered ⟨hsame.1, fun _ => hsame.2, hload⟩ hsame.2
      rw [latest_eq hhistory]
      exact htracks.related.best
  }

-- Two versions with the same scores: the first one leads, and the second is generated from it.
theorem best_pointer_two_rounds :
    ∃ c,
      exec (Workflow.step Workflow.answeringWorkflow) Workflow.answeringInit
          ([.begin] ++ plannedRound 1 ++ plannedRound 2) = some c
        ∧ BestPointer (fun _ => "") Workflow.answeringInit.world.snapshot c.world := by
  have hany :
      (exec (Workflow.step Workflow.answeringWorkflow) Workflow.answeringInit
        ([.begin] ++ plannedRound 1 ++ plannedRound 2)).isSome = true := by decide +kernel
  obtain ⟨c, hexec⟩ := Option.isSome_iff_exists.mp hany
  have hreach : Workflow.Reachable Workflow.answeringWorkflow "run" mockRequest "English" 1000 c :=
    .of_exec hexec
  exact ⟨c, hexec, best_pointer _ hreach⟩

end Run

end Live

end AgenticPrd
