import AgenticPrd.Backend.RunManager.Lemmas
import AgenticPrd.Backend.Workflow.Step

/-!
Views of the world that most commits leave alone: all but those that end a generation, an
evaluation or a round of the optimizer.
-/

namespace AgenticPrd

-- What the pauses of the run and the attempts of the generator are timed by.
def World.times (w : World) : Option ℚ × Option ℚ × ℚ × ℚ :=
  (w.activeStarted, w.pausedStarted, w.pausedTotal, w.record.started)

namespace Workflow

open RunManager Prog

variable {env : Env} {faults : Faults} {τ : Type}

section Views

variable {view : RunSnapshot → τ}

-- A part of the snapshot that the stamps of a commit do not touch.
structure Stampless (view : RunSnapshot → τ) : Prop where
  updatedAt : ∀ now snapshot, view (snapshot.withUpdatedAt now) = view snapshot
  elapsed : ∀ elapsed snapshot, view (snapshot.withElapsed elapsed) = view snapshot
  sequence : ∀ sequence snapshot, view (snapshot.withSequence sequence) = view snapshot

-- The mutations of a node that do not belong to its result, and their events.
inductive Minor : Prog RunSnapshot Exn Unit → Option RunEventType → Prop where
  | started {now : Timestamp} : Minor (modify (startRun now)) (some .runStarted)
  | marked {node : Node} {status : NodeStatus} :
    Minor (modify (markSnapshot node status)) (some .nodeStarted)
  | failed {code message : String} {retryable : Bool} {now : Timestamp} :
    Minor (modify (failSnapshot code message retryable now)) (some .runFailed)
  | reviewed {cancelled : Bool} {role : ReviewRole} {review : RoleReview} :
    Minor (finishReview cancelled role review) (some .reviewCompleted)

inductive Streaming : Prog RunSnapshot Exn Unit → Option RunEventType → Prop where
  | begun {attempt : Nat} : Streaming (modify (beginStream attempt)) none
  | reset {attempt : Nat} : Streaming (modify (beginStream attempt)) (some .prdStreamReset)
  | streamed {cancelled : Bool} {delta : String} :
    Streaming (appendDelta cancelled delta) (some .prdDelta)

inductive Billing : Prog RunSnapshot Exn Unit → Option RunEventType → Prop where
  | timed {node : Node} {version attempt : Nat} {seconds : ℚ} {succeeded : Bool}
    {usage : Option TokenUsage} :
    Billing (timingMutation node version attempt seconds succeeded usage) none
  | used {execution : RunExecution} {node : Node} {usage : TokenUsage} :
    Billing (modify (addNodeUsage execution node usage)) (some .telemetryUpdated)

-- One that a transition does not touch either.
structure Statusless (view : RunSnapshot → τ) : Prop extends Stampless view where
  status : ∀ status snapshot, view (snapshot.withStatus status) = view snapshot
  ended : ∀ now snapshot, view (snapshot.withEnd now) = view snapshot

-- A part of the snapshot that no minor mutation touches, and no stream.
structure Aside (view : RunSnapshot → τ) : Prop extends Statusless view where
  started : ∀ now snapshot, view (startRun now snapshot) = view snapshot
  marked : ∀ node status snapshot, view (markSnapshot node status snapshot) = view snapshot
  failed :
    ∀ code message retryable now snapshot,
      view (failSnapshot code message retryable now snapshot) = view snapshot
  begun : ∀ attempt snapshot, view (beginStream attempt snapshot) = view snapshot
  streamed :
    ∀ (delta : String) (snapshot : RunSnapshot),
      view { snapshot with currentPrd := snapshot.currentPrd ++ delta } = view snapshot
  reviewed :
    ∀ (reviews : ReviewRole → Option RoleReview)
      (nodeStatuses : Node → NodeStatus) (activeNode : Option Node) (snapshot : RunSnapshot),
      view { snapshot with reviews, nodeStatuses, activeNode } = view snapshot

theorem Minor.keeping {mutation : Prog RunSnapshot Exn Unit} {event : Option RunEventType}
    (h : Minor mutation event) (hview : Aside view) : Keeping view mutation := by
  cases h with
  | started => exact .modify (hview.started _)
  | marked => exact .modify (hview.marked _ _)
  | failed => exact .modify (hview.failed _ _ _ _)
  | @reviewed cancelled role review =>
    unfold finishReview
    split
    . exact .throw _
    . exact .modify fun _ => hview.reviewed _ _ _ _

theorem Streaming.keeping {mutation : Prog RunSnapshot Exn Unit} {event : Option RunEventType}
    (h : Streaming mutation event) (hview : Aside view) : Keeping view mutation := by
  cases h with
  | begun => exact .modify (hview.begun _)
  | reset => exact .modify (hview.begun _)
  | @streamed cancelled delta =>
    unfold appendDelta
    split
    . exact .throw _
    . exact .modify (hview.streamed delta)

-- A part that what the run spends does not touch either.
structure Apart (view : RunSnapshot → τ) : Prop extends Aside view where
  timed : ∀ timing snapshot, view (snapshot.addTiming timing) = view snapshot
  used :
    ∀ execution node usage snapshot, view (addNodeUsage execution node usage snapshot) = view snapshot

theorem Billing.keeping {mutation : Prog RunSnapshot Exn Unit} {event : Option RunEventType}
    (h : Billing mutation event) (hview : Apart view) : Keeping view mutation := by
  cases h with
  | used => exact .modify (hview.used _ _ _)
  | timed =>
    unfold timingMutation
    dsimp only
    split
    . exact .throw _
    . exact .modify (hview.timed _)

-- A view of the world that the readings of the clocks and the signals do not matter to.
class Clocked (view : World → τ) : Prop where
  congr :
    ∀ {w w' : World}, w'.snapshot = w.snapshot → w'.calls = w.calls → w'.journal = w.journal →
      w'.eventStore = w.eventStore → w'.times = w.times → w'.record = w.record → view w' = view w

-- A view of the world that the readings of the clocks, the signals and what an attempt has spent do
-- not matter to.
class Ticking (view : World → τ) : Prop where
  congr :
    ∀ {w w' : World}, w'.snapshot = w.snapshot → w'.calls = w.calls → w'.journal = w.journal →
      w'.eventStore = w.eventStore → w'.times = w.times → view w' = view w

instance {view : World → τ} [Ticking view] : Clocked view :=
  {
    congr := fun hsnapshot hcalls hjournal hstore htimes _ =>
      Ticking.congr hsnapshot hcalls hjournal hstore htimes
  }

-- A view of the world that the clocks, the signals and the record of an attempt do not matter to.
class Still (view : World → τ) : Prop where
  congr :
    ∀ {w w' : World}, w'.snapshot = w.snapshot → w'.calls = w.calls → w'.journal = w.journal →
      view w' = view w

instance {view : World → τ} [Still view] : Ticking view :=
  { congr := fun hsnapshot hcalls hjournal _ _ => Still.congr hsnapshot hcalls hjournal }

-- The events of `transition`.
def isTransit : RunEventType → Bool
  | .statusChanged => true
  | .pauseRequested => true
  | .runPaused => true
  | .runCancelled => true
  | .runCompleted => true
  | .maxIterationsReached => true
  | _ => false

-- One that the minor commits and the transitions do not change, while it may show the times and what
-- an attempt has spent.
class Unmarked (view : World → τ) : Prop extends Clocked view where
  keeps_commit :
    ∀ {env : Env} {faults : Faults} {mutation : Prog RunSnapshot Exn Unit}
      {event : Option RunEventType} {payload : RunSnapshot → Payload}, Minor mutation event →
        Keeping view (commit env faults mutation event payload)
  keeps_transition :
    ∀ {env : Env} {faults : Faults} {target : RunStatus} {event : RunEventType} {payload : Payload},
      isTransit event = true → Keeping view (transition env faults target event payload)

-- One that the minor commits and the transitions do not change.
class Unmoved (view : World → τ) : Prop extends Still view where
  keeps_commit :
    ∀ {env : Env} {faults : Faults} {mutation : Prog RunSnapshot Exn Unit}
      {event : Option RunEventType} {payload : RunSnapshot → Payload}, Minor mutation event →
        Keeping view (commit env faults mutation event payload)
  keeps_transition :
    ∀ {env : Env} {faults : Faults} {target : RunStatus} {event : RunEventType} {payload : Payload},
      isTransit event = true → Keeping view (transition env faults target event payload)

instance {view : World → τ} [Unmoved view] : Unmarked view :=
  {
    (inferInstance : Clocked view) with
    keeps_commit := Unmoved.keeps_commit
    keeps_transition := Unmoved.keeps_transition
  }

-- One that does not show the text that streams either, while it may show the times and what an
-- attempt has spent.
class Undrafted (view : World → τ) : Prop extends Unmarked view where
  keeps_streaming :
    ∀ {env : Env} {faults : Faults} {mutation : Prog RunSnapshot Exn Unit}
      {event : Option RunEventType} {payload : RunSnapshot → Payload}, Streaming mutation event →
        Keeping view (commit env faults mutation event payload)

-- One that does not show the text that streams either.
class Unstreamed (view : World → τ) : Prop extends Unmoved view where
  keeps_streaming :
    ∀ {env : Env} {faults : Faults} {mutation : Prog RunSnapshot Exn Unit}
      {event : Option RunEventType} {payload : RunSnapshot → Payload}, Streaming mutation event →
        Keeping view (commit env faults mutation event payload)

instance {view : World → τ} [Unstreamed view] : Undrafted view :=
  {
    (inferInstance : Unmarked view) with
    keeps_streaming := Unstreamed.keeps_streaming
  }

-- One that does not show what the run has spent.
class Unbilled (view : World → τ) : Prop extends Unmoved view where
  keeps_billing :
    ∀ {env : Env} {faults : Faults} {mutation : Prog RunSnapshot Exn Unit}
      {event : Option RunEventType} {payload : RunSnapshot → Payload}, Billing mutation event →
        Keeping view (commit env faults mutation event payload)

theorem Unmoved.prod {υ : Type} {view : World → τ} {view' : World → υ} (h : Unmoved view)
    (h' : Unmoved view') : Unmoved fun w => (view w, view' w) :=
  {
    congr := by
      intro w w' hsnapshot hcalls hjournal
      exact Prod.ext (h.congr hsnapshot hcalls hjournal) (h'.congr hsnapshot hcalls hjournal)
    keeps_commit := fun hminor => (h.keeps_commit hminor).prod (h'.keeps_commit hminor)
    keeps_transition := fun htransit =>
      (h.keeps_transition htransit).prod (h'.keeps_transition htransit)
  }

-- A call to the provider that the view does not show.
def Overlooks (view : World → τ) (call : ProviderCall) : Prop :=
  ∀ w, view (World.called call w) = view w

end Views

section Over

variable {part : RunSnapshot → τ}

-- A part of the snapshot, and the calls that have been made.
def withCalls (part : RunSnapshot → τ) (w : World) : τ × List ProviderCall :=
  (part w.snapshot, w.calls)

theorem withCalls_stamped (hpart : Stampless part) (w : World) :
    withCalls part (stamped env w) = withCalls part w := by
  obtain ⟨now, elapsed, ticks, _, h⟩ := stamped_eq env w
  rw [h]
  unfold withCalls
  rw [hpart.elapsed, hpart.updatedAt]

theorem withCalls_published (hpart : Stampless part) (e : RunEvent) (w : World) :
    withCalls part (published e w) = withCalls part w := by
  have hsnapshot : (published e w).snapshot = w.snapshot.withSequence e.sequence := by
    unfold published
    split <;> rfl
  have hcalls : (published e w).calls = w.calls := by
    unfold published
    split <;> rfl
  unfold withCalls
  rw [hsnapshot, hcalls, hpart.sequence]

theorem wp_publish_withCalls (hpart : Stampless part) {durable : Bool} {event : Option RunEventType} {payload : Payload}
    {w : World} :
    wp (publish env faults durable event payload) w
      (fun envelope w' => withCalls part (journaled envelope w') = withCalls part w)
      (fun _ w' => withCalls part w' = withCalls part w) := by
  cases event with
  | none =>
    rw [wp_publish_none]
    split <;> rfl
  | some event =>
    rw [wp_publish]
    cases heq : envelope? env w event payload with
    | none => rfl
    | some e =>
      have hpublished : withCalls part (published e w.tick) = withCalls part w := withCalls_published hpart e _
      dsimp only
      split
      . rfl
      . split
        . exact hpublished
        . split
          . exact hpublished
          . exact hpublished

theorem keeping_commit_withCalls (hpart : Stampless part) {mutation : Prog RunSnapshot Exn Unit}
    {event : Option RunEventType} {payload : RunSnapshot → Payload}
    (hmutation : Keeping part mutation) :
    Keeping (withCalls part) (commit env faults mutation event payload) := by
  intro w
  have hsame : ∀ s, part s = part w.snapshot → withCalls part (w.withSnapshot s) = withCalls part w := by
    intro s hs
    exact congrArg (fun p => (p, w.calls)) hs
  rw [wp_commit]
  apply wp_mono (hmutation w.snapshot)
  . intro _ s hs
    rw [← hsame s hs, ← @withCalls_stamped env _ _ hpart]
    exact wp_publish_withCalls hpart
  . intro _ s hs
    exact hsame s hs

theorem keeping_transition_withCalls (hpart : Statusless part) {target : RunStatus} {event : RunEventType}
    {payload : Payload} : Keeping (withCalls part) (transition env faults target event payload) := by
  intro w
  rw [wp_transition]
  split
  . have hmoved : withCalls part (moved env target w) = withCalls part w := by
      unfold moved withCalls
      split
      . exact congrArg (fun p => (p, w.calls)) ((hpart.ended _ _).trans (hpart.status _ _))
      . exact congrArg (fun p => (p, w.calls)) (hpart.status _ _)
    rw [← hmoved, ← @withCalls_stamped env _ _ hpart.toStampless]
    exact wp_publish_withCalls hpart.toStampless
  . rfl

-- What becomes of the part is up to the mutation.
theorem wp_commit_part (hpart : Stampless part) {mutation : Prog RunSnapshot Exn Unit}
    {event : Option RunEventType} {payload : RunSnapshot → Payload} {P : τ → Prop} {w : World}
    (hmutation : wp mutation w.snapshot (fun _ s => P (part s)) fun _ _ => True) :
    wp (commit env faults mutation event payload) w (fun _ w' => P (part w'.snapshot))
      fun _ _ => True := by
  rw [wp_commit]
  apply wp_mono hmutation
  . intro _ s hs
    apply wp_mono (wp_publish_withCalls hpart)
    . intro envelope w' hover
      rw [withCalls_stamped hpart] at hover
      have hsame : part w'.snapshot = part s := congrArg Prod.fst hover
      dsimp only [journaled]
      rw [hsame]
      exact hs
    . intro _ _ _
      trivial
  . intro _ _ _
    trivial

theorem Aside.unstreamed (hpart : Aside part) : Unstreamed (withCalls part) :=
  {
    congr := by
      intro w w' hsnapshot hcalls _
      unfold withCalls
      rw [hsnapshot, hcalls]
    keeps_commit := fun hminor => keeping_commit_withCalls hpart.toStampless (hminor.keeping hpart)
    keeps_transition := fun _ => keeping_transition_withCalls hpart.toStatusless
    keeps_streaming := fun hstreaming =>
      keeping_commit_withCalls hpart.toStampless (hstreaming.keeping hpart)
  }

theorem Apart.unbilled (hpart : Apart part) : Unbilled (withCalls part) :=
  {
    hpart.toAside.unstreamed.toUnmoved with
    keeps_billing := fun hbilling =>
      keeping_commit_withCalls hpart.toStampless (hbilling.keeping hpart)
  }

end Over

section Calls

variable (shown : List ProviderCall → τ)

-- A commit makes no call.
theorem keeping_commit_calls {mutation : Prog RunSnapshot Exn Unit} {event : Option RunEventType}
    {payload : RunSnapshot → Payload} :
    Keeping (fun w : World => shown w.calls) (commit env faults mutation event payload) := by
  have hnothing : Stampless fun _ : RunSnapshot => () :=
    ⟨fun _ _ => rfl, fun _ _ => rfl, fun _ _ => rfl⟩
  have hmutation : Keeping (fun _ : RunSnapshot => ()) mutation := fun s =>
    wp_mono (wp_trivial mutation) (fun _ _ _ => rfl) fun _ _ _ => rfl
  exact (keeping_commit_withCalls hnothing hmutation).comp fun both => shown both.2

theorem unmoved_calls : Unmoved fun w : World => shown w.calls :=
  {
    congr := fun _ hcalls _ => congrArg shown hcalls
    keeps_commit := fun _ => keeping_commit_calls shown
    keeps_transition := by
      intro _ _ _ _ _ _
      have hnothing : Statusless fun _ : RunSnapshot => () :=
        ⟨⟨fun _ _ => rfl, fun _ _ => rfl, fun _ _ => rfl⟩, fun _ _ => rfl, fun _ _ => rfl⟩
      exact (keeping_transition_withCalls hnothing).comp fun both => shown both.2
  }

theorem unbilled_calls : Unbilled fun w : World => shown w.calls :=
  {
    unmoved_calls shown with
    keeps_billing := fun _ => keeping_commit_calls shown
  }

theorem unstreamed_calls : Unstreamed fun w : World => shown w.calls :=
  {
    unmoved_calls shown with
    keeps_streaming := fun _ => keeping_commit_calls shown
  }

end Calls

section Announced

-- The events of a kind that the run has announced.
def announced? (kind : RunEventType) (commit : Commit) : Option RunEvent :=
  commit.event.filter fun e => e.event = kind

def announced (kind : RunEventType) (w : World) : List RunEvent :=
  w.journal.filterMap (announced? kind)

variable {kind : RunEventType}

theorem announced_journaled {e : Option RunEvent} {w : World}
    (he : ∀ envelope ∈ e, envelope.event ≠ kind) :
    announced kind (journaled e w) = announced kind w := by
  unfold announced journaled
  rw [List.filterMap_append]
  have hnone : announced? kind { snapshot := w.snapshot, event := e } = none := by
    unfold announced?
    rw [Option.filter_eq_none_iff]
    intro envelope henvelope
    simpa using he envelope henvelope
  simp [hnone]

theorem announced_stamped (w : World) : announced kind (stamped env w) = announced kind w := by
  obtain ⟨now, elapsed, ticks, _, h⟩ := stamped_eq env w
  rw [h]
  rfl

theorem announced_published (e : RunEvent) (w : World) :
    announced kind (published e w) = announced kind w := by
  unfold published
  split <;> rfl

theorem wp_publish_announced {durable : Bool} {event : Option RunEventType} {payload : Payload} {w : World}
    (hevent : event ≠ some kind) :
    wp (publish env faults durable event payload) w
      (fun envelope w' => announced kind (journaled envelope w') = announced kind w)
      (fun _ w' => announced kind w' = announced kind w) := by
  cases event with
  | none =>
    rw [wp_publish_none]
    split
    . rfl
    . apply announced_journaled
      simp
  | some event =>
    rw [wp_publish]
    cases heq : envelope? env w event payload with
    | none => rfl
    | some e =>
      have hkind : ∀ envelope ∈ some e, envelope.event ≠ kind := by
        intro envelope henvelope
        cases henvelope
        rw [(envelope?_fields heq).2.2.1]
        simpa using hevent
      dsimp only
      split
      . rfl
      . split
        . rw [announced_journaled hkind, announced_published]
          rfl
        . split
          . rw [announced_published]
            rfl
          . rw [announced_journaled hkind]
            exact announced_published e _

theorem keeping_commit_announced {mutation : Prog RunSnapshot Exn Unit}
    {event : Option RunEventType} {payload : RunSnapshot → Payload} (hevent : event ≠ some kind) :
    Keeping (announced kind) (commit env faults mutation event payload) := by
  intro w
  have hsame : ∀ s, announced kind (w.withSnapshot s) = announced kind w := fun _ => rfl
  rw [wp_commit]
  apply wp_mono (wp_trivial mutation)
  . intro _ s _
    rw [← hsame s, ← @announced_stamped env]
    exact wp_publish_announced hevent
  . intro _ s _
    rfl

theorem keeping_transition_announced {target : RunStatus} {event : RunEventType} {payload : Payload}
    (hevent : event ≠ kind) :
    Keeping (announced kind) (transition env faults target event payload) := by
  intro w
  rw [wp_transition]
  split
  . have hmoved : announced kind (moved env target w) = announced kind w := by
      unfold moved
      split <;> rfl
    rw [← hmoved, ← @announced_stamped env]
    apply wp_publish_announced
    simpa using hevent
  . rfl

-- The event of the commit, if the commit has come that far.
def Adds (kind : RunEventType) (payload : Payload) (w w' : World) : Prop :=
  announced kind w' = announced kind w
    ∨
  ∃ e, e.event = kind ∧ e.payload = payload ∧ announced kind w' = announced kind w ++ [e]

theorem wp_commit_adds {mutation : Prog RunSnapshot Exn Unit} {payload : Payload} {w : World} :
    wp (commit env faults mutation (some kind) fun _ => payload) w
      (fun _ w' => Adds kind payload w w') fun _ w' => Adds kind payload w w' := by
  rw [wp_commit]
  apply wp_mono (wp_trivial mutation)
  . intro _ s _
    have hsame : announced kind (stamped env (w.withSnapshot s)) = announced kind w :=
      announced_stamped _
    rw [wp_publish]
    cases heq : envelope? env (stamped env (w.withSnapshot s)) kind payload with
    | none => exact .inl hsame
    | some e =>
      obtain ⟨_, _, hevent, hpayload, _⟩ := envelope?_fields heq
      have hpublished : announced kind (published e (stamped env (w.withSnapshot s)).tick)
          = announced kind w := (announced_published e _).trans hsame
      have hjournaled : ∀ w1 : World, announced kind w1 = announced kind w →
          announced kind (journaled (some e) w1) = announced kind w ++ [e] := by
        intro w1 h1
        rw [← h1]
        unfold announced journaled
        rw [List.filterMap_append]
        simp [announced?, Option.filter, hevent]
      dsimp only
      split
      . exact .inl hsame
      . split
        . exact .inr ⟨e, hevent, hpayload, hjournaled _ hpublished⟩
        . split
          . exact .inl hpublished
          . exact .inr ⟨e, hevent, hpayload, hjournaled _ hpublished⟩
  . intro _ s _
    exact .inl rfl

-- The events that no other commit and no transition brings.
def isOutput : RunEventType → Bool
  | .prdDelta => true
  | .prdGenerated => true
  | .revisionPlanned => true
  | _ => false

theorem Minor.ne {mutation : Prog RunSnapshot Exn Unit} {event : Option RunEventType}
    (h : Minor mutation event) (hkind : isOutput kind = true) : event ≠ some kind := by
  cases h <;> cases kind <;> simp [isOutput] at hkind ⊢

theorem isTransit_ne {event : RunEventType} (h : isTransit event = true)
    (hkind : isOutput kind = true) : event ≠ kind := by
  rintro rfl
  cases event <;> simp [isOutput, isTransit] at h hkind

theorem unbilled_announced (hkind : isOutput kind = true) :
    Unbilled (announced kind) :=
  {
    congr := by
      intro w w' _ _ hjournal
      unfold announced
      rw [hjournal]
    keeps_commit := fun hminor => keeping_commit_announced (hminor.ne hkind)
    keeps_transition := fun htransit => keeping_transition_announced (isTransit_ne htransit hkind)
    keeps_billing := by
      intro _ _ _ _ _ hbilling
      apply keeping_commit_announced
      cases hbilling <;> cases kind <;> simp [isOutput] at hkind ⊢
  }

-- No stream ends the generation.
instance : Unbilled (announced .prdGenerated) :=
  unbilled_announced rfl

instance : Unstreamed (announced .prdGenerated) :=
  {
    (inferInstance : Unbilled (announced .prdGenerated)).toUnmoved with
    keeps_streaming := by
      intro _ _ _ _ _ hstreaming
      apply keeping_commit_announced
      cases hstreaming <;> simp
  }

end Announced

end Workflow

end AgenticPrd
