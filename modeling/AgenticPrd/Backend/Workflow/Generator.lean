import AgenticPrd.Backend.Workflow.Await

/-!
The generator node keeps the invariant. An attempt that raises leaves the node where a second one
can start, and `Generating` carries the bound on the streaming calls from one to the other.
-/

namespace AgenticPrd

namespace Workflow

open RunManager Prog

variable {env : Env} {origin w : World} {state : RunSnapshot} {plan : Option RevisionPlan}
  {attempt bound : Nat}

theorem Generating.steady {v : View} (h : Generating v state bound) : Steady v := by
  apply Steady.of_live h.stage h.live
  . simp
  . simp

theorem Generating.validIteration (h : Generating w.view state bound) (hw : Sound origin w) :
    ValidIteration state.currentIteration := by
  rw [h.iteration]
  exact hw.iteration

-- Where an attempt raises, `retryAttempt` can go on.
def Failing (origin : World) (state : RunSnapshot) (attempt : Nat) (exn : Exn) (w : World) : Prop :=
  Raised origin exn w ∧ Generating w.view state attempt

theorem Failing.of_view {w' : World} {exn : Exn} (h : Generating w.view state attempt)
    (hraised : Raised origin exn w') (hview : w'.view = w.view) : Failing origin state attempt exn w' := by
  refine ⟨hraised, ?_⟩
  rw [hview]
  exact h

theorem At.pending (h : At w.view .pending) : w.snapshot.text.Pending := by
  have hlength : w.snapshot.currentIteration = w.snapshot.versions.length + 1 := h.facts.1
  unfold TextView.Pending RunSnapshot.text
  rw [List.length_map]
  exact hlength

-- The frame belongs to an attempt.
structure InAttempt (state : RunSnapshot) (plan : Option RevisionPlan) (attempt : Nat)
    (frame : GeneratorFrame) : Prop where
  state : frame.state = state
  plan : frame.plan = plan
  attempt : frame.attempt = attempt

theorem InAttempt.refl (frame : GeneratorFrame) :
    InAttempt frame.state frame.plan frame.attempt frame :=
  ⟨rfl, rfl, rfl⟩

theorem InAttempt.trans {frame frame' : GeneratorFrame} (h : InAttempt state plan attempt frame)
    (h' : InAttempt frame.state frame.plan frame.attempt frame') :
    InAttempt state plan attempt frame' :=
  {
    state := h'.state.trans h.state
    plan := h'.plan.trans h.plan
    attempt := h'.attempt.trans h.attempt
  }

-- A mutation that looks at the cancel signal first.
theorem wp_commit_guarded {f : RunSnapshot → RunSnapshot} {event : Option RunEventType}
    {payload : RunSnapshot → Payload} {Q : RunSnapshot → World → Prop} {E : Exn → World → Prop}
    (hw : Sound origin w) (hcancel : w.cancelSignal = false)
    (hlaw : Lawful w (f w.snapshot) event (payload (f w.snapshot)))
    (hQ : ∀ w', Sound origin w' → w'.view = (w.mapSnapshot f).view → Q w'.snapshot w') :
    wp (commit env .none (do if w.cancelSignal then throw .workflowCancelled else modify f) event
      payload) w Q E := by
  simp only [hcancel]
  exact wp_commit_modify hw hlaw hQ

section Stream

variable {E : Exn → World → Prop} {frame : GeneratorFrame}

theorem wp_commit_appendDelta {delta : String} {Q : RunSnapshot → World → Prop} (hw : Sound origin w)
    (h : Generating w.view state attempt) (hattempt : 1 ≤ attempt) (hcancel : w.cancelSignal = false)
    (hQ : ∀ snapshot w', Sound origin w' → w'.view = w.view → Q snapshot w') :
    wp
      (commit env .none (appendDelta w.cancelSignal delta) (some .prdDelta) fun _ =>
        [
          ("version", .ofNat state.currentIteration),
          ("attempt", .ofNat attempt),
          ("delta", .str delta)
        ]) w Q E := by
  have hversion : state.currentIteration = w.snapshot.text.iteration := h.iteration
  have hcurrent : w.snapshot.text.attempt = attempt := h.attempt (by omega)
  have hstreams : w.view.loop.streams w.snapshot.text.iteration = attempt := h.streams
  apply wp_commit_guarded hw hcancel
  . apply Lawful.quiet
    . exact hw.iteration
    . rfl
    . rfl
    . simp [RunEventType.ending]
    . rw [hversion, ← hcurrent]
      apply TextMove.delta h.stage.pending
      . omega
      . rfl
    . rw [hversion]
      exact .streamed (h.live.open hcancel (by decide)) h.stage.pending
  . intro w1 hw1 hview1
    apply hQ _ w1 hw1
    rw [hview1]
    rfl

theorem wp_commitDelta_sound {delta : String} {Q : RunSnapshot → World → Prop} (hw : Sound origin w)
    (h : Generating w.view state attempt) (hattempt : 1 ≤ attempt)
    (hE : ∀ exn w', Raised origin exn w' → w'.view = w.view → E exn w')
    (hQ : ∀ snapshot w', Sound origin w' → w'.view = w.view → Q snapshot w') :
    wp (commitDelta env state attempt delta) w Q E := by
  unfold commitDelta
  rw [wp_bind]
  apply wp_checkCancel_sound hw h.steady hE
  intro hcancel w1 hw1 hview1
  have hcancel1 : w1.cancelSignal = false := by
    rw [← hcancel]
    exact congrArg View.cancelSignal hview1
  rw [← hview1] at h
  rw [wp_bind, wp_get]
  apply wp_commit_appendDelta hw1 h hattempt hcancel1
  intro snapshot w2 hw2 hview2
  exact hQ snapshot w2 hw2 (hview2.trans hview1)

theorem wp_awaitEvent_sound {Q : GeneratorFrame → World → Prop} (hw : Sound origin w)
    (hsteady : Steady w.view) (hE : ∀ exn w', Raised origin exn w' → w'.view = w.view → E exn w')
    (hQ : ∀ await w', Sound origin w' → w'.view = w.view → AwaitInv w'.view await →
      Q { frame with await } w') :
    wp (awaitEvent env frame) w Q E := by
  unfold awaitEvent
  rw [wp_bind]
  apply wp_monotonic_sound hw
  intro now w1 hw1 hview1
  split
  . apply hE _ w1 _ hview1
    apply Raised.of_view hw1 hview1 hsteady
    . simp [NotIllegal]
    . simp
  . rw [wp_bind]
    apply wp_beginAwait_sound hw1
    . rw [hview1]
      exact hsteady
    . simp
    . intro await w2 hw2 hview2 hawait
      apply hQ await w2 hw2 _ hawait
      rw [hview2, hview1]

theorem wp_flush_sound {now : ℚ} {Q : GeneratorFrame → World → Prop} (hw : Sound origin w)
    (h : Generating w.view frame.state frame.attempt) (hattempt : 1 ≤ frame.attempt)
    (hE : ∀ exn w', Raised origin exn w' → w'.view = w.view → E exn w')
    (hQ : ∀ frame' w', InAttempt frame.state frame.plan frame.attempt frame' → Sound origin w' →
      w'.view = w.view → Q frame' w') :
    wp (flush env frame now) w Q E := by
  unfold flush
  split
  . rw [wp_bind]
    apply wp_commitDelta_sound hw h hattempt hE
    intro _ w1 hw1 hview1
    exact hQ _ w1 ⟨rfl, rfl, rfl⟩ hw1 hview1
  . exact hQ frame w (.refl frame) hw rfl

theorem wp_noteUsage_sound {usage : Option TokenUsage} {Q : GeneratorFrame → World → Prop}
    (hw : Sound origin w)
    (hQ : ∀ frame' w', InAttempt frame.state frame.plan frame.attempt frame' → Sound origin w' →
      w'.view = w.view → Q frame' w') :
    wp (noteUsage usage frame) w Q E := by
  cases usage with
  | none => exact hQ frame w (.refl frame) hw rfl
  | some usage =>
    apply hQ
    . exact ⟨rfl, rfl, rfl⟩
    . exact hw.congr rfl rfl rfl rfl rfl rfl
    . rfl

theorem wp_consumeEvent_sound {event : ProviderTextEvent} {Q : GeneratorFrame → World → Prop}
    (hw : Sound origin w) (h : Generating w.view frame.state frame.attempt)
    (hattempt : 1 ≤ frame.attempt)
    (hE : ∀ exn w', Raised origin exn w' → w'.view = w.view → E exn w')
    (hQ : ∀ frame' w', InAttempt frame.state frame.plan frame.attempt frame' → Sound origin w' →
      w'.view = w.view → Q frame' w') :
    wp (consumeEvent env frame event) w Q E := by
  unfold consumeEvent
  dsimp only
  rw [wp_bind]
  apply wp_monotonic_sound hw
  intro now w1 hw1 hview1
  rw [wp_bind]
  apply wp_flush_sound hw1
  . rw [hview1]
    exact h
  . exact hattempt
  . intro exn w' hraised hview
    apply hE exn w' hraised
    rw [hview, hview1]
  . intro frame2 w2 hframe2 hw2 hview2
    rw [wp_bind]
    apply wp_noteUsage_sound hw2
    intro frame3 w3 hframe3 hw3 hview3
    have hframe : InAttempt frame.state frame.plan frame.attempt frame3 := hframe2.trans hframe3
    have hview : w3.view = w.view := by rw [hview3, hview2, hview1]
    split
    . exact hQ frame3 w3 hframe hw3 hview
    . split
      . exact hQ frame3 w3 hframe hw3 hview
      . exact hQ _ w3 (hframe.trans ⟨rfl, rfl, rfl⟩) hw3 hview

theorem wp_validatedPrd_sound {Q : String → World → Prop} (hw : Sound origin w) (hsteady : Steady w.view)
    (hE : ∀ exn w', Raised origin exn w' → w'.view = w.view → E exn w') (hQ : ∀ content, Q content w) :
    wp (validatedPrd frame) w Q E := by
  unfold validatedPrd
  split
  . apply hE _ w _ rfl
    apply Raised.of_view hw rfl hsteady
    . simp [NotIllegal]
    . simp
  . exact hQ _

-- The last text of an attempt, before the rest of its end.
theorem wp_lastDelta_sound {rest : Prog World Exn (String × TokenUsage)}
    {Q : String × TokenUsage → World → Prop} (hw : Sound origin w)
    (h : Generating w.view frame.state frame.attempt) (hattempt : 1 ≤ frame.attempt)
    (hE : ∀ exn w', Raised origin exn w' → w'.view = w.view → E exn w')
    (hrest : ∀ w', Sound origin w' → w'.view = w.view → wp rest w' Q E) :
    wp
      (if frame.buffer ≠ "" then do
        let _ ← commitDelta env frame.state frame.attempt frame.buffer
        rest
      else rest) w Q E := by
  rw [wp_ite]
  split
  . rw [wp_bind]
    apply wp_commitDelta_sound hw h hattempt hE
    intro _ w1 hw1 hview1
    exact hrest w1 hw1 hview1
  . exact hrest w hw rfl

theorem wp_endStream_sound {Q : String × TokenUsage → World → Prop} (hw : Sound origin w)
    (h : Generating w.view frame.state frame.attempt) (hattempt : 1 ≤ frame.attempt)
    (hE : ∀ exn w', Raised origin exn w' → w'.view = w.view → E exn w')
    (hQ : ∀ result w', Sound origin w' → w'.view = w.view → Q result w') :
    wp (endStream env frame) w Q E := by
  unfold endStream
  dsimp only
  apply wp_lastDelta_sound hw h hattempt hE
  intro w1 hw1 hview1
  have hsteady1 : Steady w1.view := by
    rw [hview1]
    exact h.steady
  have hE1 : ∀ exn w', Raised origin exn w' → w'.view = w1.view → E exn w' := by
    intro exn w' hraised hview
    apply hE exn w' hraised
    rw [hview, hview1]
  rw [wp_bind]
  apply wp_validatedPrd_sound hw1 hsteady1 hE1
  intro validated
  split
  . apply hE1 _ w1 _ rfl
    apply Raised.of_view hw1 rfl hsteady1
    . simp [NotIllegal]
    . simp
  . exact hQ _ w1 hw1 hview1

theorem wp_resumeStream_sound {answer : Answer (Option ProviderTextEvent)}
    {Q : GeneratorFrame ⊕ (String × TokenUsage) → World → Prop} (hw : Sound origin w)
    (h : Generating w.view frame.state frame.attempt) (hattempt : 1 ≤ frame.attempt)
    (hawait : AwaitInv w.view frame.await)
    (haccepts : frame.await.accepts w answer = true)
    (hE : ∀ exn w', Raised origin exn w' → w'.view = w.view → E exn w')
    (hsuspended : ∀ frame' w', InAttempt frame.state frame.plan frame.attempt frame' →
      Sound origin w' → w'.view = w.view → AwaitInv w'.view frame'.await → Q (.inl frame') w')
    (hreturned : ∀ result w', Sound origin w' → w'.view = w.view → Q (.inr result) w') :
    wp (resumeStream env frame answer) w Q E := by
  unfold resumeStream
  rw [wp_bind]
  apply wp_awaitResult_sound hw h.steady hE hawait haccepts
  intro event
  cases event with
  | none =>
    dsimp only
    rw [wp_bind]
    apply wp_endStream_sound hw h hattempt hE
    intro result w1 hw1 hview1
    exact hreturned result w1 hw1 hview1
  | some event =>
    dsimp only
    rw [wp_bind]
    apply wp_consumeEvent_sound hw h hattempt hE
    intro frame1 w1 hframe1 hw1 hview1
    rw [wp_bind]
    apply wp_awaitEvent_sound hw1
    . rw [hview1]
      exact h.steady
    . intro exn w' hraised hview
      apply hE exn w' hraised
      rw [hview, hview1]
    . intro await w2 hw2 hview2 hawait2
      rw [wp_pure]
      have hview : w2.view = w.view := by rw [hview2, hview1]
      have hframe2 : InAttempt frame.state frame.plan frame.attempt { frame1 with await } :=
        hframe1.trans ⟨rfl, rfl, rfl⟩
      exact hsuspended _ w2 hframe2 hw2 hview hawait2

end Stream

section Streams

-- The view after `begin_stream`, and after one more streaming call for a version.
def beginAttempt (attempt : Nat) (v : View) : View :=
  { v with loop := { v.loop with attempt } }

def countStream (iteration : Nat) (v : View) : View :=
  {
    v with
    loop := {
      v.loop with
      streams := fun i => v.loop.streams i + if iteration = i then 1 else 0
    }
  }

theorem called_streamPrd {idea : String} {audience constraints baseline : Option String}
    {language : String} :
    (w.called (.streamPrd idea audience constraints attempt plan baseline language)).view
      =
    countStream attempt w.view := by
  unfold World.view World.called countStream
  simp only [List.countP_append, List.countP_singleton, ProviderCall.isStreamOf, beq_iff_eq]

theorem Generating.streamed {v : View} (h : Generating v state bound) (hbound : bound + 1 ≤ 2) :
    Generating (countStream state.currentIteration (beginAttempt (bound + 1) v)) state
      (bound + 1) := by
  have hiteration := h.iteration
  have hstreams := h.streams
  have hshape := h.stage.shape
  exact {
    stage := {
      shape := {
        numbered := hshape.numbered
        bounded := hshape.bounded
        iteration_le := hshape.iteration_le
        max_le := hshape.max_le
        iteration := hshape.iteration
        earlier := hshape.earlier
        streams := by
          intro i
          have := hshape.streams i
          unfold countStream beginAttempt
          dsimp only
          split
          . next heq =>
            rw [← heq, hiteration]
            omega
          . omega
        streams_later := by
          intro i hi
          have hzero := hshape.streams_later i hi
          have hlt : v.loop.currentIteration < i := hi
          unfold countStream beginAttempt
          dsimp only
          rw [hzero, if_neg]
          omega
      }
      facts := h.stage.facts
      completed := h.stage.completed
      exhausted := h.stage.exhausted
    }
    live := h.live
    iteration := h.iteration
    streams := by
      unfold countStream beginAttempt
      dsimp only
      rw [if_pos hiteration, hstreams]
    attempt := by
      intro _
      rfl
    plan := h.plan
  }

end Streams

theorem Generating.beginAttempt_eq {v : View} (h : Generating v state attempt)
    (hattempt : attempt ≠ 0) : beginAttempt attempt v = v := by
  unfold beginAttempt
  rw [← h.attempt hattempt]

theorem Generating.unfailed (h : Generating w.view state bound) : w.snapshot.status ≠ .failed := by
  rw [← World.view_status]
  rcases h.live with ⟨_, hstatus⟩ | ⟨_, hstatus⟩
  . rw [hstatus]
    simp
  . intro hfailed
    rw [hfailed] at hstatus
    simp at hstatus

theorem wp_commitBeginStream_sound {Q : RunSnapshot → World → Prop} {E : Exn → World → Prop}
    (hw : Sound origin w) (h : Generating w.view state bound)
    (hQ : ∀ snapshot w', Sound origin w' → w'.view = beginAttempt (bound + 1) w.view →
      (bound = 0 → w'.snapshot.text.prd = "" ∧ w'.snapshot.text.attempt = 1) → Q snapshot w') :
    wp (commitBeginStream env state (bound + 1)) w Q E := by
  have hversion : state.currentIteration = w.snapshot.text.iteration := h.iteration
  have hstreams : w.view.loop.streams w.snapshot.text.iteration = bound := h.streams
  unfold commitBeginStream
  rw [wp_ite]
  split
  . next hlater =>
    have hcurrent : w.snapshot.text.attempt = bound := h.attempt (by omega)
    apply wp_commit_stamped hw
    rw [wp_modify]
    refine ⟨?_, ?_⟩
    . apply Lawful.quiet
      . exact hw.iteration
      . rfl
      . rfl
      . simp [RunEventType.ending]
      . rw [hversion]
        apply TextMove.reset h.stage.pending
        . omega
        . omega
        . rfl
      . rw [hversion]
        exact .reset h.unfailed h.stage.pending (by omega)
    . intro w' hw' hview _
      apply hQ _ w' hw' hview
      omega
  . next hfirst =>
    apply wp_commit_stamped hw
    rw [wp_modify]
    refine ⟨?_, ?_⟩
    . apply Lawful.quiet
      . exact hw.iteration
      . rfl
      . rfl
      . simp
      . apply TextMove.start
        . omega
        . have hone : bound + 1 = 1 := by omega
          rw [hone]
          rfl
      . have hone : bound + 1 = 1 := by omega
        rw [hone]
        exact .begun h.stage.pending
    . rintro w' hw' hview ⟨sequence, hstamped⟩
      apply hQ _ w' hw' hview
      intro hzero
      rw [hstamped.text, hzero]
      exact ⟨rfl, rfl⟩

theorem wp_openStream_sound {v : View} {Q : GeneratorFrame → World → Prop} (hw : Sound origin w)
    (h : Generating v state bound) (hbound : bound + 1 ≤ 2)
    (hview : w.view = beginAttempt (bound + 1) v)
    (hbegun : bound = 0 → w.snapshot.text.prd = "" ∧ w.snapshot.text.attempt = 1)
    (hQ : ∀ frame w', InAttempt state plan attempt frame → Sound origin w' →
      Generating w'.view state (bound + 1) → AwaitInv w'.view frame.await → Q frame w') :
    wp (openStream env state plan attempt) w Q (Failing origin state (bound + 1)) := by
  unfold openStream
  rw [wp_bind, wp_modify, wp_bind]
  let call := ProviderCall.streamPrd state.userIdea state.targetAudience state.userConstraints
    state.currentIteration plan (baselinePrd state) state.outputLanguage
  have hcalled : Sound origin (w.called call) := by
    apply hw.called
    intro hzero
    apply hbegun
    have hstreams := h.streams
    have hiteration : w.snapshot.text.iteration = v.loop.currentIteration :=
      congrArg (fun v => v.loop.currentIteration) hview
    rw [hiteration, hview] at hzero
    exact hstreams.symm.trans hzero
  have hgenerating : Generating (w.called call).view state (bound + 1) := by
    rw [called_streamPrd, hview]
    exact h.streamed hbound
  apply wp_monotonic_sound hcalled
  intro lastFlush w1 hw1 hview1
  rw [wp_bind]
  apply wp_monotonic_sound hw1
  intro now w2 hw2 hview2
  rw [wp_bind]
  apply wp_remainingRunSeconds_sound hw2
  intro remaining w3 hw3 hview3
  have hgenerating3 : Generating w3.view state (bound + 1) := by
    rw [hview3, hview2, hview1]
    exact hgenerating
  apply wp_awaitEvent_sound hw3 hgenerating3.steady
  . intro exn w' hraised hview
    exact Failing.of_view hgenerating3 hraised hview
  . intro await w4 hw4 hview4 hawait
    apply hQ
    . exact ⟨rfl, rfl, rfl⟩
    . exact hw4
    . rw [hview4]
      exact hgenerating3
    . exact hawait

theorem wp_attemptFailed_sound {exn : Exn} {Q : Unit → World → Prop}
    (hfailing : Failing origin state attempt exn w) (hattempt : 1 ≤ attempt)
    (hQ : attempt < 2 → ∀ w', Sound origin w' → Generating w'.view state attempt → Q () w') :
    wp (attemptFailed env state attempt exn) w Q (Raised origin) := by
  have hraised := hfailing.1
  have hgenerating := hfailing.2
  have hrest : ∀ w', Sound origin w' → w'.view = w.view →
      wp (if 2 ≤ attempt then throw exn else pure ()) w' Q (Raised origin) := by
    intro w' hw' hview
    rw [wp_ite]
    split
    . exact Raised.of_view hw' hview hraised.steady hraised.legal hraised.cancelled
    . next hlast =>
      apply hQ
      . omega
      . exact hw'
      . rw [hview]
        exact hgenerating
  unfold attemptFailed recordSeconds
  rw [wp_bind, wp_bind, wp_get, wp_bind]
  apply wp_monotonic_sound hraised.sound
  intro now w1 hw1 hview1
  rw [wp_pure, wp_bind, wp_get, wp_bind]
  apply wp_recordTiming_sound hw1 (hgenerating.validIteration hraised.sound) hattempt
  intro w2 hw2 hview2
  have hview : w2.view = w.view := by rw [hview2, hview1]
  rw [wp_bind, wp_get]
  dsimp only
  cases w2.record.usage with
  | none => exact hrest w2 hw2 hview
  | some usage =>
    dsimp only
    rw [wp_bind]
    apply wp_recordUsage_sound hw2
    intro w3 hw3 hview3
    apply hrest w3 hw3
    rw [hview3, hview]

-- The view after the version has been stored.
def addVersion (version : PRDVersion) (v : View) : View :=
  {
    v with
    loop := {
      v.loop with
      versions := v.loop.versions ++ [version]
      pendingRevisionPlan := none
    }
  }

theorem At.addVersion {v : View} {version : PRDVersion} (h : At v .pending)
    (hversion : version.version = v.loop.currentIteration) (hevaluation : version.evaluation = none) :
    At (addVersion version v) .fresh := by
  have hfacts := h.facts
  have hshape := h.shape
  have hiteration : v.loop.currentIteration = v.loop.versions.length + 1 := hfacts.1
  exact {
    shape := {
      numbered := by
        unfold Workflow.addVersion
        simp only [List.map_append, List.map_cons, List.map_nil, List.length_append,
          List.length_singleton]
        rw [hshape.numbered, List.range'_concat, hversion, hiteration, Nat.one_mul, Nat.add_comm 1]
      bounded := by
        have := hshape.iteration_le
        unfold Workflow.addVersion
        simp only [List.length_append, List.length_singleton]
        omega
      iteration_le := hshape.iteration_le
      max_le := hshape.max_le
      iteration := by
        left
        unfold Workflow.addVersion
        simp only [List.length_append, List.length_singleton]
        exact hiteration
      earlier := by
        unfold Workflow.addVersion
        dsimp only
        rw [List.dropLast_concat]
        exact hfacts.2
      streams := hshape.streams
      streams_later := hshape.streams_later
    }
    facts := by
      unfold Workflow.addVersion
      refine ⟨?_, version, ?_, hevaluation⟩
      . simp only [List.length_append, List.length_singleton]
        exact hiteration
      . simp
    completed := by
      have := h.completed
      simpa [Workflow.addVersion] using this
    exhausted := by
      have := h.exhausted
      simpa [Workflow.addVersion] using this
  }

theorem wp_commit_generated {version : PRDVersion} {content : String}
    {Q : RunSnapshot → World → Prop} {E : Exn → World → Prop} (hw : Sound origin w)
    (h : Generating w.view state attempt) (hattempt : 1 ≤ attempt) (hcancel : w.cancelSignal = false)
    (hversion : version.version = state.currentIteration) (hcontent : version.content = content)
    (hevaluation : version.evaluation = none)
    (hplan : version.revisionPlan = state.pendingRevisionPlan)
    (hQ : ∀ w', Sound origin w' → w'.view = addVersion version w.view → Q w'.snapshot w') :
    wp
      (commit env .none (finishGeneration w.cancelSignal version content attempt)
        (some .prdGenerated) fun _ =>
          [
            ("version", .ofNat version.version),
            ("attempt", .ofNat attempt),
            ("content", .str content)
          ]) w Q E := by
  have hiteration : version.version = w.snapshot.text.iteration := hversion.trans h.iteration
  apply wp_commit_guarded hw hcancel
  . apply Lawful.quiet
    . exact hw.iteration
    . rfl
    . rfl
    . simp [RunEventType.ending]
    . rw [hiteration]
      apply TextMove.generated
      . exact h.stage.pending
      . simp [RunSnapshot.text, hcontent]
    . rw [← hcontent]
      apply Change.generated
      . exact h.live.open hcancel (by decide)
      . exact hattempt
      . exact h.stage.facts.1
      . exact hiteration
      . exact hevaluation
      . rw [hplan]
        exact h.plan
  . intro w1 hw1 hview1
    apply hQ w1 hw1
    rw [← h.beginAttempt_eq (by omega), hview1]
    rfl

theorem wp_commitVersion_sound {content : String} {usage : TokenUsage} (hw : Sound origin w)
    (h : Generating w.view state attempt) (hplan : plan = state.pendingRevisionPlan)
    (hattempt : 1 ≤ attempt) :
    wp (commitVersion env state plan attempt content usage) w (Suspended origin) (Raised origin) := by
  have hvalid := h.validIteration hw
  unfold commitVersion recordSeconds
  rw [wp_bind]
  apply wp_checkCancel_sound hw h.steady
  . intro exn w' hraised _
    exact hraised
  intro hcancel w1 hw1 hview1
  rw [wp_bind, wp_bind, wp_get, wp_bind]
  apply wp_monotonic_sound hw1
  intro now w2 hw2 hview2
  rw [wp_pure, wp_bind]
  apply wp_utcNow_sound hw2
  intro utc w3 hw3 hview3
  have hview : w3.view = w.view := by rw [hview3, hview2, hview1]
  have hcancel3 : w3.cancelSignal = false := by
    rw [← hcancel]
    exact congrArg View.cancelSignal hview
  have hgenerating : Generating w3.view state attempt := by
    rw [hview]
    exact h
  obtain ⟨version, hsome, hversion, hcontent, hevaluation, hrevisionPlan⟩ :=
    PRDVersion.validate?_eq_some hvalid content utc plan usage
  rw [hsome]
  dsimp only
  rw [wp_bind, wp_get, wp_bind]
  apply wp_commit_generated hw3 hgenerating hattempt hcancel3 hversion hcontent hevaluation
  . rw [hrevisionPlan, hplan]
  intro w4 hw4 hview4
  rw [hview] at hview4
  rw [wp_bind]
  apply wp_recordUsage_sound hw4
  intro w5 hw5 hview5
  rw [wp_bind]
  apply wp_recordTiming_sound hw5
  . rw [hversion]
    exact hvalid
  . exact hattempt
  intro w6 hw6 hview6
  have hview6' : w6.view = addVersion version w.view := by rw [hview6, hview5, hview4]
  have hat : At w6.view .fresh := by
    rw [hview6']
    apply h.stage.addVersion
    . rw [hversion]
      exact h.iteration
    . exact hevaluation
  have hlive : Live [.generating, .pauseRequested] w6.view := by
    rw [hview6']
    exact h.live
  have hcancel6 : w6.cancelSignal = false := by
    rw [← hcancel]
    exact congrArg View.cancelSignal hview6'
  rw [wp_bind]
  apply wp_setStage_live hw6 hat hlive hcancel6 (by decide) rfl (by decide)
  intro w7 hw7 hat7 hlive7 _ _
  rw [wp_pure]
  refine { sound := hw7, pc := ⟨hat7, hlive7, ?_⟩ }
  intro role
  trivial

theorem wp_runAttempt_sound {body : Prog World Exn (GeneratorFrame ⊕ (String × TokenUsage))}
    {retry : Prog World Exn Pc} (hattempt : 1 ≤ attempt ∧ attempt ≤ 2)
    (hplan : plan = state.pendingRevisionPlan)
    (hbody : wp body w
      (fun result w' =>
        Sound origin w' ∧ Generating w'.view state attempt
          ∧
        ∀ frame, result = .inl frame →
          InAttempt state plan attempt frame ∧ AwaitInv w'.view frame.await)
      (Failing origin state attempt))
    (hretry : attempt < 2 → ∀ w', Sound origin w' → Generating w'.view state attempt →
      wp retry w' (Suspended origin) (Raised origin)) :
    wp (runAttempt env state plan attempt body retry) w (Suspended origin) (Raised origin) := by
  unfold runAttempt
  rw [wp_bind, wp_tryCatch, wp_bind]
  apply wp_mono hbody
  . intro result w1 h
    obtain ⟨hw1, hgenerating, hframe⟩ := h
    rw [wp_pure]
    cases result with
    | inl frame =>
      obtain ⟨hin, hawait⟩ := hframe frame rfl
      refine { sound := hw1, pc := ⟨?_, ?_, ?_, hawait⟩ }
      . rw [hin.state, hin.attempt]
        exact hgenerating
      . rw [hin.plan, hin.state]
        exact hplan
      . rw [hin.attempt]
        exact hattempt
    | inr result => exact wp_commitVersion_sound hw1 hgenerating hplan hattempt.1
  . intro exn w1 hfailing
    rw [wp_ite]
    split
    . rw [wp_bind]
      apply wp_attemptFailed_sound hfailing hattempt.1
      intro hlast w2 hw2 hgenerating
      exact hretry hlast w2 hw2 hgenerating
    . exact hfailing.1

theorem wp_startAttempt_sound {retry : Prog World Exn Pc} (hw : Sound origin w)
    (h : Generating w.view state bound) (hplan : plan = state.pendingRevisionPlan)
    (hbound : bound + 1 ≤ 2)
    (hretry : bound + 1 < 2 → ∀ w', Sound origin w' → Generating w'.view state (bound + 1) →
      wp retry w' (Suspended origin) (Raised origin)) :
    wp (startAttempt env state plan (bound + 1) retry) w (Suspended origin) (Raised origin) := by
  unfold startAttempt restartRecord
  rw [wp_bind, wp_bind]
  apply wp_monotonic_sound hw
  intro now w1 hw1 hview1
  rw [wp_modify]
  have hrecord : Sound origin { w1 with record := { started := now, usage := none } } :=
    hw1.congr rfl rfl rfl rfl rfl rfl
  rw [wp_bind]
  rw [← hview1] at h
  apply wp_commitBeginStream_sound hrecord h
  intro _ w2 hw2 hview2 hbegun
  apply wp_runAttempt_sound ⟨by omega, hbound⟩ hplan _ hretry
  rw [wp_bind]
  apply wp_openStream_sound hw2 h hbound hview2 hbegun
  intro frame w3 hin hw3 hgenerating3 hawait
  refine ⟨hw3, hgenerating3, ?_⟩
  intro frame' heq
  cases heq
  exact ⟨hin, hawait⟩

-- The rest of the loop after an attempt that failed and was not the last one.
theorem wp_retryAttempt_sound (hattempt : 1 ≤ attempt) (hlast : attempt < 2) (hw : Sound origin w)
    (h : Generating w.view state attempt) (hplan : plan = state.pendingRevisionPlan) :
    wp (retryAttempt env state plan attempt) w (Suspended origin) (Raised origin) := by
  have hone : attempt = 1 := by omega
  subst hone
  unfold retryAttempt
  rw [if_pos hlast]
  apply wp_startAttempt_sound hw h hplan (by omega)
  omega

theorem wp_generatorNode_sound (h : Suspended origin .toGenerator w) :
    wp (generatorNode env) w (Suspended origin) (Raised origin) := by
  have hw := h.sound
  obtain ⟨hat, hlive, hstreams⟩ := h.pc
  have hsteady : Steady w.view := by
    apply Steady.of_live hat hlive
    . simp
    . simp
  unfold generatorNode restartRecord
  rw [wp_bind]
  apply wp_checkCancel_sound hw hsteady
  . intro exn w' hraised _
    exact hraised
  intro hcancel w1 hw1 hview1
  have hcancel1 : w1.cancelSignal = false := by
    rw [← hcancel]
    exact congrArg View.cancelSignal hview1
  rw [← hview1] at hat hlive hstreams
  rw [wp_bind]
  apply wp_setStage_live hw1 hat hlive hcancel1 (by decide) rfl (by decide)
  intro w2 hw2 hat2 hlive2 hcancel2 hloop2
  rw [← hloop2] at hstreams
  have hcalls : w2.snapshot.Calls .generator := hat2.facts.1
  rw [wp_bind]
  apply wp_markNode_sound hw2 (hlive2.open hcancel2 (by decide)) hcalls
  intro w3 hw3 hview3 _
  dsimp only
  rw [wp_bind, wp_bind]
  apply wp_monotonic_sound hw3
  intro now w4 hw4 hview4
  rw [wp_modify]
  have hview : w4.view = w2.view := by rw [hview4, hview3]
  have hrecord : Sound origin { w4 with record := { started := now, usage := none } } :=
    hw4.congr rfl rfl rfl rfl rfl rfl
  have hgenerating : Generating w4.view w2.snapshot 0 := by
    rw [hview]
    exact {
      stage := hat2
      live := hlive2
      iteration := rfl
      streams := hstreams
      attempt := by simp
      plan := rfl
    }
  apply wp_startAttempt_sound hrecord hgenerating rfl (by omega)
  intro hlast w5 hw5 hgenerating5
  exact wp_retryAttempt_sound (by omega) hlast hw5 hgenerating5 rfl

theorem wp_generatorWake_sound {frame : GeneratorFrame}
    {answer : Answer (Option ProviderTextEvent)} (h : Suspended origin (.generating frame) w)
    (haccepts : frame.await.accepts w answer = true) :
    wp (generatorWake env frame answer) w (Suspended origin) (Raised origin) := by
  have hw := h.sound
  obtain ⟨hgenerating, hplan, hattempt, hawait⟩ := h.pc
  unfold generatorWake
  apply wp_runAttempt_sound hattempt hplan
  . apply wp_resumeStream_sound hw hgenerating hattempt.1 hawait haccepts
    . intro exn w' hraised hview
      exact Failing.of_view hgenerating hraised hview
    . intro frame' w' hin hw' hview hawait'
      refine ⟨hw', ?_, ?_⟩
      . rw [hview]
        exact hgenerating
      . intro frame'' heq
        cases heq
        exact ⟨hin, hawait'⟩
    . intro result w' hw' hview
      refine ⟨hw', ?_, ?_⟩
      . rw [hview]
        exact hgenerating
      . intro frame'' heq
        contradiction
  . intro hlast w' hw' hgenerating'
    exact wp_retryAttempt_sound hattempt.1 hlast hw' hgenerating' hplan

end Workflow

end AgenticPrd
