import AgenticPrd.Backend.DocumentAcceptance
import AgenticPrd.Backend.Workflow.Baseline
import AgenticPrd.Backend.Workflow.Flow

/-!
What the streams of a run have sent, and what the run has made of it: the deltas of an attempt, and
the version that it ends with.
-/

namespace AgenticPrd

-- An event that a stream has sent, with the version and the attempt that it was sent to.
structure Received where
  version : Nat
  attempt : Nat
  event : ProviderTextEvent

-- What has been sent to an attempt, in its order.
def sentTo (version attempt : Nat) (received : List Received) : List ProviderTextEvent :=
  (received.filter fun r => r.version = version ∧ r.attempt = attempt).map Received.event

def rawText (sent : List ProviderTextEvent) : String :=
  String.join (sent.map ProviderTextEvent.delta)

def reportedReason (sent : List ProviderTextEvent) : Option String :=
  sent.foldl Compatible.noteReason none

namespace Workflow

open RunManager Prog PrdDocument Transition

variable {env : Env} {origin w w' : World} {frame frame' : GeneratorFrame} {state : RunSnapshot}
  {plan : Option RevisionPlan} {attempt : Nat}

section Deltas

theorem announced_eq (kind : RunEventType) (w : World) :
    announced kind w = (events w.journal).filter fun e => e.event = kind := by
  unfold announced announced? events
  rw [List.filter_filterMap]

theorem streamedText_announced {version attempt : ℚ}
    (h : announced .prdDelta w' = announced .prdDelta w) :
    streamedText version attempt (events w'.journal) = streamedText version attempt (events w.journal) := by
  have hdeltas : ∀ log : List RunEvent, log.filter (fun e => e.IsDelta version attempt)
      = (log.filter fun e => e.event = .prdDelta).filter fun e => e.IsDelta version attempt := by
    intro log
    rw [List.filter_filter]
    apply List.filter_congr
    intro e _
    by_cases hdelta : e.IsDelta version attempt
    . simp [hdelta, hdelta.1]
    . simp [hdelta]
  rw [announced_eq, announced_eq] at h
  unfold streamedText
  rw [hdeltas, h, ← hdeltas]

-- `current_prd` is what the attempt has streamed.
theorem Generating.streamedText (hw : Sound origin w) (h : Generating w.view state attempt)
    (hattempt : 1 ≤ attempt) :
    AgenticPrd.streamedText state.currentIteration attempt (events w.journal)
      =
    w.snapshot.currentPrd := by
  obtain ⟨telling, htold, hholds⟩ := hw.told
  have hpending : w.snapshot.text.Pending := h.stage.pending
  have hversion : state.currentIteration = telling.version := by
    rw [h.iteration, hholds.version]
    exact hpending
  have hcurrent : w.snapshot.text.attempt = attempt := h.attempt (by omega)
  cases hstream : telling.stream with
  | some stream =>
    obtain ⟨_, hsame, htext, _⟩ := hholds.matches_text stream hstream
    rw [hversion, ← hcurrent, hsame, ← htold.text stream hstream, ← htext]
    rfl
  | none =>
    have hstreams : 1 ≤ w.view.loop.streams w.snapshot.text.iteration := by
      have := h.streams
      change w.view.loop.streams w.view.loop.currentIteration ≥ 1
      omega
    obtain ⟨hempty, _⟩ := hholds.begun hstream hstreams hpending
    have hprd : w.snapshot.currentPrd = "" := hempty
    rw [hprd, streamedText_eq_empty]
    intro e he hdelta
    have hbound := htold.bounded he hdelta
    rw [hversion, hstream] at hbound
    simp at hbound

end Deltas

section Generator

/--
Nothing has been generated, or the version of the attempt that `frame` is about: its document is
what the validation makes of all that has been sent.
-/
inductive Generates (frame : GeneratorFrame) (answer : Answer (Option ProviderTextEvent))
    (w w' : World) : Prop where
  | nothing (h : announced .prdGenerated w' = announced .prdGenerated w)
  | version {e : RunEvent} {content : String} (hanswer : answer = .returned none)
    (hannounced : announced .prdGenerated w' = announced .prdGenerated w ++ [e])
    (hpayload : e.payload = generatedPayload frame.state.currentIteration frame.attempt content)
    (hvalid : validateGeneratedPrd frame.content frame.finishReason = .ok content)
    (htext :
      streamedText frame.state.currentIteration frame.attempt (events w'.journal) = frame.content)

theorem wp_commitVersion_adds {content : String} {usage : TokenUsage} :
    wp (commitVersion env state plan attempt content usage) w
      (fun _ w' =>
        Adds .prdGenerated (generatedPayload state.currentIteration attempt content) w w')
      fun _ w' =>
        Adds .prdGenerated (generatedPayload state.currentIteration attempt content) w w' := by
  have hkeep : ∀ {w1 w2 : World},
      Adds .prdGenerated (generatedPayload state.currentIteration attempt content) w w1 →
        announced .prdGenerated w2 = announced .prdGenerated w1 →
          Adds .prdGenerated (generatedPayload state.currentIteration attempt content) w w2 := by
    intro w1 w2 h1 h2
    unfold Adds
    rw [h2]
    exact h1
  unfold commitVersion
  rw [wp_bind]
  apply wp_mono ((keeping_checkCancel : Keeping (announced .prdGenerated) _) w)
  . intro _ w1 h1
    rw [wp_bind]
    apply wp_mono ((keeping_recordSeconds : Keeping (announced .prdGenerated) _) w1)
    . intro elapsed w2 h2
      rw [wp_bind]
      apply wp_mono ((keeping_utcNow : Keeping (announced .prdGenerated) _) w2)
      . intro now w3 h3
        have h3 : announced .prdGenerated w3 = announced .prdGenerated w := h3.trans (h2.trans h1)
        split
        . exact .inl h3
        . next version hversion =>
          have hnumber : version.version = state.currentIteration := by
            unfold PRDVersion.validate? at hversion
            split at hversion
            . cases hversion
              rfl
            . contradiction
          rw [wp_bind, wp_get, wp_bind, hnumber]
          apply wp_mono wp_commit_adds
          . intro _ w4 h4
            have h4 : Adds .prdGenerated
                (generatedPayload state.currentIteration attempt content) w w4 := by
              unfold Adds
              rw [← h3]
              exact h4
            have hrest : Keeping (announced .prdGenerated) (do
                let _ ← recordUsage env .generator usage
                let _ ← recordTiming env .generator state.currentIteration attempt elapsed true
                  (some usage)
                let _ ← setStage env .reviewing
                return Pc.reviewing fun _ => .ready) := by
              apply Keeping.bind keeping_recordUsage
              intro _
              apply Keeping.bind keeping_recordTiming
              intro _
              apply Keeping.bind keeping_setStage
              intro _
              exact .pure _
            apply wp_mono (hrest w4)
            . intro _ _ h5
              exact hkeep h4 h5
            . intro _ _ h5
              exact hkeep h4 h5
          . intro _ w4 h4
            unfold Adds
            rw [← h3]
            exact h4
      . intro _ w3 h3
        exact .inl (h3.trans (h2.trans h1))
    . intro _ w2 h2
      exact .inl (h2.trans h1)
  . intro _ w1 h1
    exact .inl h1

theorem Generates.of_adds {answer : Answer (Option ProviderTextEvent)} {content : String}
    {w1 : World} (hanswer : answer = .returned none)
    (h1 : announced .prdGenerated w1 = announced .prdGenerated w)
    (hadds : Adds .prdGenerated
      (generatedPayload frame.state.currentIteration frame.attempt content) w1 w')
    (hdeltas : announced .prdDelta w' = announced .prdDelta w1)
    (hvalid : validateGeneratedPrd frame.content frame.finishReason = .ok content)
    (htext :
      streamedText frame.state.currentIteration frame.attempt (events w1.journal) = frame.content) :
    Generates frame answer w w' := by
  rcases hadds with hnothing | ⟨e, _, hpayload, hannounced⟩
  . exact .nothing (hnothing.trans h1)
  . rw [h1] at hannounced
    refine .version hanswer hannounced hpayload hvalid ?_
    rw [streamedText_announced hdeltas]
    exact htext

-- A stream that has just been opened for the iteration, by the attempt `least` or a later one.
structure Fresh (iteration least : Nat) (frame : GeneratorFrame) (w' : World) : Prop where
  iteration : frame.state.currentIteration = iteration
  attempt : least ≤ frame.attempt
  content : frame.content = ""
  buffer : frame.buffer = ""
  finishReason : frame.finishReason = none
  prd : w'.snapshot.currentPrd = ""

-- Nothing has been generated, and a stream that the node waits for has just been opened.
structure Started (iteration least : Nat) (w : World) (pc : Pc) (w' : World) : Prop where
  quiet : announced .prdGenerated w' = announced .prdGenerated w
  fresh : ∀ frame, pc = .generating frame → Fresh iteration least frame w'

theorem wp_commitBeginStream_prd :
    wp (commitBeginStream env state attempt) w (fun _ w' => w'.snapshot.currentPrd = "")
      fun _ _ => True := by
  unfold commitBeginStream
  rw [wp_ite]
  split
  . apply wp_commit_part (P := fun prd => prd = "") stampless_currentPrd
    rfl
  . apply wp_commit_part (P := fun prd => prd = "") stampless_currentPrd
    rfl

theorem wp_startAttempt_started {iteration least : Nat} {retry : Prog World Exn Pc} {w1 : World}
    (hiteration : state.currentIteration = iteration) (hleast : least ≤ attempt)
    (h1 : announced .prdGenerated w1 = announced .prdGenerated w)
    (hretry : ∀ w', announced .prdGenerated w' = announced .prdGenerated w →
      wp retry w' (Started iteration least w)
        fun _ w' => announced .prdGenerated w' = announced .prdGenerated w) :
    wp (startAttempt env state plan attempt retry) w1 (Started iteration least w)
      fun _ w' => announced .prdGenerated w' = announced .prdGenerated w := by
  unfold startAttempt
  rw [wp_bind]
  apply wp_mono ((keeping_restartRecord : Keeping (announced .prdGenerated) _) w1)
  . intro _ w2 h2
    rw [wp_bind]
    apply wp_mono (wp_and ((keeping_commitBeginStream : Keeping (announced .prdGenerated) _) w2)
      wp_commitBeginStream_prd)
    . rintro _ w3 ⟨h3, hprd⟩
      have h3 : announced .prdGenerated w3 = announced .prdGenerated w := h3.trans (h2.trans h1)
      unfold runAttempt
      rw [wp_bind, wp_tryCatch, wp_bind, wp_bind]
      apply wp_mono (wp_and
        ((keeping_openStream fun _ => rfl : Keeping (announced .prdGenerated) _) w3)
        wp_openStream_opened)
      . rintro opened w4 ⟨h4, hopened, hsnapshot⟩
        rw [wp_pure, wp_pure]
        refine ⟨h4.trans h3, ?_⟩
        rintro _ ⟨⟩
        exact {
          iteration := by
            rw [hopened.state]
            exact hiteration
          attempt := by
            rw [hopened.attempt]
            exact hleast
          content := hopened.content
          buffer := hopened.buffer
          finishReason := hopened.finishReason
          prd := by
            rw [hsnapshot]
            exact hprd
        }
      . rintro exn w4 ⟨h4, _⟩
        have h4 : announced .prdGenerated w4 = announced .prdGenerated w := h4.trans h3
        rw [wp_ite]
        split
        . rw [wp_bind]
          apply wp_mono ((keeping_attemptFailed : Keeping (announced .prdGenerated) _) w4)
          . intro _ w5 h5
            exact hretry w5 (h5.trans h4)
          . intro _ w5 h5
            exact h5.trans h4
        . exact h4
    . rintro _ w3 ⟨h3, _⟩
      exact h3.trans (h2.trans h1)
  . intro _ w2 h2
    exact h2.trans h1

theorem wp_retryAttempt_started {iteration : Nat} {w1 : World}
    (hiteration : state.currentIteration = iteration)
    (h1 : announced .prdGenerated w1 = announced .prdGenerated w) :
    wp (retryAttempt env state plan attempt) w1 (Started iteration (attempt + 1) w)
      fun _ w' => announced .prdGenerated w' = announced .prdGenerated w := by
  unfold retryAttempt
  split
  . next hlast =>
    apply wp_startAttempt_started hiteration (by omega) h1
    intro w2 h2
    exact h2
  . exact h1

theorem wp_generatorNode_started :
    wp (generatorNode env) w (Started w.snapshot.currentIteration 1 w)
      fun _ w' => announced .prdGenerated w' = announced .prdGenerated w := by
  unfold generatorNode
  rw [wp_bind]
  apply wp_mono (((keeping_checkCancel : Keeping World.grounds _).prod
    (keeping_checkCancel : Keeping (announced .prdGenerated) _)) w)
  . intro _ w1 h1
    rw [wp_bind]
    apply wp_mono (wp_and (((keeping_setStage : Keeping World.grounds _).prod
      (keeping_setStage : Keeping (announced .prdGenerated) _)) w1) wp_setStage_returns)
    . rintro state w2 ⟨h2, hstate⟩
      obtain ⟨hgrounds, h2⟩ := Prod.mk.inj (h2.trans h1)
      have hiteration : state.currentIteration = w.snapshot.currentIteration := by
        rw [hstate]
        exact congrArg (fun grounds => grounds.1.currentIteration) hgrounds
      rw [wp_bind]
      apply wp_mono ((keeping_markNode : Keeping (announced .prdGenerated) _) w2)
      . intro _ w3 h3
        dsimp only
        rw [wp_bind]
        apply wp_mono ((keeping_restartRecord : Keeping (announced .prdGenerated) _) w3)
        . intro _ w4 h4
          apply wp_startAttempt_started hiteration (Nat.le_refl 1) (h4.trans (h3.trans h2))
          intro w5 h5
          apply wp_mono (wp_retryAttempt_started hiteration h5)
          . intro pc w6 h6
            refine ⟨h6.quiet, ?_⟩
            intro frame hframe
            have hfresh := h6.fresh frame hframe
            exact { hfresh with attempt := (Nat.le_succ 1).trans hfresh.attempt }
          . intro _ _ h6
            exact h6
        . intro _ w4 h4
          exact h4.trans (h3.trans h2)
      . intro _ w3 h3
        exact h3.trans h2
    . rintro _ w2 ⟨h2, _⟩
      exact (Prod.mk.inj (h2.trans h1)).2
  . intro _ w1 h1
    exact (Prod.mk.inj h1).2

-- The attempt goes on with one more event, or the next one has started.
structure Wakes (frame : GeneratorFrame) (answer : Answer (Option ProviderTextEvent)) (w : World)
    (pc : Pc) (w' : World) : Prop where
  generates : Generates frame answer w w'
  next :
    ∀ frame', pc = .generating frame' →
      (∃ event, answer = .returned (some event)
          ∧ Fed frame w.snapshot.currentPrd event frame' w'.snapshot.currentPrd)
        ∨
      Fresh frame.state.currentIteration (frame.attempt + 1) frame' w'

theorem wp_generatorWake_wakes {answer : Answer (Option ProviderTextEvent)}
    (h : Suspended origin (.generating frame) w) (haccepts : frame.await.accepts w answer = true)
    (hheld : w.snapshot.currentPrd ++ frame.buffer = frame.content) :
    wp (generatorWake env frame answer) w (Wakes frame answer w)
      fun _ w' => Generates frame answer w w' := by
  obtain ⟨hgenerating, _, hattempt, hawait⟩ := h.pc
  have hsound : wp (resumeStream env frame answer) w
      (fun _ w' => Sound origin w' ∧ w'.view = w.view) fun _ _ => True := by
    apply wp_resumeStream_sound h.sound hgenerating hattempt.1 hawait haccepts
    . intro _ _ _ _
      trivial
    . intro _ w1 _ hw1 hview _
      exact ⟨hw1, hview⟩
    . intro _ w1 hw1 hview
      exact ⟨hw1, hview⟩
  unfold generatorWake runAttempt
  rw [wp_bind, wp_tryCatch, wp_bind]
  apply wp_mono (wp_and ((keeping_resumeStream : Keeping (announced .prdGenerated) _) w)
    (wp_and wp_resumeStream_resumed hsound))
  . rintro result w1 ⟨h1, hresumed, hw1, hview⟩
    rw [wp_pure]
    cases result with
    | inl frame' =>
      refine ⟨.nothing h1, ?_⟩
      rintro _ ⟨⟩
      exact .inl hresumed
    | inr result =>
      obtain ⟨hanswer, hprd, hvalid⟩ := hresumed
      rw [← hview] at hgenerating
      have htext := hgenerating.streamedText hw1 hattempt.1
      rw [hprd, hheld] at htext
      have hdeltas : Keeping (announced .prdDelta)
          (commitVersion env frame.state frame.plan frame.attempt result.1 result.2) := by
        have hunbilled : Unbilled (announced .prdDelta) := unbilled_announced rfl
        apply keeping_commitVersion
        intro _ _ _ _
        apply keeping_commit_announced
        simp
      apply wp_mono (wp_and wp_commitVersion_adds (wp_and (hdeltas w1) (goes_commitVersion w1)))
      . rintro pc w2 ⟨hadds, hdeltas, hplace⟩
        refine ⟨.of_adds hanswer h1 hadds hdeltas hvalid htext, ?_⟩
        rintro frame' rfl
        simp [place] at hplace
      . rintro _ w2 ⟨hadds, hdeltas, _⟩
        exact .of_adds hanswer h1 hadds hdeltas hvalid htext
  . rintro exn w1 ⟨h1, _⟩
    rw [wp_ite]
    split
    . rw [wp_bind]
      apply wp_mono ((keeping_attemptFailed : Keeping (announced .prdGenerated) _) w1)
      . intro _ w2 h2
        apply wp_mono (wp_retryAttempt_started rfl (h2.trans h1))
        . intro pc w3 h3
          exact ⟨.nothing h3.quiet, fun frame' hframe => .inr (h3.fresh frame' hframe)⟩
        . intro _ w3 h3
          exact .nothing h3
      . intro _ w2 h2
        exact .nothing (h2.trans h1)
    . exact .nothing h1

end Generator

section Step

variable {wenv : WorkflowEnv} {c c' : Config} {label : Label} {received : List Received}

-- What a step takes from the stream that the node waits for.
def receives (c : Config) (label : Label) (_ : Config) : List Received :=
  match c.pc, label with
  | .generating frame, .generatorWake (.returned (some event)) =>
    [{ version := frame.state.currentIteration, attempt := frame.attempt, event }]
  | _, _ => []

theorem mem_receives {r : Received} (h : r ∈ receives c label c') :
    ∃ frame, c.pc = .generating frame ∧ r.version = frame.state.currentIteration
      ∧ r.attempt = frame.attempt := by
  unfold receives at h
  split at h
  . next frame event hpc =>
    rw [List.mem_singleton] at h
    subst h
    exact ⟨frame, hpc, rfl, rfl⟩
  . contradiction

theorem sentTo_append (version attempt : Nat) (received more : List Received) :
    sentTo version attempt (received ++ more)
      =
    sentTo version attempt received ++ sentTo version attempt more := by
  unfold sentTo
  rw [List.filter_append, List.map_append]

theorem sentTo_eq_nil {version attempt : Nat}
    (h : ∀ r ∈ received, r.version = version → r.attempt ≠ attempt) :
    sentTo version attempt received = [] := by
  unfold sentTo
  rw [List.map_eq_nil_iff, List.filter_eq_nil_iff]
  intro r hr
  simpa using h r hr

theorem sentTo_receives {event : ProviderTextEvent} (hpc : c.pc = .generating frame) :
    sentTo frame.state.currentIteration frame.attempt
        (received ++ receives c (.generatorWake (.returned (some event))) c')
      =
    sentTo frame.state.currentIteration frame.attempt received ++ [event] := by
  rw [sentTo_append]
  unfold receives sentTo
  rw [hpc]
  simp

theorem rawText_concat (sent : List ProviderTextEvent) (event : ProviderTextEvent) :
    rawText (sent ++ [event]) = rawText sent ++ event.delta := by
  unfold rawText
  rw [List.map_append]
  simp [String.join]

theorem reportedReason_concat (sent : List ProviderTextEvent) (event : ProviderTextEvent) :
    reportedReason (sent ++ [event]) = Compatible.noteReason (reportedReason sent) event := by
  unfold reportedReason
  rw [List.foldl_append]
  rfl

-- The node holds what has been sent to its attempt, and `current_prd` all of it but the buffer.
structure Holding (received : List Received) (w : World) (frame : GeneratorFrame) : Prop where
  content :
    frame.content = rawText (sentTo frame.state.currentIteration frame.attempt received)
  finishReason :
    frame.finishReason = reportedReason (sentTo frame.state.currentIteration frame.attempt received)
  text : w.snapshot.currentPrd ++ frame.buffer = frame.content

/--
The event ends an attempt whose deltas make up all that has been sent to it, and its document is what
the validation makes of that.
-/
def Exact (received : List Received) (w : World) (e : RunEvent) : Prop :=
  ∃ version attempt content,
    e.payload = generatedPayload version attempt content
      ∧
    streamedText version attempt (events w.journal) = rawText (sentTo version attempt received)
      ∧
    validateGeneratedPrd (rawText (sentTo version attempt received))
        (reportedReason (sentTo version attempt received))
      = .ok content

structure Transcribes (received : List Received) (c : Config) : Prop where
  held : ∀ frame, c.pc = .generating frame → Holding received c.world frame
  counted : ∀ r ∈ received, r.attempt ≤ c.world.view.loop.streams r.version
  exact : ∀ e ∈ announced .prdGenerated c.world, Exact received c.world e

theorem runTask_started {iteration least : Nat} {program : Prog World Exn Pc}
    (h : wp program w (Started iteration least w)
      fun _ w' => announced .prdGenerated w' = announced .prdGenerated w) :
    Started iteration least w (runTask env program w).pc (runTask env program w).world := by
  cases runTask_cases (announced .prdGenerated) h with
  | inl hstarted => exact hstarted
  | inr hfinished =>
    obtain ⟨w1, exn, h1, hsame, hpc⟩ := hfinished
    refine ⟨hsame.trans h1, ?_⟩
    intro frame hframe
    rw [hpc] at hframe
    contradiction

theorem Generates.congr {answer : Answer (Option ProviderTextEvent)} {w1 : World}
    (h : Generates frame answer w w1)
    (hgenerated : announced .prdGenerated w' = announced .prdGenerated w1)
    (hdeltas : announced .prdDelta w' = announced .prdDelta w1) :
    Generates frame answer w w' := by
  cases h with
  | nothing h1 => exact .nothing (hgenerated.trans h1)
  | version hanswer hannounced hpayload hvalid htext =>
    refine .version hanswer (hgenerated.trans hannounced) hpayload hvalid ?_
    rw [streamedText_announced hdeltas]
    exact htext

theorem runTask_wakes {answer : Answer (Option ProviderTextEvent)} {program : Prog World Exn Pc}
    (h : wp program w (Wakes frame answer w) fun _ w' => Generates frame answer w w') :
    Wakes frame answer w (runTask env program w).pc (runTask env program w).world := by
  have hboth : Unmoved fun w => (announced .prdGenerated w, announced .prdDelta w) :=
    .prod (inferInstance : Unbilled (announced .prdGenerated)).toUnmoved
      (unbilled_announced rfl).toUnmoved
  cases runTask_cases (fun w => (announced .prdGenerated w, announced .prdDelta w)) h with
  | inl hwakes => exact hwakes
  | inr hfinished =>
    obtain ⟨w1, exn, h1, hsame, hpc⟩ := hfinished
    obtain ⟨hgenerated, hdeltas⟩ := Prod.mk.inj hsame
    refine ⟨h1.congr hgenerated hdeltas, ?_⟩
    intro frame' hframe'
    rw [hpc] at hframe'
    contradiction

-- What a step does where the node generates.
theorem step_wakes (hinv : Inv c) (hpc : c.pc = .generating frame)
    (hheld : c.world.snapshot.currentPrd ++ frame.buffer = frame.content)
    (hlabel : label.isRequest = false) (hstep : step wenv c label = some c') :
    ∃ answer, label = .generatorWake answer ∧ Wakes frame answer c.world c'.pc c'.world := by
  have htask := step_stepTask hlabel hstep
  have hsuspended : Suspended c.world (.generating frame) c.world := by
    rw [← hpc]
    exact hinv
  rw [hpc] at htask
  cases label <;> try contradiction
  next answer =>
    dsimp only [stepTask] at htask
    split at htask
    . next haccepts =>
      cases htask
      exact ⟨answer, rfl, runTask_wakes (wp_generatorWake_wakes hsuspended haccepts hheld)⟩
    . contradiction

theorem step_started (hpc : c.pc = .toGenerator) (hlabel : label.isRequest = false)
    (hstep : step wenv c label = some c') :
    Started c.world.snapshot.currentIteration 1 c.world c'.pc c'.world := by
  have htask := step_stepTask hlabel hstep
  rw [hpc] at htask
  cases label <;> try contradiction
  cases htask
  exact runTask_started wp_generatorNode_started

-- Everywhere else nothing is generated.
theorem step_generated (hpc : ¬(label.isRequest = false ∧ place c.pc = .generating))
    (hstep : step wenv c label = some c') :
    announced .prdGenerated c'.world = announced .prdGenerated c.world := by
  cases hlabel : label.isRequest with
  | true =>
    apply step_request_keeps hlabel _ hstep
    intro userOverride payload
    apply keeping_commit_announced
    simp
  | false =>
    rw [hlabel] at hpc
    simp only [true_and] at hpc
    by_cases hstart : place c.pc = .toGenerator
    . have hpc' : c.pc = .toGenerator := by
        cases hplace : c.pc <;> simp [hplace, place] at hstart ⊢
      exact (step_started hpc' hlabel hstep).quiet
    . apply stepTask_keeps ⟨hstart, hpc⟩ (fun _ _ _ => rfl) (fun _ _ _ _ => rfl) (fun _ _ _ => rfl)
        (fun _ _ _ => rfl) _ _ (step_stepTask hlabel hstep)
      . intro _ _ _ _
        apply keeping_commit_announced
        simp
      . intro _ _ _
        apply keeping_commit_announced
        simp

section Run

variable {runId : RunId} {request : CreateRunRequest} {outputLanguage : String} {bufferSize : Nat}

theorem streams_eq (w : World) (i : Nat) :
    w.view.loop.streams i = w.streamed.countP fun call => call.1 = i := by
  have hcalls : w.view.loop.streams i = w.calls.countP (ProviderCall.isStreamOf i) := rfl
  rw [hcalls]
  unfold World.streamed
  rw [List.countP_filterMap]
  apply List.countP_congr
  intro call _
  cases call <;> simp [ProviderCall.isStreamOf, ProviderCall.streamed?]

theorem Reachable.streams_le (h : Reachable wenv runId request outputLanguage bufferSize c)
    (hstep : step wenv c label = some c') (i : Nat) :
    c.world.view.loop.streams i ≤ c'.world.view.loop.streams i := by
  rw [streams_eq, streams_eq]
  rcases (step_draws h.based.1 hstep).2 with hsame | ⟨_, n, hmore⟩
  . rw [hsame]
  . rw [hmore, List.countP_append]
    omega

theorem Inv.generating (h : Inv c) (hpc : c.pc = .generating frame) :
    Generating c.world.view frame.state frame.attempt ∧ 1 ≤ frame.attempt := by
  have hgenerating := h.pc
  rw [hpc] at hgenerating
  exact ⟨hgenerating.1, hgenerating.2.2.1.1⟩

-- What the step receives belongs to the version to come, and to the attempt that the node is in.
theorem Inv.receives (h : Inv c) {r : Received} (hr : r ∈ receives c label c') :
    r.version = c.world.snapshot.currentIteration
      ∧ r.attempt = c.world.view.loop.streams r.version := by
  obtain ⟨frame, hpc, hversion, hattempt⟩ := mem_receives hr
  have hgenerating := (h.generating hpc).1
  have hiteration : r.version = c.world.view.loop.currentIteration :=
    hversion.trans hgenerating.iteration
  refine ⟨hiteration, ?_⟩
  rw [hattempt, hiteration]
  exact hgenerating.streams.symm

theorem Transcribes.counted_step (h : Transcribes received c)
    (hreach : Reachable wenv runId request outputLanguage bufferSize c) :
    ∀ r ∈ received ++ receives c label c', r.attempt ≤ c.world.view.loop.streams r.version := by
  intro r hr
  rcases List.mem_append.mp hr with hold | hnew
  . exact h.counted r hold
  . exact (hreach.inv.receives hnew).2.le

theorem Fresh.holding {iteration least : Nat} (h : Fresh iteration least frame w)
    (hnone : ∀ r ∈ received, r.version = iteration → r.attempt < least) :
    Holding received w frame := by
  have hnil : sentTo frame.state.currentIteration frame.attempt received = [] := by
    apply sentTo_eq_nil
    intro r hr hversion
    have hlt := hnone r hr (hversion.trans h.iteration)
    have hle := h.attempt
    omega
  constructor
  . rw [hnil, h.content]
    rfl
  . rw [hnil, h.finishReason]
    rfl
  . rw [h.prd, h.buffer, h.content]
    rfl

theorem Holding.fed {event : ProviderTextEvent} (h : Holding received c.world frame)
    (hpc : c.pc = .generating frame)
    (hfed : Fed frame c.world.snapshot.currentPrd event frame' w'.snapshot.currentPrd) :
    Holding (received ++ receives c (.generatorWake (.returned (some event))) c') w' frame' := by
  have hsent := @sentTo_receives frame c c' received event hpc
  constructor
  . rw [hfed.state, hfed.attempt, hsent, rawText_concat, ← h.content]
    exact hfed.content
  . rw [hfed.state, hfed.attempt, hsent, reportedReason_concat, ← h.finishReason]
    exact hfed.finishReason
  . rw [hfed.text, hfed.content, h.text]

-- A request leaves the text where it is.
theorem Holding.served (h : Holding received c.world frame) (hinv : Inv c) (hinv' : Inv c')
    (hpc : c.pc = .generating frame) (hlabel : label.isRequest = true)
    (hstep : step wenv c label = some c') :
    Holding (received ++ receives c label c') c'.world frame := by
  have hnothing : receives c label c' = [] := by
    unfold receives
    rw [hpc]
    cases label <;> first | rfl | contradiction
  have hpc' : c'.pc = .generating frame := by rw [step_request hlabel hstep, hpc]
  have hunbilled : Unbilled (announced .prdDelta) := unbilled_announced rfl
  have hdeltas : announced .prdDelta c'.world = announced .prdDelta c.world := by
    apply step_request_keeps hlabel _ hstep
    intro userOverride payload
    apply keeping_commit_announced
    simp
  obtain ⟨hgenerating, hattempt⟩ := hinv.generating hpc
  obtain ⟨hgenerating', _⟩ := hinv'.generating hpc'
  have hprd : c'.world.snapshot.currentPrd = c.world.snapshot.currentPrd := by
    rw [← hgenerating.streamedText hinv.sound hattempt,
      ← hgenerating'.streamedText hinv'.sound hattempt, streamedText_announced hdeltas]
  rw [hnothing, List.append_nil]
  refine ⟨h.content, h.finishReason, ?_⟩
  rw [hprd]
  exact h.text

theorem Transcribes.held_step (h : Transcribes received c)
    (hreach : Reachable wenv runId request outputLanguage bufferSize c)
    (hstep : step wenv c label = some c') (hpc' : c'.pc = .generating frame') :
    Holding (received ++ receives c label c') c'.world frame' := by
  have hinv := hreach.inv
  have hinv' := (Keeps.step hinv hstep).inv
  have hcounted := @Transcribes.counted_step _ _ c' label _ _ _ _ _ h hreach
  cases hlabel : label.isRequest with
  | true =>
    have hpc : c.pc = .generating frame' := by rw [← step_request hlabel hstep, hpc']
    exact (h.held frame' hpc).served hinv hinv' hpc hlabel hstep
  | false =>
    have hplace := stepTask_place (step_stepTask hlabel hstep)
    rw [hpc'] at hplace
    cases hpc : c.pc with
    | toGenerator =>
      apply ((step_started hpc hlabel hstep).fresh frame' hpc').holding
      intro r hr hversion
      have hzero := hinv.pc
      rw [hpc] at hzero
      have hle := hcounted r hr
      have hnone : c.world.view.loop.streams r.version = 0 := by
        rw [hversion]
        exact hzero.2.2
      omega
    | generating frame =>
      obtain ⟨answer, rfl, hwakes⟩ := step_wakes hinv hpc (h.held frame hpc).text hlabel hstep
      rcases hwakes.next frame' hpc' with ⟨event, rfl, hfed⟩ | hfresh
      . exact (h.held frame hpc).fed hpc hfed
      . apply hfresh.holding
        intro r hr hversion
        obtain ⟨hgenerating, _⟩ := hinv.generating hpc
        have hle := hcounted r hr
        rw [hversion, hgenerating.iteration, hgenerating.streams] at hle
        omega
    | _ =>
      rw [hpc] at hplace
      simp [place, Place.next] at hplace

-- Nothing more is sent for a version that has been generated, and nothing more is told of it.
theorem Exact.step {e : RunEvent} (h : Exact received c.world e)
    (he : e ∈ announced .prdGenerated c.world) (hinv : Inv c) (hstep : step wenv c label = some c') :
    Exact (received ++ receives c label c') c'.world e := by
  obtain ⟨version, attempt, content, hpayload, htext, hvalid⟩ := h
  rw [announced_eq, List.mem_filter, decide_eq_true_eq] at he
  obtain ⟨telling, htold, hholds⟩ := hinv.sound.told
  obtain ⟨_, _, _, hsame, hlt⟩ := htold.generated he.1 he.2
  rw [hpayload] at hsame
  rw [← (generatedPayload_inj hsame).1, hholds.version] at hlt
  have hsent : sentTo version attempt (received ++ receives c label c')
      = sentTo version attempt received := by
    have hnil : sentTo version attempt (receives c label c') = [] := by
      apply sentTo_eq_nil
      intro r hr hversion
      exfalso
      obtain ⟨frame, hpc, _⟩ := mem_receives hr
      have hpending : c.world.snapshot.text.Pending := (hinv.generating hpc).1.stage.pending
      have hiteration := (hinv.receives hr).1
      unfold TextView.Pending at hpending
      change c.world.snapshot.currentIteration = _ at hpending
      omega
    rw [sentTo_append, hnil, List.append_nil]
  have hkeeps := (Keeps.step hinv hstep).sound
  obtain ⟨after, hafter⟩ := hkeeps.grown
  obtain ⟨telling', htold', _⟩ := hkeeps.told
  rw [← hafter] at htold'
  refine ⟨version, attempt, content, hpayload, ?_, ?_⟩
  . rw [hsent, ← htext, ← hafter]
    exact htold'.streamedText_generated he.1 he.2 hpayload
  . rw [hsent]
    exact hvalid

theorem Transcribes.step (h : Transcribes received c)
    (hreach : Reachable wenv runId request outputLanguage bufferSize c)
    (hstep : step wenv c label = some c') :
    Transcribes (received ++ receives c label c') c' := by
  have hinv := hreach.inv
  constructor
  . intro frame' hpc'
    exact h.held_step hreach hstep hpc'
  . intro r hr
    exact (h.counted_step hreach r hr).trans (hreach.streams_le hstep r.version)
  . intro e he
    have hold : ∀ e ∈ announced .prdGenerated c.world,
        Exact (received ++ receives c label c') c'.world e := by
      intro e he
      exact (h.exact e he).step he hinv hstep
    by_cases hpc : label.isRequest = false ∧ place c.pc = .generating
    . obtain ⟨frame, hframe⟩ : ∃ frame, c.pc = .generating frame := by
        cases hplace : c.pc with
        | generating frame => exact ⟨frame, rfl⟩
        | _ =>
          rw [hplace] at hpc
          simp [place] at hpc
      have hheld := h.held frame hframe
      obtain ⟨answer, rfl, hwakes⟩ := step_wakes hinv hframe hheld.text hpc.1 hstep
      cases hwakes.generates with
      | nothing hsame =>
        rw [hsame] at he
        exact hold e he
      | version hanswer hannounced hpayload hvalid htext =>
        rw [hannounced, List.mem_append, List.mem_singleton] at he
        rcases he with hearlier | rfl
        . exact hold e hearlier
        . have hnothing : receives c (.generatorWake answer) c' = [] := by
            unfold receives
            rw [hframe, hanswer]
          rw [hheld.content, hheld.finishReason] at hvalid
          rw [hheld.content] at htext
          rw [hnothing, List.append_nil]
          exact ⟨_, _, _, hpayload, htext, hvalid⟩
    . rw [step_generated hpc hstep] at he
      exact hold e he

theorem transcribes_init :
    Transcribes [] (init wenv.toEnv runId request outputLanguage bufferSize) :=
  {
    held := by
      rintro frame ⟨⟩
    counted := by simp
    exact := by
      intro e he
      contradiction
  }

theorem transcribes (h : Traced (step wenv) always receives
    (init wenv.toEnv runId request outputLanguage bufferSize) received c) :
    Transcribes received c := by
  have hboth : Transcribes received c ∧ Reachable wenv runId request outputLanguage bufferSize c := by
    apply h.invariant (I := fun received c =>
      Transcribes received c ∧ Reachable wenv runId request outputLanguage bufferSize c)
    . exact ⟨transcribes_init, .refl⟩
    . rintro received c label c' ⟨hold, hreach⟩ _ hstep
      exact ⟨hold.step hreach hstep, .tail hreach trivial hstep⟩
  exact hboth.1

/--
`current_prd` behind a delta is what its attempt has streamed by then. When an attempt succeeds, its
deltas make up all that has been sent to it, and the version is what the validation makes of that
text, however it has come in pieces and whatever another attempt has been sent.
-/
structure ExactStreams (received : List Received) (w : World) : Prop where
  so_far :
    ∀ before commit e, before ++ [commit] <+: w.journal → commit.event = some e →
      e.event = .prdDelta →
        ∃ version attempt : Nat, ∃ delta,
          e.payload = deltaPayload version attempt delta
            ∧
          commit.snapshot.currentPrd = streamedText version attempt (events (before ++ [commit]))
  generated :
    ∀ e ∈ events w.journal, e.event = .prdGenerated →
      ∃ version attempt content,
        e.payload = generatedPayload version attempt content
          ∧
        streamedText version attempt (events w.journal) = rawText (sentTo version attempt received)
          ∧
        validateGeneratedPrd (rawText (sentTo version attempt received))
            (reportedReason (sentTo version attempt received))
          = .ok content
          ∧
        content
          = String.ofList
            (strip (stripCompletionMarker (rawText (sentTo version attempt received))).toList)
  stored :
    ∀ version ∈ w.snapshot.versions,
      ∃ e ∈ events w.journal, e.event = .prdGenerated
        ∧ ∃ attempt, e.payload = generatedPayload version.version attempt version.content

theorem exact_streams (h : Traced (step wenv) always receives
    (init wenv.toEnv runId request outputLanguage bufferSize) received c) :
    ExactStreams received c.world := by
  have hreach : Reachable wenv runId request outputLanguage bufferSize c := h.steps
  obtain ⟨telling, htold, _⟩ := hreach.inv.sound.told
  exact {
    so_far := fun _ _ _ hjournal he hevent => htold.so_far hjournal he hevent
    generated := by
      intro e he hevent
      have hmem : e ∈ announced .prdGenerated c.world := by
        rw [announced_eq, List.mem_filter, decide_eq_true_eq]
        exact ⟨he, hevent⟩
      obtain ⟨version, attempt, content, hpayload, htext, hvalid⟩ := (transcribes h).exact e hmem
      obtain ⟨_, _, _, hcontent⟩ := validateGeneratedPrd_eq_ok.mp hvalid
      exact ⟨version, attempt, content, hpayload, htext, hvalid, hcontent⟩
    stored := hreach.history.generated rfl
  }

-- The marker comes in two pieces, behind a first attempt that breaks off.
def brokenMarker : List Label :=
  [
    .begin,
    .enterGenerator,
    .generatorWake (.returned (some {
      delta := "# Draft"
      usage := none
      finishReason := none
    })),
    .generatorWake (.raised .timeoutError),
    .generatorWake (.returned (some {
      delta := "# PRD <!-- PRD_COM"
      usage := some .empty
      finishReason := none
    })),
    .generatorWake (.returned (some {
      delta := "PLETE -->"
      usage := none
      finishReason := some "stop"
    })),
    .generatorWake (.returned none)
  ]

theorem exact_streams_broken_marker :
    ∃ received c,
      trace (step mockWorkflow) receives [] mockInit brokenMarker = some (received, c)
        ∧ c.world.snapshot.versions.map PRDVersion.content = ["# PRD"]
        ∧ ExactStreams received c.world := by
  have hcontent :
      (trace (step mockWorkflow) receives [] mockInit brokenMarker).map
          (fun both => both.2.world.snapshot.versions.map PRDVersion.content)
        = some ["# PRD"] := by decide +kernel
  obtain ⟨⟨received, c⟩, htrace, hcontent⟩ := Option.map_eq_some_iff.mp hcontent
  have hrun : Traced (step mockWorkflow) always receives mockInit received c :=
    .of_trace .refl (allowed_always _) htrace
  exact ⟨received, c, htrace, hcontent, exact_streams hrun⟩

end Run

end Step

end Workflow

end AgenticPrd
