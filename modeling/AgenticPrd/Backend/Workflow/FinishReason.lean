import AgenticPrd.Backend.Compatible
import AgenticPrd.Backend.RunManager.Lemmas
import AgenticPrd.Backend.Workflow.Basic

/-!
The finish reason of a stream on its way from the chunks of the endpoint through the events of the
provider to the verdict on the document.
-/

namespace AgenticPrd

namespace Workflow

open RunManager Prog Compatible

variable {env : Env} {frame next last : GeneratorFrame} {event : ProviderTextEvent}
  {events : List ProviderTextEvent}

/--
`Streams env frame events last`: the loop of `_stream_generation` takes the events one after the
other and comes from `frame` to `last`. Other tasks and requests change the world in between.
-/
inductive Streams (env : Env) : GeneratorFrame → List ProviderTextEvent → GeneratorFrame → Prop where
  | nil {frame : GeneratorFrame} : Streams env frame [] frame
  | cons {frame next last : GeneratorFrame} {event : ProviderTextEvent}
    {events : List ProviderTextEvent} {w w' : World}
    (hresume : (resumeStream env frame (.returned (some event))).run w = (.ok (.inl next), w'))
    (hrest : Streams env next events last) : Streams env frame (event :: events) last

section Frame

variable {w : World}

theorem wp_flush_finishReason {now : ℚ} :
    wp (flush env frame now) w (fun frame' _ => frame'.finishReason = frame.finishReason)
      fun _ _ => True := by
  unfold flush
  rw [wp_ite]
  split
  . rw [wp_bind]
    apply wp_mono (wp_trivial _)
    . intro _ _ _
      rfl
    . intro _ _ _
      trivial
  . rfl

theorem wp_noteUsage_finishReason {usage : Option TokenUsage} :
    wp (noteUsage usage frame) w (fun frame' _ => frame'.finishReason = frame.finishReason)
      fun _ _ => True := by
  cases usage <;> rfl

theorem wp_consumeEvent_finishReason :
    wp (consumeEvent env frame event) w
      (fun frame' _ => frame'.finishReason = noteReason frame.finishReason event)
      fun _ _ => True := by
  unfold consumeEvent
  dsimp only
  rw [wp_bind, wp_monotonic, wp_bind]
  apply wp_mono wp_flush_finishReason
  . intro flushed w1 hflushed
    rw [wp_bind]
    apply wp_mono wp_noteUsage_finishReason
    . intro noted w2 hnoted
      rw [hflushed] at hnoted
      unfold noteReason truthy
      cases event.finishReason with
      | none => exact hnoted
      | some reason =>
        dsimp only
        by_cases hempty : reason = ""
        . subst hempty
          exact hnoted
        . have hnot : reason.isEmpty = false := by simpa using hempty
          simp [hempty, hnot, Option.filter]
    . intro _ _ _
      trivial
  . intro _ _ _
    trivial

theorem wp_awaitEvent_finishReason :
    wp (awaitEvent env frame) w (fun frame' _ => frame'.finishReason = frame.finishReason)
      fun _ _ => True := by
  unfold awaitEvent
  rw [wp_bind, wp_monotonic]
  split
  . trivial
  . rw [wp_bind]
    apply wp_mono (wp_trivial _)
    . intro _ _ _
      rfl
    . intro _ _ _
      trivial

theorem wp_resumeStream_finishReason :
    wp (resumeStream env frame (.returned (some event))) w
      (fun result _ => ∀ next, result = .inl next →
        next.finishReason = noteReason frame.finishReason event)
      fun _ _ => True := by
  unfold resumeStream awaitResult
  rw [wp_bind]
  cases frame.await with
  | settling exn => trivial
  | waiting =>
    dsimp only
    rw [wp_pure]
    dsimp only
    rw [wp_bind]
    apply wp_mono wp_consumeEvent_finishReason
    . intro noted w1 hnoted
      rw [wp_bind]
      apply wp_mono wp_awaitEvent_finishReason
      . intro awaiting w2 hawaiting next hnext
        cases hnext
        rw [hawaiting, hnoted]
      . intro _ _ _
        trivial
    . intro _ _ _
      trivial

theorem wp_openStream_finishReason {state : RunSnapshot} {plan : Option RevisionPlan}
    {attempt : Nat} :
    wp (openStream env state plan attempt) w (fun frame' _ => frame'.finishReason = none)
      fun _ _ => True := by
  unfold openStream
  rw [wp_bind, wp_modify, wp_bind, wp_monotonic, wp_bind, wp_monotonic, wp_bind]
  apply wp_mono (wp_trivial _)
  . intro remaining w1 _
    apply wp_mono wp_awaitEvent_finishReason
    . intro awaiting w2 hawaiting
      exact hawaiting
    . intro _ _ _
      trivial
  . intro _ _ _
    trivial

end Frame

theorem Streams.finishReason (h : Streams env frame events last) :
    last.finishReason = events.foldl noteReason frame.finishReason := by
  induction h with
  | nil => rfl
  | @cons frame next last event events w w' hresume _ ih =>
    have hnext := @wp_resumeStream_finishReason env frame event w
    rw [wp_of_run_ok hresume] at hnext
    rw [ih, hnext next rfl]
    rfl

/--
The stream comes to the verdict on its document, which rests on the last reason that the endpoint has
sent: a document that was cut off fails as such, and so does one that was filtered.
-/
structure ReasonReaches (chunks : List StreamChunk) (last : GeneratorFrame) : Prop where
  ended : streamEnd chunks = .returned none
  reason : last.finishReason = lastReason chunks
  truncated :
    PrdDocument.classifyFinishReason (lastReason chunks) = .truncated →
      ∀ w, (validatedPrd last).run w = (.error (.providerError .outputTruncated), w)
  filtered :
    PrdDocument.classifyFinishReason (lastReason chunks) = .filtered →
      ∀ w, (validatedPrd last).run w = (.error (.providerError .contentFiltered), w)

theorem ReasonReaches.of_reason {chunks : List StreamChunk}
    (hended : streamEnd chunks = .returned none) (h : last.finishReason = lastReason chunks) :
    ReasonReaches chunks last :=
  {
    ended := hended
    reason := h
    truncated := by
      intro hverdict w
      unfold validatedPrd PrdDocument.validateGeneratedPrd
      rw [h, hverdict]
      rfl
    filtered := by
      intro hverdict w
      unfold validatedPrd PrdDocument.validateGeneratedPrd
      rw [h, hverdict]
      rfl
  }

section Mock

-- The loop over the events without anything in between, where it raises at none of them.
def streamFrom (env : Env) : GeneratorFrame → World → List ProviderTextEvent → Option GeneratorFrame
  | frame, _, [] => some frame
  | frame, w, event :: events =>
    match (resumeStream env frame (.returned (some event))).run w with
    | (.ok (.inl next), w') => streamFrom env next w' events
    | _ => none

theorem Streams.of_streamFrom {w : World} (h : streamFrom env frame w events = some last) :
    Streams env frame events last := by
  induction events generalizing frame w with
  | nil =>
    cases h
    exact .nil
  | cons event events ih =>
    unfold streamFrom at h
    split at h
    . next hresume => exact .cons hresume (ih h)
    . contradiction

-- The first attempt of the mock run, with what the chunks lead to.
def mockStream (chunks : List StreamChunk) : Option GeneratorFrame :=
  match (openStream mockEnv mockWorld.snapshot none 1).run mockWorld with
  | (.ok frame, w) => streamFrom mockEnv frame w (streamPrd chunks).1
  | _ => none

theorem mockStream_streams {chunks : List StreamChunk} (h : mockStream chunks = some last) :
    ∃ frame w,
      (openStream mockEnv mockWorld.snapshot none 1).run mockWorld = (.ok frame, w)
        ∧
      Streams mockEnv frame (streamPrd chunks).1 last := by
  unfold mockStream at h
  split at h
  . next frame w hopen => exact ⟨frame, w, hopen, .of_streamFrom h⟩
  . contradiction

def textChunk (content : String) (finishReason : Option String) : StreamChunk :=
  {
    choices := [{ finishReason, content := some content }]
    usage := none
  }

def usageChunk (finishReason : Option String) : StreamChunk :=
  {
    choices := [{ finishReason, content := none }]
    usage := some {
      promptTokens := some 3
      inputTokens := none
      completionTokens := some 4
      outputTokens := none
      totalTokens := some 7
    }
  }

end Mock

end Workflow

end AgenticPrd
