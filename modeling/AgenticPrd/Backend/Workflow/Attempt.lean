import AgenticPrd.Backend.Workflow.FinishReason
import AgenticPrd.Backend.Workflow.Kept

/-!
What a generation attempt does with the text that it is sent. All of it is in `content`, and
`buffer` is the part of it that has not been committed yet.
-/

namespace AgenticPrd

namespace Workflow

open RunManager Prog Compatible

variable {env : Env} {w : World} {frame frame' : GeneratorFrame} {state : RunSnapshot}
  {plan : Option RevisionPlan} {attempt : Nat}

instance : Still World.snapshot :=
  ⟨fun h _ _ => h⟩

theorem stampless_currentPrd : Stampless RunSnapshot.currentPrd :=
  ⟨fun _ _ => rfl, fun _ _ => rfl, fun _ _ => rfl⟩

-- The attempt goes on from `frame` with one more delta, while `current_prd` goes from `prd` to `prd'`.
structure Fed (frame : GeneratorFrame) (prd : String) (event : ProviderTextEvent)
    (frame' : GeneratorFrame) (prd' : String) : Prop where
  state : frame'.state = frame.state
  plan : frame'.plan = frame.plan
  attempt : frame'.attempt = frame.attempt
  content : frame'.content = frame.content ++ event.delta
  text : prd' ++ frame'.buffer = prd ++ frame.buffer ++ event.delta
  finishReason : frame'.finishReason = noteReason frame.finishReason event

theorem wp_commitDelta_prd {delta : String} :
    wp (commitDelta env state attempt delta) w
      (fun _ w' => w'.snapshot.currentPrd = w.snapshot.currentPrd ++ delta) fun _ _ => True := by
  unfold commitDelta
  rw [wp_bind]
  apply wp_mono ((keeping_checkCancel : Keeping World.snapshot _) w)
  . intro _ w1 h1
    rw [wp_bind, wp_get, ← h1]
    apply wp_commit_part (P := fun prd => prd = w1.snapshot.currentPrd ++ delta) stampless_currentPrd
    unfold appendDelta
    split
    . trivial
    . rfl
  . intro _ _ _
    trivial

-- Everything of a frame but what a flush sets.
structure Unflushed (frame : GeneratorFrame) (prd : String) (frame' : GeneratorFrame)
    (prd' : String) : Prop where
  state : frame'.state = frame.state
  plan : frame'.plan = frame.plan
  attempt : frame'.attempt = frame.attempt
  content : frame'.content = frame.content
  text : prd' ++ frame'.buffer = prd ++ frame.buffer

theorem wp_flush_unflushed {now : ℚ} :
    wp (flush env frame now) w
      (fun frame' w' => Unflushed frame w.snapshot.currentPrd frame' w'.snapshot.currentPrd)
      fun _ _ => True := by
  unfold flush
  rw [wp_ite]
  split
  . rw [wp_bind]
    apply wp_mono wp_commitDelta_prd
    . intro _ w1 h1
      exact ⟨rfl, rfl, rfl, rfl, by rw [h1, String.append_empty]⟩
    . intro _ _ _
      trivial
  . exact ⟨rfl, rfl, rfl, rfl, rfl⟩

theorem wp_noteUsage_unflushed {usage : Option TokenUsage} :
    wp (noteUsage usage frame) w
      (fun frame' w' => Unflushed frame w.snapshot.currentPrd frame' w'.snapshot.currentPrd)
      fun _ _ => True := by
  cases usage with
  | none => exact ⟨rfl, rfl, rfl, rfl, rfl⟩
  | some usage => exact ⟨rfl, rfl, rfl, rfl, rfl⟩

theorem wp_consumeEvent_fed {event : ProviderTextEvent} :
    wp (consumeEvent env frame event) w
      (fun frame' w' => Fed frame w.snapshot.currentPrd event frame' w'.snapshot.currentPrd)
      fun _ _ => True := by
  have hfields : wp (consumeEvent env frame event) w
      (fun frame' w' => Unflushed
        { frame with content := frame.content ++ event.delta, buffer := frame.buffer ++ event.delta }
        w.snapshot.currentPrd frame' w'.snapshot.currentPrd) fun _ _ => True := by
    unfold consumeEvent
    dsimp only
    rw [wp_bind, wp_monotonic, wp_bind]
    apply wp_mono wp_flush_unflushed
    . intro flushed w1 hflushed
      rw [wp_bind]
      apply wp_mono wp_noteUsage_unflushed
      . intro noted w2 hnoted
        have hboth : Unflushed
            {
              frame with
              content := frame.content ++ event.delta
              buffer := frame.buffer ++ event.delta
            } w.snapshot.currentPrd noted w2.snapshot.currentPrd :=
          {
            state := hnoted.state.trans hflushed.state
            plan := hnoted.plan.trans hflushed.plan
            attempt := hnoted.attempt.trans hflushed.attempt
            content := hnoted.content.trans hflushed.content
            text := hnoted.text.trans hflushed.text
          }
        cases event.finishReason with
        | none => exact hboth
        | some reason =>
          dsimp only
          rw [wp_ite]
          split
          . exact hboth
          . exact ⟨hboth.state, hboth.plan, hboth.attempt, hboth.content, hboth.text⟩
      . intro _ _ _
        trivial
    . intro _ _ _
      trivial
  apply wp_mono (wp_and hfields wp_consumeEvent_finishReason)
  . rintro frame' w' ⟨h, hreason⟩
    exact {
      state := h.state
      plan := h.plan
      attempt := h.attempt
      content := h.content
      text := h.text.trans String.append_assoc.symm
      finishReason := hreason
    }
  . intro _ _ _
    trivial

-- A wait for the next event only sets the wait.
theorem wp_awaitEvent_await :
    wp (awaitEvent env frame) w
      (fun frame' w' => (∃ await, frame' = { frame with await }) ∧ w'.snapshot = w.snapshot)
      fun _ _ => True := by
  unfold awaitEvent
  rw [wp_bind, wp_monotonic]
  split
  . trivial
  . rw [wp_bind]
    apply wp_mono ((keeping_beginAwait (by simp) : Keeping World.snapshot _) w.tick)
    . intro await w1 h1
      exact ⟨⟨await, rfl⟩, h1⟩
    . intro _ _ _
      trivial

theorem wp_endStream_text :
    wp (endStream env frame) w
      (fun result w' =>
        w'.snapshot.currentPrd = w.snapshot.currentPrd ++ frame.buffer
          ∧ PrdDocument.validateGeneratedPrd frame.content frame.finishReason = .ok result.1)
      fun _ _ => True := by
  have hflushed : ∀ (rest : Prog World Exn (String × TokenUsage)) (Q : String × TokenUsage → World → Prop),
      (∀ w1 : World, w1.snapshot.currentPrd = w.snapshot.currentPrd ++ frame.buffer →
        wp rest w1 Q fun _ _ => True) →
      wp
        (if frame.buffer ≠ "" then do
          let _ ← commitDelta env frame.state frame.attempt frame.buffer
          rest
        else rest) w Q fun _ _ => True := by
    intro rest Q hrest
    split
    . rw [wp_bind]
      apply wp_mono wp_commitDelta_prd
      . intro _ w1 h1
        exact hrest w1 h1
      . intro _ _ _
        trivial
    . next hempty =>
      rw [ne_eq, not_not] at hempty
      apply hrest w
      rw [hempty, String.append_empty]
  unfold endStream
  dsimp only
  apply hflushed
  intro w1 h1
  rw [wp_bind]
  unfold validatedPrd
  split
  . trivial
  . next validated hvalidated =>
    rw [wp_pure]
    cases frame.usage with
    | none => trivial
    | some usage => exact ⟨h1, hvalidated⟩

-- The stream goes on with the text of the event, or it has ended with the document.
def Resumed (frame : GeneratorFrame) (w : World) (answer : Answer (Option ProviderTextEvent))
    (w' : World) : GeneratorFrame ⊕ (String × TokenUsage) → Prop
  | .inl frame' =>
    ∃ event, answer = .returned (some event)
      ∧ Fed frame w.snapshot.currentPrd event frame' w'.snapshot.currentPrd
  | .inr (content, _) =>
    answer = .returned none
      ∧ w'.snapshot.currentPrd = w.snapshot.currentPrd ++ frame.buffer
      ∧ PrdDocument.validateGeneratedPrd frame.content frame.finishReason = .ok content

theorem wp_resumeStream_resumed {answer : Answer (Option ProviderTextEvent)} :
    wp (resumeStream env frame answer) w (fun result w' => Resumed frame w answer w' result)
      fun _ _ => True := by
  unfold resumeStream awaitResult
  rw [wp_bind]
  cases frame.await with
  | settling exn => trivial
  | waiting =>
    cases answer with
    | returned event =>
      dsimp only
      rw [wp_pure]
      cases event with
      | none =>
        dsimp only
        rw [wp_bind]
        apply wp_mono wp_endStream_text
        . intro result w1 h1
          exact ⟨rfl, h1⟩
        . intro _ _ _
          trivial
      | some event =>
        dsimp only
        rw [wp_bind]
        apply wp_mono wp_consumeEvent_fed
        . intro noted w1 h1
          rw [wp_bind]
          apply wp_mono wp_awaitEvent_await
          . rintro _ w2 ⟨⟨await, rfl⟩, h2⟩
            refine ⟨event, rfl, ?_⟩
            rw [h2]
            exact ⟨h1.state, h1.plan, h1.attempt, h1.content, h1.text, h1.finishReason⟩
          . intro _ _ _
            trivial
        . intro _ _ _
          trivial
    | _ => trivial

-- A stream that has just been opened.
structure Opened (state : RunSnapshot) (plan : Option RevisionPlan) (attempt : Nat)
    (frame : GeneratorFrame) : Prop where
  state : frame.state = state
  plan : frame.plan = plan
  attempt : frame.attempt = attempt
  content : frame.content = ""
  buffer : frame.buffer = ""
  finishReason : frame.finishReason = none

theorem wp_openStream_opened :
    wp (openStream env state plan attempt) w
      (fun frame' w' => Opened state plan attempt frame' ∧ w'.snapshot = w.snapshot)
      fun _ _ => True := by
  unfold openStream
  rw [wp_bind, wp_modify, wp_bind, wp_monotonic, wp_bind, wp_monotonic, wp_bind]
  apply wp_mono ((keeping_remainingRunSeconds : Keeping World.snapshot _) _)
  . intro remaining w1 h1
    apply wp_mono wp_awaitEvent_await
    . rintro _ w2 ⟨⟨await, rfl⟩, h2⟩
      exact ⟨⟨rfl, rfl, rfl, rfl, rfl, rfl⟩, h2.trans h1⟩
    . intro _ _ _
      trivial
  . intro _ _ _
    trivial

end Workflow

end AgenticPrd
