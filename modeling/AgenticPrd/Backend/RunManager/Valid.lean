import AgenticPrd.Backend.RunManager.Change
import AgenticPrd.Backend.RunStore
import AgenticPrd.Backend.Serialization

/-!
The validators of a snapshot hold of every snapshot of a run: they are checked when it is created,
and every change keeps them, although no change checks them again.
-/

namespace AgenticPrd

namespace RunManager

variable {old s new start : RunSnapshot} {event : Option RunEventType} {payload : Payload}

theorem estimateCost_nonneg {usage : TokenUsage} {execution : RunExecution} {cost : ℚ}
    (h : estimateCost usage execution = some cost) : 0 ≤ cost := by
  unfold estimateCost at h
  split at h
  . cases h
    exact le_refl 0
  . split at h
    . next inputPrice outputPrice hinput houtput =>
      cases h
      have hin := execution.pricing.input_nonneg inputPrice hinput
      have hout := execution.pricing.output_nonneg outputPrice houtput
      apply Rounding.roundHalfUp_nonneg
      positivity
    . contradiction

theorem take_length (message : String) (most : Nat) :
    (message.take most).toString.length = min most message.length := by
  have htake : (message.take most).toString.toList = message.toList.take most :=
    String.toList_copy_take
  rw [← String.length_toList, htake, List.length_take, String.length_toList]

section Change

variable (h : old.Valid)
include h

theorem Valid.moved (now : Timestamp) (target : RunStatus) : (old.movedTo now target).Valid := by
  unfold RunSnapshot.movedTo
  split <;> exact { h with }

theorem Valid.failed {code message : String} {retryable : Bool} {now : Timestamp}
    (hcode : LengthIn code 100) (hmessage : 1 ≤ message.length) :
    (failSnapshot code message retryable now old).Valid := by
  have herror : RunError.Valid { code, message := (message.take 2000).toString, retryable } := by
    refine ⟨hcode, ?_, ?_⟩
    . rw [take_length]
      omega
    . rw [take_length]
      omega
  exact {
    h with
    error := by
      rintro error ⟨⟩
      exact herror
  }

theorem Valid.change (hchange : Change old event payload s) : s.Valid := by
  cases hchange with
  | started => exact { h with }
  | moved => exact Valid.moved h _ _
  | resumed => exact { h with }
  | failed _ hcode hmessage => exact Valid.failed h hcode hmessage
  | marked => exact { h with }
  | timed => exact { h with }
  | used => exact { h with cost := fun cost hcost => estimateCost_nonneg hcost }
  | begun => exact { h with attempt := Nat.le_refl 1 }
  | reset _ _ hattempt => exact { h with attempt := by exact Nat.le_of_succ_le hattempt }
  | streamed => exact { h with }
  | generated _ hattempt => exact { h with attempt := hattempt }
  | reviewed => exact { h with }
  | @scored evaluation =>
    exact {
      h with
      bestVersion := by
        intro version hversion
        simp only [Workflow.aggregate, RunSnapshot.bestVersionWith] at hversion
        split at hversion
        . cases hversion
          exact h.iteration
        . exact h.bestVersion version hversion
      bestScore := by
        intro score hscore
        simp only [Workflow.aggregate, RunSnapshot.bestScoreWith] at hscore
        split at hscore
        . cases hscore
          exact evaluation.overall_range
        . exact h.bestScore score hscore
    }
  | planned _ hjudged =>
    have hnext : old.currentIteration + 1 ≤ old.maxIterations := by
      have hiteration := hjudged.1
      have hbudget := hjudged.2.1
      omega
    exact {
      h with
      iteration := ⟨Nat.le_add_left 1 _, hnext.trans h.budget.2⟩
      within := hnext
    }

end Change

theorem Valid.stamped {sequence : Nat} (h : s.Valid) (hstamped : Stamped s sequence new) :
    new.Valid := by
  obtain ⟨now, elapsed, hnonneg, rfl⟩ := hstamped
  exact { h with elapsed := hnonneg }

theorem History.valid {journal : List Commit} (h : History start journal new)
    (hstart : start.Valid) : new.Valid :=
  h.invariant hstart (fun _ _ _ _ => Valid.change) (fun _ _ _ => Valid.stamped)

theorem valid_create (env : Env) (runId : RunId) (request : CreateRunRequest)
    (outputLanguage : String) (now : Timestamp) :
    (createSnapshot env runId request outputLanguage now).Valid :=
  {
    iteration := by simp [createSnapshot]
    budget := request.iterations_range
    threshold := request.quality_range
    attempt := Nat.le_refl 1
    bestVersion := nofun
    bestScore := nofun
    cost := nofun
    elapsed := le_refl 0
    error := nofun
    within := request.iterations_range.1
  }

end RunManager

namespace SQLiteRunStore

theorem valid_interrupted {s : RunSnapshot} (h : s.Valid) (now : Timestamp) :
    (interrupted now s).Valid :=
  {
    h with
    error := by
      rintro error ⟨⟩
      exact ⟨by decide, by decide⟩
  }

theorem valid_loadSnapshot {s : RunSnapshot} (h : s.Valid) (now : Timestamp) :
    (loadSnapshot now s).Valid := by
  unfold loadSnapshot
  split
  . exact h
  . exact valid_interrupted h now

end SQLiteRunStore

end AgenticPrd
