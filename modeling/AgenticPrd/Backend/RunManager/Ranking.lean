import AgenticPrd.Backend.RunManager.Order
import AgenticPrd.Lib.Leader

/-!
The best version of a run: the first of those with the highest score, in every snapshot of a
history. What has been evaluated stays as it is.
-/

namespace AgenticPrd

def PRDVersion.score (version : PRDVersion) : Option ℚ :=
  version.evaluation.map EvaluationResult.overallScore

theorem PRDVersion.score_eq_none {version : PRDVersion} :
    version.score = none ↔ version.evaluation = none := by
  unfold PRDVersion.score
  rw [Option.map_eq_none_iff]

namespace RunManager

open Leader

-- The pointer of the snapshot is at the leader of its versions.
def Ranked (s : RunSnapshot) : Prop :=
  ∃ best, IsLeader PRDVersion.score s.versions best
    ∧ s.bestVersion = best.map (fun leader => leader.1.version)
    ∧ s.bestScore = best.map Prod.snd

-- Every version that has been evaluated stays where it is, as it is.
def Settled (old new : List PRDVersion) : Prop :=
  ∀ (i : Nat) (version : PRDVersion),
    old[i]? = some version → version.evaluation ≠ none → new[i]? = some version

variable {old s new start : RunSnapshot} {event : Option RunEventType} {payload : Payload}

section Ranked

theorem Ranked.congr (h : Ranked old) (hversions : s.versions = old.versions)
    (hbest : s.bestVersion = old.bestVersion ∧ s.bestScore = old.bestScore) : Ranked s := by
  obtain ⟨best, hleader, hversion, hscore⟩ := h
  rw [← hversions] at hleader
  exact ⟨best, hleader, hbest.1.trans hversion, hbest.2.trans hscore⟩

theorem Ranked.generated (h : Ranked old) {version : PRDVersion} {attempt : Nat}
    (hevaluation : version.evaluation = none) : Ranked (old.withVersion version attempt) := by
  obtain ⟨best, hleader, hversion, hscore⟩ := h
  exact ⟨best, hleader.concat_none (PRDVersion.score_eq_none.mpr hevaluation), hversion, hscore⟩

-- The last version takes its score, and the pointer if the score is higher than that of the leader.
theorem Ranked.scored (h : Ranked old) (hold : Orderly old) {evaluation : EvaluationResult}
    (hfresh : old.Fresh) :
    Ranked (Workflow.aggregate evaluation (old.bestScoreWith evaluation.overallScore)
      (old.bestVersionWith evaluation.overallScore) old) := by
  obtain ⟨best, hleader, hversion, hscore⟩ := h
  obtain ⟨hiteration, last, hlast, hnone⟩ := hfresh
  obtain ⟨earlier, hversions⟩ := List.getLast?_eq_some_iff.mp hlast
  have hnumber : last.version = old.currentIteration := by
    rw [hiteration]
    exact (hold.last_version hversions).1
  rw [hversions] at hleader
  have hearlier := hleader.of_concat_none (PRDVersion.score_eq_none.mpr hnone)
  have himproves : old.Improves evaluation.overallScore
      ↔ ∀ leader ∈ best, leader.2 < evaluation.overallScore := by
    unfold RunSnapshot.Improves
    rw [hscore]
    cases best with
    | none => simp
    | some leader => simp
  generalize hevaluated : { last with evaluation := some evaluation } = evaluated
  have hevaluatedNumber : evaluated.version = old.currentIteration := by
    rw [← hevaluated]
    exact hnumber
  have hevaluatedScore : evaluated.score = some evaluation.overallScore := by
    rw [← hevaluated]
    rfl
  have hnew : (Workflow.aggregate evaluation (old.bestScoreWith evaluation.overallScore)
      (old.bestVersionWith evaluation.overallScore) old).versions = earlier ++ [evaluated] := by
    unfold Workflow.aggregate
    rw [hversions, List.modifyLast_concat, hevaluated]
  have hbest := hearlier.concat_some hevaluatedScore
  rw [← hnew] at hbest
  refine ⟨_, hbest, ?_, ?_⟩
  . change old.bestVersionWith evaluation.overallScore = _
    unfold RunSnapshot.bestVersionWith
    rw [apply_ite (Option.map _), Option.map_some, hevaluatedNumber, ← hversion]
    simp only [himproves]
  . change old.bestScoreWith evaluation.overallScore = _
    unfold RunSnapshot.bestScoreWith
    rw [apply_ite (Option.map _), Option.map_some, ← hscore]
    simp only [himproves]

theorem Ranked.change (h : Ranked old) (hold : Orderly old) (hchange : Change old event payload s) :
    Ranked s := by
  cases hchange with
  | moved =>
    unfold RunSnapshot.movedTo
    split <;> exact h.congr rfl ⟨rfl, rfl⟩
  | generated _ _ _ _ hevaluation _ => exact h.generated hevaluation
  | scored _ _ hfresh _ _ _ => exact h.scored hold hfresh
  | _ => exact h.congr rfl ⟨rfl, rfl⟩

theorem Ranked.stamped {sequence : Nat} (h : Ranked s) (hstamped : Stamped s sequence new) :
    Ranked new := by
  obtain ⟨now, elapsed, _, rfl⟩ := hstamped
  exact h.congr rfl ⟨rfl, rfl⟩

theorem History.ranked {journal : List Commit} (h : History start journal new)
    (horder : Orderly start) (hstart : Ranked start) : Ranked new := by
  have hboth : Orderly new ∧ Ranked new := by
    apply h.invariant (P := fun s => Orderly s ∧ Ranked s) ⟨horder, hstart⟩
    . intro old event payload s hold hchange
      exact ⟨hold.1.change hchange, hold.2.change hold.1 hchange⟩
    . intro s sequence new hs hstamped
      exact ⟨hs.1.stamped hstamped, hs.2.stamped hstamped⟩
  exact hboth.2

theorem ranked_create (env : Env) (runId : RunId) (request : CreateRunRequest)
    (outputLanguage : String) (now : Timestamp) :
    Ranked (createSnapshot env runId request outputLanguage now) :=
  ⟨none, .nil, rfl, rfl⟩

end Ranked

section Settled

theorem Settled.refl (versions : List PRDVersion) : Settled versions versions :=
  fun _ _ h _ => h

theorem Settled.trans {first second third : List PRDVersion} (h : Settled first second)
    (h' : Settled second third) : Settled first third := by
  intro i version hget hevaluated
  exact h' i version (h i version hget hevaluated) hevaluated

theorem Settled.concat (versions : List PRDVersion) (version : PRDVersion) :
    Settled versions (versions ++ [version]) := by
  intro i old hget _
  rw [List.getElem?_append_left (List.getElem?_eq_some_iff.mp hget).1]
  exact hget

theorem Settled.modifyLast {versions : List PRDVersion} (f : PRDVersion → PRDVersion)
    (hlast : ∃ last ∈ versions.getLast?, last.evaluation = none) :
    Settled versions (versions.modifyLast f) := by
  obtain ⟨last, hlast, hnone⟩ := hlast
  obtain ⟨earlier, rfl⟩ := List.getLast?_eq_some_iff.mp hlast
  rw [List.modifyLast_concat]
  intro i version hget hevaluated
  rcases Nat.lt_or_ge i earlier.length with hlt | hge
  . rw [List.getElem?_append_left hlt] at hget ⊢
    exact hget
  . rw [List.getElem?_append_right hge, List.getElem?_singleton] at hget
    split at hget
    . cases hget
      exact absurd hnone hevaluated
    . contradiction

theorem Change.settled (h : Change old event payload s) : Settled old.versions s.versions := by
  cases h with
  | moved =>
    unfold RunSnapshot.movedTo
    split <;> exact .refl _
  | generated => exact .concat _ _
  | scored _ _ hfresh _ _ _ => exact .modifyLast _ hfresh.2
  | _ => exact .refl _

theorem History.settled {journal : List Commit} (h : History start journal new) :
    Settled start.versions new.versions := by
  apply h.invariant (P := fun s => Settled start.versions s.versions) (.refl _)
  . intro old event payload s hold hchange
    exact hold.trans hchange.settled
  . intro s sequence new hs hstamped
    rw [hstamped.versions]
    exact hs

-- No later snapshot of the journal changes what an earlier one has evaluated.
theorem History.pairwise_settled {journal : List Commit} (h : History start journal new) :
    (start :: journal.map Commit.snapshot).Pairwise
      fun earlier later => Settled earlier.versions later.versions := by
  induction journal using List.reverseRecOn generalizing new with
  | nil => exact List.pairwise_singleton _ _
  | append_singleton journal commit ih =>
    obtain ⟨mid, hbefore, hafter⟩ := h.split
    rw [List.map_append, ← List.cons_append, List.pairwise_append]
    refine ⟨ih hbefore, List.pairwise_singleton _ _, ?_⟩
    intro earlier hearlier later hlater
    rw [List.mem_singleton.mp hlater, h.last]
    rcases List.mem_cons.mp hearlier with rfl | hmem
    . exact h.settled
    . obtain ⟨stored, hstored, rfl⟩ := List.mem_map.mp hmem
      obtain ⟨_, _, _, _, hlate⟩ := h.through (List.mem_append_left _ hstored)
      exact hlate.settled

end Settled

end RunManager

end AgenticPrd
