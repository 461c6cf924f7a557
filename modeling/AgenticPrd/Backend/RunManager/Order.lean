import AgenticPrd.Backend.RunManager.Change

/-!
What every history keeps of the versions of a run: how they are numbered, and where their
evaluations, the reviews in progress and the best score stand with regard to each other.
-/

namespace AgenticPrd

def EvaluationResult.review (evaluation : EvaluationResult) : ReviewRole → RoleReview
  | .tech => evaluation.tech
  | .ux => evaluation.ux
  | .biz => evaluation.biz

namespace RunManager

structure Orderly (s : RunSnapshot) : Prop where
  numbered : s.versions.map PRDVersion.version = List.range' 1 s.versions.length
  positive : 1 ≤ s.currentIteration
  iteration :
    s.currentIteration = s.versions.length ∨ s.currentIteration = s.versions.length + 1
  ranked : s.bestVersion.isSome = s.bestScore.isSome
  unranked :
    s.bestScore = none →
      s.latestEvaluation = none ∧ ∀ version ∈ s.versions, version.evaluation = none
  reviewed :
    s.currentIteration = s.versions.length →
      ∀ last ∈ s.versions.getLast?, ∀ evaluation ∈ last.evaluation, ∀ role,
        s.reviews role = some (evaluation.review role)

variable {old s new start : RunSnapshot} {event : Option RunEventType} {payload : Payload}
  {version : PRDVersion}

theorem Orderly.version_le (h : Orderly s) (hmem : version ∈ s.versions) :
    version.version ≤ s.versions.length := by
  have hnumber : version.version ∈ s.versions.map PRDVersion.version := List.mem_map_of_mem hmem
  rw [h.numbered, List.mem_range'_1] at hnumber
  omega

theorem Orderly.last_version (h : Orderly s) {earlier : List PRDVersion}
    (hversions : s.versions = earlier ++ [version]) :
    version.version = s.versions.length
      ∧
    ∀ v ∈ earlier, v.version < s.versions.length := by
  have hnumbered := h.numbered
  rw [hversions, List.map_append, List.length_append, List.length_singleton, List.range'_concat]
    at hnumbered
  have hlengths : (earlier.map PRDVersion.version).length = (List.range' 1 earlier.length).length := by
    simp
  obtain ⟨hearlier, hlast⟩ := List.append_inj hnumbered hlengths
  rw [List.map_singleton, List.singleton_inj] at hlast
  rw [hversions, List.length_append, List.length_singleton]
  refine ⟨by omega, ?_⟩
  intro v hv
  have hnumber : v.version ∈ earlier.map PRDVersion.version := List.mem_map_of_mem hv
  rw [hearlier, List.mem_range'_1] at hnumber
  omega

-- A change that leaves the versions, their reviews and the best score alone.
theorem Orderly.congr (h : Orderly old) (hversions : s.versions = old.versions)
    (hiteration : s.currentIteration = old.currentIteration)
    (hbest : s.bestVersion = old.bestVersion ∧ s.bestScore = old.bestScore)
    (hlatest : s.latestEvaluation = old.latestEvaluation) (hreviews : s.reviews = old.reviews) :
    Orderly s := by
  constructor
  . rw [hversions]
    exact h.numbered
  . rw [hiteration]
    exact h.positive
  . rw [hversions, hiteration]
    exact h.iteration
  . rw [hbest.1, hbest.2]
    exact h.ranked
  . rw [hversions, hbest.2, hlatest]
    exact h.unranked
  . rw [hversions, hiteration, hreviews]
    exact h.reviewed

theorem Orderly.generated (h : Orderly old) {attempt : Nat}
    (hpending : old.currentIteration = old.versions.length + 1)
    (hversion : version.version = old.currentIteration) (hevaluation : version.evaluation = none) :
    Orderly (old.withVersion version attempt) := by
  constructor
  . simp only [RunSnapshot.withVersion, List.map_append, List.map_singleton, List.length_append,
      List.length_singleton, List.range'_concat, h.numbered, hversion, hpending]
    congr 2
    omega
  . exact h.positive
  . left
    simp only [RunSnapshot.withVersion, List.length_append, List.length_singleton]
    exact hpending
  . exact h.ranked
  . intro hnone
    refine ⟨(h.unranked hnone).1, ?_⟩
    intro v hv
    simp only [RunSnapshot.withVersion, List.mem_append, List.mem_singleton] at hv
    cases hv with
    | inl hold => exact (h.unranked hnone).2 v hold
    | inr heq =>
      rw [heq]
      exact hevaluation
  . intro _ last hlast evaluation hsome
    simp only [RunSnapshot.withVersion, List.getLast?_concat, Option.mem_some_iff] at hlast
    rw [← hlast, hevaluation] at hsome
    contradiction

theorem Orderly.reviewing (h : Orderly old) {role : ReviewRole} {review : RoleReview}
    (hfresh : old.Fresh) : Orderly (old.withReview role review) := by
  constructor
  . exact h.numbered
  . exact h.positive
  . exact h.iteration
  . exact h.ranked
  . exact h.unranked
  . intro _ last hlast evaluation hsome
    obtain ⟨_, last', hlast', hnone⟩ := hfresh
    cases Option.mem_unique hlast hlast'
    rw [hnone] at hsome
    contradiction

theorem bestScoreWith_isSome (s : RunSnapshot) (score : ℚ) :
    (s.bestScoreWith score).isSome = true := by
  unfold RunSnapshot.bestScoreWith
  split
  . rfl
  . next hnot =>
    unfold RunSnapshot.Improves at hnot
    cases hbest : s.bestScore with
    | none => simp [hbest] at hnot
    | some best => rfl

theorem bestVersionWith_isSome (h : Orderly s) (score : ℚ) :
    (s.bestVersionWith score).isSome = true := by
  have hscore := bestScoreWith_isSome s score
  unfold RunSnapshot.bestScoreWith at hscore
  unfold RunSnapshot.bestVersionWith
  split
  . rfl
  . next hnot =>
    rw [if_neg hnot, ← h.ranked] at hscore
    exact hscore

theorem Orderly.scored (h : Orderly old) {evaluation : EvaluationResult} (hfresh : old.Fresh)
    (htech : old.reviews .tech = some evaluation.tech)
    (hux : old.reviews .ux = some evaluation.ux) (hbiz : old.reviews .biz = some evaluation.biz) :
    Orderly (Workflow.aggregate evaluation (old.bestScoreWith evaluation.overallScore)
      (old.bestVersionWith evaluation.overallScore) old) := by
  obtain ⟨_, last, hlast, _⟩ := hfresh
  obtain ⟨earlier, hversions⟩ := List.getLast?_eq_some_iff.mp hlast
  have hscore := bestScoreWith_isSome old evaluation.overallScore
  constructor
  . have hnumbered := h.numbered
    simp only [Workflow.aggregate, hversions, List.modifyLast_concat, List.map_append,
      List.map_singleton, List.length_append, List.length_singleton] at hnumbered ⊢
    exact hnumbered
  . exact h.positive
  . have hiteration := h.iteration
    simp only [Workflow.aggregate, hversions, List.modifyLast_concat, List.length_append,
      List.length_singleton] at hiteration ⊢
    exact hiteration
  . exact (bestVersionWith_isSome h _).trans hscore.symm
  . intro hnone
    simp only [Workflow.aggregate] at hnone
    rw [hnone] at hscore
    contradiction
  . intro _ last' hlast' evaluation' hsome role
    simp only [Workflow.aggregate, hversions, List.modifyLast_concat, List.getLast?_concat,
      Option.mem_some_iff] at hlast'
    rw [← hlast', Option.mem_some_iff] at hsome
    subst hsome
    cases role with
    | tech => exact htech
    | ux => exact hux
    | biz => exact hbiz

theorem Orderly.planned (h : Orderly old) {plan : RevisionPlan} (hjudged : old.Judged) :
    Orderly (old.withPlan plan) := by
  have hiteration : (old.withPlan plan).currentIteration = old.versions.length + 1 := by
    rw [← hjudged.1]
    rfl
  constructor
  . exact h.numbered
  . rw [hiteration]
    omega
  . exact .inr hiteration
  . exact h.ranked
  . exact h.unranked
  . intro hsame
    rw [hiteration] at hsame
    simp [RunSnapshot.withPlan] at hsame

theorem Orderly.change (h : Orderly old) (hchange : Change old event payload s) : Orderly s := by
  cases hchange with
  | moved =>
    unfold RunSnapshot.movedTo
    split <;> exact h.congr rfl rfl ⟨rfl, rfl⟩ rfl rfl
  | generated _ _ hpending hversion hevaluation _ => exact h.generated hpending hversion hevaluation
  | reviewed _ hfresh _ => exact h.reviewing hfresh
  | scored _ _ hfresh htech hux hbiz => exact h.scored hfresh htech hux hbiz
  | planned _ hjudged => exact h.planned hjudged
  | _ => exact h.congr rfl rfl ⟨rfl, rfl⟩ rfl rfl

theorem Orderly.stamped {sequence : Nat} (h : Orderly s) (hstamped : Stamped s sequence new) :
    Orderly new := by
  obtain ⟨now, elapsed, _, rfl⟩ := hstamped
  exact h.congr rfl rfl ⟨rfl, rfl⟩ rfl rfl

theorem History.orderly {journal : List Commit} (h : History start journal new)
    (hstart : Orderly start) : Orderly new :=
  h.invariant hstart (fun _ _ _ _ => Orderly.change) (fun _ _ _ => Orderly.stamped)

theorem orderly_create (env : Env) (runId : RunId) (request : CreateRunRequest)
    (outputLanguage : String) (now : Timestamp) :
    Orderly (createSnapshot env runId request outputLanguage now) :=
  {
    numbered := rfl
    positive := Nat.le_refl 1
    iteration := .inr rfl
    ranked := rfl
    unranked := by simp [createSnapshot]
    reviewed := by simp [createSnapshot]
  }

end RunManager

end AgenticPrd
