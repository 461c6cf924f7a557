import AgenticPrd.Client.RunReducer

/-!
What a failed run still has (`failureNotice.ts`). How JavaScript writes a number is left open: `text`
is what a template makes of it, and `toFixed` what `toFixed(1)` does.
-/

namespace AgenticPrd

namespace Client

structure FailureNotice where
  headline : String
  detail : Option String
  deriving DecidableEq

structure FailureFacts where
  completedVersions : List ℚ
  failedVersion : ℚ
  reviewedVersions : List ℚ
  hasRevisionPlan : Bool
  bestVersion : Option ℚ
  bestScore : Option ℚ

-- `snapshot?.versions ?? []`
def snapshotVersions (state : RunViewState) : List PRDVersion :=
  (state.snapshot.map RunSnapshot.versions).getD []

-- The order of the two sets is not looked at: the first one is sorted, the other one only searched.
def factsFromState (state : RunViewState) : FailureFacts :=
  let versions := snapshotVersions state
  let drafts := state.drafts.map Prod.snd
  let completed :=
    (versions.map PRDVersion.version
      ++ (drafts.filter VersionDraft.complete).map VersionDraft.version).dedup
  let reviewed :=
    (state.reviewsByVersion.map Prod.fst
      ++ (versions.filter fun version => version.evaluation.isSome).map PRDVersion.version).dedup
  let known := drafts.map VersionDraft.version ++ completed
  {
    completedVersions := completed.insertionSort (fun a b => a ≤ b)
    failedVersion := known.foldl max ((state.snapshot.map RunSnapshot.currentIteration).getD 1)
    reviewedVersions := reviewed
    hasRevisionPlan :=
      (match state.pendingRevisionPlan with
        | .null => false
        | _ => true)
        || !state.revisionPlansBySourceVersion.isEmpty
        || versions.any fun version => Value.truthy version.revisionPlan
    bestVersion := state.bestVersion
    bestScore := state.bestScore
  }

def firstVersionHeadline : String :=
  "首版 PRD 生成失败"

section Notice

variable (text toFixed : ℚ → String)

def headline (version : ℚ) : String :=
  "v" ++ text version ++ " 生成失败"

def survivors (kept : List ℚ) : String :=
  "、".intercalate (kept.map fun version => "v" ++ text version)

def failureNotice (state : RunViewState) : Option FailureNotice :=
  if state.status ≠ some (.run .failed) then
    none
  else if state.snapshot.isNone then
    none
  else
    let facts := factsFromState state
    if facts.failedVersion ∈ facts.completedVersions then
      none
    else
      let kept := facts.completedVersions.filter fun version => version < facts.failedVersion
      if kept.isEmpty then
        some { headline := firstVersionHeadline, detail := none }
      else
        let hasReviews := kept.any fun version => version ∈ facts.reviewedVersions
        let surviving :=
          match hasReviews, facts.hasRevisionPlan with
          | true, true => survivors text kept ++ " 及已有评审和修订计划已保留。"
          | true, false => survivors text kept ++ " 及已有评审已保留。"
          | false, true => survivors text kept ++ " 及已有修订计划已保留。"
          | false, false => survivors text kept ++ " 已保留。"
        let best :=
          match facts.bestVersion, facts.bestScore with
          | some version, some score =>
            if version ∈ kept then
              some ("最佳可用版本：v" ++ text version ++ " · " ++ toFixed score)
            else
              none
          | _, _ => none
        some {
          headline := headline text facts.failedVersion
          detail := some (surviving ++ best.getD "")
        }

variable {text toFixed}

theorem headline_ne_first (version : ℚ) : headline text version ≠ firstVersionHeadline := by
  intro h
  have hfirst := congrArg (fun said : String => said.toList.head?) h
  simp [headline, firstVersionHeadline] at hfirst

-- What the notice says, up to the end of its detail.
theorem failureNotice_eq {state : RunViewState} (hstatus : state.status = some (.run .failed))
    (hsnapshot : state.snapshot.isNone = false) :
    ∃ rest,
      failureNotice text toFixed state
        =
      let facts := factsFromState state
      let kept := facts.completedVersions.filter fun version => version < facts.failedVersion
      if facts.failedVersion ∈ facts.completedVersions then
        none
      else if kept.isEmpty then
        some { headline := firstVersionHeadline, detail := none }
      else
        some {
          headline := headline text facts.failedVersion
          detail := some (survivors text kept ++ rest)
        } := by
  unfold failureNotice
  rw [if_neg (not_not.mpr hstatus), hsnapshot, if_neg Bool.false_ne_true]
  dsimp only
  generalize List.any _ _ = hasReviews
  generalize (factsFromState state).hasRevisionPlan = hasRevisionPlan
  cases hasReviews <;> cases hasRevisionPlan <;> dsimp only <;> rw [String.append_assoc] <;>
    exact ⟨_, rfl⟩

variable (text toFixed)

-- The facts say the same of a run.
structure FailureFacts.Agrees (facts facts' : FailureFacts) : Prop where
  completedVersions : facts.completedVersions = facts'.completedVersions
  failedVersion : facts.failedVersion = facts'.failedVersion
  reviewedVersions :
    ∀ version ∈ facts.completedVersions,
      version ∈ facts.reviewedVersions ↔ version ∈ facts'.reviewedVersions
  hasRevisionPlan : facts.hasRevisionPlan = facts'.hasRevisionPlan
  bestVersion : facts.bestVersion = facts'.bestVersion
  bestScore : facts.bestScore = facts'.bestScore

theorem failureNotice_congr {state state' : RunViewState} (hstatus : state.status = state'.status)
    (hsnapshot : state.snapshot.isNone = state'.snapshot.isNone)
    (hfacts : (factsFromState state).Agrees (factsFromState state')) :
    failureNotice text toFixed state = failureNotice text toFixed state' := by
  unfold failureNotice
  dsimp only
  have hreviewed : ∀ failed : ℚ,
      (((factsFromState state').completedVersions.filter fun version => version < failed).any
          fun version => version ∈ (factsFromState state).reviewedVersions)
        =
      (((factsFromState state').completedVersions.filter fun version => version < failed).any
          fun version => version ∈ (factsFromState state').reviewedVersions) := by
    intro failed
    rw [Bool.eq_iff_iff, List.any_eq_true, List.any_eq_true]
    apply exists_congr
    intro version
    apply and_congr_right
    intro hversion
    have hmem := (List.mem_filter.mp hversion).1
    rw [← hfacts.completedVersions] at hmem
    simpa using hfacts.reviewedVersions version hmem
  rw [hstatus, hsnapshot, hfacts.completedVersions, hfacts.failedVersion, hfacts.hasRevisionPlan,
    hfacts.bestVersion, hfacts.bestScore, hreviewed]

end Notice

end Client

end AgenticPrd
