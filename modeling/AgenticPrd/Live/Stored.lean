import AgenticPrd.Backend.RunManager.Order
import AgenticPrd.Client.Shown
import AgenticPrd.Live.Drafts

/-!
What a view shows after it has loaded a snapshot, and how a change of the snapshot changes that.
-/

namespace AgenticPrd

namespace Live

open RunManager
open Client (Shown Reviews VersionScore RunOutcome RunViewState shown)

-- What the snapshot shows. No part of it depends on the view that loads the snapshot.
def stored (s : RunSnapshot) : Shown :=
  shown (Client.loadSnapshot Client.initialRunViewState s.wire)

theorem shown_loadSnapshot (view : RunViewState) (s : RunSnapshot) :
    shown (Client.loadSnapshot view s.wire) = stored s :=
  rfl

section Parts

def storedContent (versions : List PRDVersion) (version : ℚ) : Option String :=
  (Record.get? (Client.versionsFromSnapshot (versions.map PRDVersion.wire)) version).map
    Client.VersionDraft.content

-- What a projection keeps of the versions that have been evaluated.
def judged {α : Type} (f : Client.PRDVersion → Client.EvaluationResult → α)
    (versions : List PRDVersion) : List (ℚ × α) :=
  Record.update [] ((versions.map PRDVersion.wire).filterMap fun version =>
    version.evaluation.map fun evaluation => (version.version, f version evaluation))

def evaluatedReviews (versions : List PRDVersion) : List (ℚ × Reviews) :=
  judged (fun _ evaluation => Client.evaluationReviews evaluation) versions

-- The reviews of the iteration in progress.
def liveReviews (s : RunSnapshot) : Reviews :=
  fun role => (s.reviews role).map fun review => Client.normalizeReview review.dump

def hasReviews (s : RunSnapshot) : Bool :=
  Client.reviewRoles.any fun role => (s.reviews role).isSome

def storedReviews (s : RunSnapshot) (version : ℚ) : Option Reviews :=
  if hasReviews s ∧ version = s.currentIteration then
    some (liveReviews s)
  else
    Record.get? (evaluatedReviews s.versions) version

def scoreOf (version : Client.PRDVersion) (evaluation : Client.EvaluationResult) : VersionScore :=
  {
    version := version.version
    tech := evaluation.tech.score
    ux := evaluation.ux.score
    biz := evaluation.biz.score
    overall := evaluation.overallScore
    severity := Client.severitiesFromEvaluation evaluation
  }

def storedScores (versions : List PRDVersion) (version : ℚ) : Option VersionScore :=
  (Record.get? (judged scoreOf versions) version).map VersionScore.uncounted

def storedBest (s : RunSnapshot) : Option ℚ × Option ℚ :=
  match s.bestVersion, s.bestScore with
  | some version, some score => (some (version : ℚ), some score)
  | _, _ => (none, none)

variable {s : RunSnapshot}

theorem stored_completed (s : RunSnapshot) : (stored s).completed = storedContent s.versions := by
  funext version
  have hcomplete : ∀ draft,
      Record.get? (Client.versionsFromSnapshot s.wire.versions) version = some draft →
        draft.complete = true := by
    intro draft hdraft
    exact versionsFromSnapshot_complete hdraft
  have hversions : Client.completedContent (Client.versionsFromSnapshot s.wire.versions) version
      = storedContent s.versions version := by
    unfold Client.completedContent storedContent
    change _ = (Record.get? (Client.versionsFromSnapshot s.wire.versions) version).map _
    cases hdraft : Record.get? (Client.versionsFromSnapshot s.wire.versions) version with
    | none => rfl
    | some draft =>
      rw [Option.filter_some, if_pos (hcomplete draft hdraft)]
  change Client.completedContent (Client.draftsFromSnapshot s.wire) version = _
  rw [← hversions]
  unfold Client.draftsFromSnapshot
  dsimp only
  split
  . next hseeds =>
    rw [Client.completedContent_set rfl]
    unfold Client.seedsDraft at hseeds
    simp only [Bool.and_eq_true, Option.isNone_iff_eq_none] at hseeds
    unfold Client.completedContent
    rw [hseeds.1.1]
    rfl
  . rfl

theorem hasReviews_iff : hasReviews s = true ↔ ∃ role, s.reviews role ≠ none := by
  unfold hasReviews
  simp only [List.any_eq_true, Option.isSome_iff_ne_none]
  constructor
  . rintro ⟨role, _, hrole⟩
    exact ⟨role, hrole⟩
  . rintro ⟨role, hrole⟩
    refine ⟨role, ?_, hrole⟩
    cases role <;> simp [Client.reviewRoles]

theorem hasReviews_wire :
    (Client.reviewRoles.any fun role => (s.wire.reviews role).isSome) = hasReviews s := by
  unfold hasReviews RunSnapshot.wire
  simp only [Option.isSome_map]

theorem stored_reviews (s : RunSnapshot) : (stored s).reviews = storedReviews s := by
  funext version
  change Record.get? (Client.reviewsFromSnapshot s.wire) version = _
  unfold Client.reviewsFromSnapshot storedReviews
  have hlive : (fun role => (s.wire.reviews role).map Client.normalizeReview) = liveReviews s := by
    funext role
    unfold RunSnapshot.wire liveReviews
    rw [Option.map_map]
    rfl
  dsimp only
  rw [hasReviews_wire]
  cases hasReviews s with
  | true =>
    rw [if_pos rfl, Record.update_concat, Record.get?_set, hlive]
    simp only [true_and]
    rfl
  | false =>
    rw [if_neg Bool.false_ne_true, List.append_nil]
    simp only [Bool.false_eq_true, false_and, if_false]
    rfl

theorem stored_scores (s : RunSnapshot) : (stored s).scores = storedScores s.versions :=
  rfl

theorem bestOfVersions_eq (versions : List PRDVersion)
    (h : ∀ version ∈ versions, version.evaluation = none) :
    Client.bestOfVersions (versions.map PRDVersion.wire) = (none, none) := by
  induction versions with
  | nil => rfl
  | cons version versions ih =>
    simp only [List.forall_mem_cons] at h
    have hwire : version.wire.evaluation = none := by
      unfold PRDVersion.wire
      rw [h.1]
      rfl
    unfold Client.bestOfVersions at ih ⊢
    rw [List.map_cons, List.foldl_cons, hwire]
    exact ih h.2

theorem bestFromSnapshot_eq (h : Orderly s) : Client.bestFromSnapshot s.wire = storedBest s := by
  have hranked := h.ranked
  unfold Client.bestFromSnapshot storedBest RunSnapshot.wire
  cases hscore : s.bestScore with
  | none =>
    have hversion : s.bestVersion = none := by simpa [hscore] using hranked
    rw [hversion]
    exact bestOfVersions_eq s.versions (h.unranked hscore).2
  | some score =>
    rw [hscore, Option.isSome_some, Option.isSome_iff_exists] at hranked
    obtain ⟨version, hversion⟩ := hranked
    rw [hversion]
    rfl

theorem stored_best (h : Orderly s) : (stored s).best = storedBest s := by
  rw [← bestFromSnapshot_eq h]
  rfl

theorem stored_outcome_none
    (h : s.status ≠ .completed ∧ s.status ≠ .maxIterationsReached) : (stored s).outcome = none := by
  change (Client.outcomeFromSnapshot s.wire _).map _ = none
  have hwire : s.wire.status ≠ .completed ∧ s.wire.status ≠ .maxIterationsReached := h
  unfold Client.outcomeFromSnapshot
  rw [if_pos hwire]
  rfl

/--
What is shown of a run that has not come to an outcome.
-/
theorem stored_open (h : Orderly s)
    (hopen : s.status ≠ .completed ∧ s.status ≠ .maxIterationsReached) :
    stored s
      =
    {
      status := some (.run s.status)
      completed := storedContent s.versions
      reviews := storedReviews s
      scores := storedScores s.versions
      best := storedBest s
      outcome := none
    } := by
  ext1
  case status => rfl
  case completed => exact stored_completed s
  case reviews => exact stored_reviews s
  case scores => exact stored_scores s
  case best => exact stored_best h
  case outcome => exact stored_outcome_none hopen

end Parts

section Versions

variable {earlier versions : List PRDVersion} {version : PRDVersion} {evaluation : EvaluationResult}

theorem storedContent_concat (earlier : List PRDVersion) (version : PRDVersion) :
    storedContent (earlier ++ [version])
      =
    Function.update (storedContent earlier) version.version (some version.content) := by
  funext key
  unfold storedContent Client.versionsFromSnapshot
  rw [List.map_append, List.map_append]
  simp only [List.map_singleton]
  rw [Record.update_concat, Record.get?_set, Function.update_apply]
  change Option.map _ (if key = (version.version : ℚ) then _ else _) = _
  split <;> rfl

theorem storedContent_none {key : ℚ} (h : ∀ version ∈ versions, (version.version : ℚ) ≠ key) :
    storedContent versions key = none := by
  unfold storedContent
  cases hdraft : Record.get? (Client.versionsFromSnapshot (versions.map PRDVersion.wire)) key with
  | none => rfl
  | some draft =>
    exfalso
    cases Record.get?_update hdraft with
    | inl hnil => contradiction
    | inr hmem =>
      rw [List.map_map] at hmem
      obtain ⟨version, hversion, heq⟩ := List.mem_map.mp hmem
      exact h version hversion (congrArg Prod.fst heq)

variable {α : Type} {f : Client.PRDVersion → Client.EvaluationResult → α}

theorem judged_concat_none (h : version.evaluation = none) :
    judged f (earlier ++ [version]) = judged f earlier := by
  have hwire : version.wire.evaluation = none := by
    unfold PRDVersion.wire
    rw [h]
    rfl
  unfold judged
  simp only [List.map_append, List.filterMap_append, List.map_singleton, List.filterMap_cons, hwire,
    Option.map_none, List.filterMap_nil, List.append_nil]

theorem judged_concat (h : version.evaluation = some evaluation) :
    judged f (earlier ++ [version])
      =
    Record.set (judged f earlier) version.version (f version.wire evaluation.wire) := by
  have hwire : version.wire.evaluation = some evaluation.wire := by
    unfold PRDVersion.wire
    rw [h]
    rfl
  unfold judged
  simp only [List.map_append, List.filterMap_append, List.map_singleton, List.filterMap_cons, hwire,
    Option.map_some, List.filterMap_nil, Record.update_concat]
  rfl

theorem judged_none {key : ℚ}
    (h : ∀ version ∈ versions, version.evaluation ≠ none → (version.version : ℚ) ≠ key) :
    Record.get? (judged f versions) key = none := by
  cases hentry : Record.get? (judged f versions) key with
  | none => rfl
  | some entry =>
    exfalso
    cases Record.get?_update hentry with
    | inl hnil => contradiction
    | inr hmem =>
      rw [List.filterMap_map] at hmem
      obtain ⟨version, hversion, heq⟩ := List.mem_filterMap.mp hmem
      cases hevaluation : version.evaluation with
      | none => simp [PRDVersion.wire, hevaluation] at heq
      | some evaluation =>
        simp only [Function.comp_apply, PRDVersion.wire, hevaluation, Option.map_some,
          Option.some.injEq, Prod.mk.injEq] at heq
        apply h version hversion _ heq.1
        rw [hevaluation]
        exact Option.some_ne_none _

end Versions

end Live

end AgenticPrd
