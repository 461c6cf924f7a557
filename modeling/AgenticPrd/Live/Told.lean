import AgenticPrd.Live.Severity
import AgenticPrd.Live.Stored

/-!
A view that is restored from a snapshot goes on as one that has followed the run from its start.
Every change of the snapshot does to what a snapshot shows what its event does to a view.
-/

namespace AgenticPrd

namespace Live

open RunManager
open Client (Shown Reviews VersionScore RunOutcome RunViewState shown)

variable {old s new : RunSnapshot} {event : Option RunEventType} {payload : Payload}

section Changes

theorem stored_congr (hrequest : SameRequest old s) (hstatus : s.status = old.status)
    (hversions : s.versions = old.versions) (hiteration : s.currentIteration = old.currentIteration)
    (hreviews : s.reviews = old.reviews)
    (hbest : s.bestVersion = old.bestVersion ∧ s.bestScore = old.bestScore)
    (hlatest : s.latestEvaluation = old.latestEvaluation) : stored s = stored old := by
  have hwire : s.wire.versions = old.wire.versions := congrArg (List.map PRDVersion.wire) hversions
  have hbestWire : Client.bestFromSnapshot s.wire = Client.bestFromSnapshot old.wire := by
    unfold Client.bestFromSnapshot RunSnapshot.wire
    rw [hbest.1, hbest.2, hversions]
  ext1
  case status => exact congrArg (fun status => some (Client.Status.run status)) hstatus
  case completed => rw [stored_completed, stored_completed, hversions]
  case reviews =>
    rw [stored_reviews, stored_reviews]
    unfold storedReviews hasReviews liveReviews
    rw [hreviews, hiteration, hversions]
  case scores => rw [stored_scores, stored_scores, hversions]
  case best => exact hbestWire
  case outcome =>
    change (Client.outcomeFromSnapshot s.wire (Client.bestFromSnapshot s.wire)).map _
      = (Client.outcomeFromSnapshot old.wire (Client.bestFromSnapshot old.wire)).map _
    rw [hbestWire]
    unfold Client.outcomeFromSnapshot RunSnapshot.wire
    rw [hstatus, hversions, hiteration, hlatest, hrequest.maxIterations, hrequest.qualityThreshold]

theorem stored_stamped {sequence : Nat} (h : Stamped s sequence new) : stored new = stored s := by
  obtain ⟨now, elapsed, _, rfl⟩ := h
  exact stored_congr ⟨rfl, rfl, rfl⟩ rfl rfl rfl rfl ⟨rfl, rfl⟩ rfl

/--
A change without an event, or one after the end of the run, changes nothing that is shown.
-/
theorem stored_unseen (h : Change old event payload s)
    (hunseen : event = none ∨ old.status.isTerminal = true) : stored s = stored old := by
  have hterminal : ∀ {e : RunEventType}, event = some e → old.status.isTerminal ≠ false := by
    intro e he
    rcases hunseen with hnone | hterminal
    . rw [hnone] at he
      contradiction
    . simp [hterminal]
  cases h with
  | moved hlegal _ =>
    rw [RunStatus.not_canTransition_of_isTerminal (by simpa using hterminal rfl)] at hlegal
    contradiction
  | resumed hpaused =>
    have hopen := hterminal rfl
    rw [hpaused] at hopen
    contradiction
  | failed hopen _ _ => exact absurd hopen (hterminal rfl)
  | generated hopen _ _ _ _ _ => exact absurd hopen (hterminal rfl)
  | reviewed hopen _ _ => exact absurd hopen (hterminal rfl)
  | scored hopen => exact absurd hopen (hterminal rfl)
  | planned hopen _ => exact absurd hopen (hterminal rfl)
  | _ => exact stored_congr ⟨rfl, rfl, rfl⟩ rfl rfl rfl rfl ⟨rfl, rfl⟩ rfl

theorem stored_movedTo (now : Timestamp) (target : RunStatus) (old : RunSnapshot) :
    stored (old.movedTo now target)
      =
    {
      stored old with
      status := some (.run target)
      outcome := (stored (old.movedTo now target)).outcome
    } := by
  unfold RunSnapshot.movedTo
  split <;> rfl

theorem stored_outcome (h : s.status = .completed ∨ s.status = .maxIterationsReached)
    {evaluation : EvaluationResult} (hlatest : s.latestEvaluation = some evaluation) :
    (stored s).outcome
      =
    some {
      thresholdMet := decide (s.status = .completed)
        || decide (s.qualityThreshold ≤ evaluation.overallScore)
      qualityGatePassed := decide (s.status = .completed)
      qualityThreshold := s.qualityThreshold
      completedIterations := s.currentIteration
      maxIterations := s.maxIterations
      bestVersion := (stored s).best.1
      bestScore := (stored s).best.2
      severity := Client.countSeverities []
    } := by
  have hnot : ¬(s.wire.status ≠ .completed ∧ s.wire.status ≠ .maxIterationsReached) := by
    rintro ⟨hcompleted, hexhausted⟩
    cases h with
    | inl h => exact hcompleted h
    | inr h => exact hexhausted h
  have hwire : s.wire.latestEvaluation = some evaluation.wire := by
    unfold RunSnapshot.wire
    rw [hlatest]
    rfl
  change (Client.outcomeFromSnapshot s.wire (Client.bestFromSnapshot s.wire)).map _ = _
  unfold Client.outcomeFromSnapshot
  rw [if_neg hnot, hwire]
  rfl

theorem stored_generated (hold : Orderly old) {version : PRDVersion} {attempt : Nat}
    (hopen : old.status.isTerminal = false)
    (hpending : old.currentIteration = old.versions.length + 1)
    (hversion : version.version = old.currentIteration) (hevaluation : version.evaluation = none) :
    stored (old.withVersion version attempt)
      =
    {
      stored old with
      completed := Function.update (stored old).completed version.version (some version.content)
    } := by
  have hnew : Orderly (old.withVersion version attempt) :=
    hold.generated hpending hversion hevaluation
  rw [stored_open hnew (RunStatus.not_outcome hopen), stored_open hold (RunStatus.not_outcome hopen)]
  ext1
  case completed => exact storedContent_concat old.versions version
  case reviews =>
    funext key
    unfold storedReviews evaluatedReviews RunSnapshot.withVersion
    dsimp only
    rw [judged_concat_none hevaluation]
    rfl
  case scores =>
    funext key
    unfold storedScores RunSnapshot.withVersion
    dsimp only
    rw [judged_concat_none hevaluation]
  all_goals rfl

-- No version but those before the last one has been evaluated.
theorem evaluatedReviews_fresh (h : Orderly s) (hfresh : s.Fresh) :
    Record.get? (evaluatedReviews s.versions) (s.currentIteration : ℚ) = none := by
  obtain ⟨hiteration, last, hlast, hnone⟩ := hfresh
  obtain ⟨earlier, hversions⟩ := List.getLast?_eq_some_iff.mp hlast
  apply judged_none
  intro version hmem hevaluated heq
  have hnumber : version.version = s.currentIteration := by exact_mod_cast heq
  rw [hversions, List.mem_append, List.mem_singleton] at hmem
  cases hmem with
  | inl hearlier =>
    have hlt := (h.last_version hversions).2 version hearlier
    omega
  | inr heqLast =>
    rw [heqLast] at hevaluated
    exact hevaluated hnone

theorem stored_reviewed (hold : Orderly old) {role : ReviewRole} {review : RoleReview}
    (hopen : old.status.isTerminal = false) (hfresh : old.Fresh) :
    stored (old.withReview role review)
      =
    {
      stored old with
      reviews := Function.update (stored old).reviews old.currentIteration
        (some (Function.update (((stored old).reviews old.currentIteration).getD fun _ => none) role
          (some (Client.normalizeReview review.dump))))
    } := by
  have hnew : Orderly (old.withReview role review) := hold.reviewing hfresh
  have hsome : hasReviews (old.withReview role review) = true := by
    rw [hasReviews_iff]
    refine ⟨role, ?_⟩
    unfold RunSnapshot.withReview
    simp
  have hlive : liveReviews (old.withReview role review)
      = Function.update (liveReviews old) role (some (Client.normalizeReview review.dump)) := by
    funext r
    unfold liveReviews RunSnapshot.withReview
    dsimp only
    rw [Function.update_apply, Function.update_apply]
    split <;> rfl
  have hcurrent : (storedReviews old old.currentIteration).getD (fun _ => none) = liveReviews old := by
    unfold storedReviews
    split
    . rfl
    . next hnot =>
      rw [evaluatedReviews_fresh hold hfresh, Option.getD_none]
      funext r
      unfold liveReviews
      cases hrole : old.reviews r with
      | none => rfl
      | some review =>
        exfalso
        apply hnot
        refine ⟨hasReviews_iff.mpr ⟨r, ?_⟩, rfl⟩
        simp [hrole]
  rw [stored_open hnew (RunStatus.not_outcome hopen), stored_open hold (RunStatus.not_outcome hopen)]
  ext1
  case reviews =>
    funext key
    dsimp only
    rw [hcurrent, Function.update_apply, ← hlive]
    unfold storedReviews
    rw [hsome]
    change (if true = true ∧ key = (old.currentIteration : ℚ) then _ else _) = _
    by_cases hkey : key = (old.currentIteration : ℚ)
    . simp [hkey]
    . simp [hkey]
      rfl
  all_goals rfl

theorem stored_scored (hold : Orderly old) {evaluation : EvaluationResult} {bestScore : ℚ}
    {bestVersion : Nat} (hopen : old.status.isTerminal = false) (hfresh : old.Fresh)
    (htech : old.reviews .tech = some evaluation.tech)
    (hux : old.reviews .ux = some evaluation.ux) (hbiz : old.reviews .biz = some evaluation.biz)
    (hscore : old.bestScoreWith evaluation.overallScore = some bestScore)
    (hversion : old.bestVersionWith evaluation.overallScore = some bestVersion) :
    stored (Workflow.aggregate evaluation (some bestScore) (some bestVersion) old)
      =
    {
      stored old with
      scores := Function.update (stored old).scores old.currentIteration (some {
        version := old.currentIteration
        tech := evaluation.tech.score
        ux := evaluation.ux.score
        biz := evaluation.biz.score
        overall := evaluation.overallScore
        severity := Client.countSeverities []
      })
      best := (some (bestVersion : ℚ), some bestScore)
    } := by
  have hnew := hold.scored hfresh htech hux hbiz
  rw [hscore, hversion] at hnew
  rw [stored_open hnew (RunStatus.not_outcome hopen), stored_open hold (RunStatus.not_outcome hopen)]
  obtain ⟨hiteration, last, hlast, hnone⟩ := hfresh
  obtain ⟨earlier, hversions⟩ := List.getLast?_eq_some_iff.mp hlast
  have hnumber : last.version = old.currentIteration := by
    rw [hiteration]
    exact (hold.last_version hversions).1
  generalize hlast' : { last with evaluation := some evaluation } = last'
  have hnumber' : last'.version = old.currentIteration := by
    rw [← hlast']
    exact hnumber
  have hevaluation' : last'.evaluation = some evaluation := by rw [← hlast']
  have hcontent' : last'.content = last.content := by rw [← hlast']
  have hjudged : (Workflow.aggregate evaluation (some bestScore) (some bestVersion) old).versions
      = earlier ++ [last'] := by
    unfold Workflow.aggregate
    rw [hversions, List.modifyLast_concat, hlast']
  have hcompleted : storedContent (earlier ++ [last']) = storedContent old.versions := by
    rw [hversions, storedContent_concat, storedContent_concat, hnumber', hnumber, hcontent']
  have hsome : hasReviews old = true := by
    rw [hasReviews_iff]
    exact ⟨.tech, by simp [htech]⟩
  have hreviews : ∀ key, key ≠ (old.currentIteration : ℚ) →
      Record.get? (evaluatedReviews (earlier ++ [last'])) key
        = Record.get? (evaluatedReviews old.versions) key := by
    intro key hkey
    unfold evaluatedReviews
    rw [hversions, judged_concat hevaluation', judged_concat_none hnone, Record.get?_set, hnumber',
      if_neg hkey]
  have hscores : ∀ key, storedScores (earlier ++ [last']) key
      = if key = (old.currentIteration : ℚ) then
          some (scoreOf last'.wire evaluation.wire).uncounted
        else
          storedScores old.versions key := by
    intro key
    unfold storedScores
    rw [hversions, judged_concat hevaluation', judged_concat_none hnone, Record.get?_set, hnumber']
    split <;> rfl
  rw [hjudged, hcompleted]
  ext1
  case reviews =>
    funext key
    unfold storedReviews
    change (if hasReviews old ∧ key = (old.currentIteration : ℚ) then some (liveReviews old) else _)
      = if hasReviews old ∧ key = (old.currentIteration : ℚ) then some (liveReviews old) else _
    rw [hjudged]
    by_cases hkey : key = (old.currentIteration : ℚ)
    . rw [if_pos ⟨hsome, hkey⟩, if_pos ⟨hsome, hkey⟩]
    . rw [if_neg (fun h => hkey h.2), if_neg (fun h => hkey h.2), hreviews key hkey]
  case scores =>
    funext key
    dsimp only
    rw [hscores, Function.update_apply, ← hnumber']
    rfl
  all_goals rfl

-- The reviews of the round that ends are those of its evaluation.
theorem stored_planned (hold : Orderly old) {plan : RevisionPlan}
    (hopen : old.status.isTerminal = false) (hjudged : old.Judged) :
    stored (old.withPlan plan) = stored old := by
  have hnew : Orderly (old.withPlan plan) := hold.planned hjudged
  rw [stored_open hnew (RunStatus.not_outcome hopen), stored_open hold (RunStatus.not_outcome hopen)]
  ext1
  case reviews =>
    funext key
    have hnone : hasReviews (old.withPlan plan) = false := by
      unfold hasReviews RunSnapshot.withPlan
      simp
    unfold storedReviews
    rw [hnone]
    simp only [Bool.false_eq_true, false_and, if_false]
    change Record.get? (evaluatedReviews old.versions) key = _
    split
    . next hcurrent =>
      have hpositive := hold.positive
      have hlast : ∃ last, old.versions.getLast? = some last := by
        cases hversions : old.versions.getLast? with
        | some last => exact ⟨last, rfl⟩
        | none =>
          rw [List.getLast?_eq_none_iff] at hversions
          have hiteration := hjudged.1
          rw [hversions, List.length_nil] at hiteration
          omega
      obtain ⟨last, hlast⟩ := hlast
      obtain ⟨earlier, hversions⟩ := List.getLast?_eq_some_iff.mp hlast
      obtain ⟨evaluation, hevaluation⟩ :=
        Option.ne_none_iff_exists'.mp (hjudged.2.2 last (List.mem_of_getLast? hlast))
      have hreviews := hold.reviewed hjudged.1 last hlast evaluation hevaluation
      have hnumber : last.version = old.currentIteration := by
        rw [hjudged.1]
        exact (hold.last_version hversions).1
      unfold evaluatedReviews
      rw [hversions, judged_concat hevaluation, Record.get?_set, hnumber, if_pos hcurrent.2]
      congr 1
      funext role
      unfold liveReviews
      rw [hreviews role]
      cases role <;> rfl
    . rfl
  all_goals rfl

end Changes

section Payloads

variable {status target : RunStatus} {evaluation : EvaluationResult} {thresholdMet gatePassed : Bool}

theorem transitionPayload_outcome :
    transitionPayload status target
        (Workflow.outcomePayload evaluation s thresholdMet gatePassed)
      =
    ("previous", .str status.value) :: ("current", .str target.value)
      :: Workflow.outcomePayload evaluation s thresholdMet gatePassed := by
  simp [transitionPayload, Workflow.outcomePayload, Record.update, Record.set]

theorem transitionPayload_current {event : RunEventType} (h : Transit old target event payload) :
    Client.stringPayload (transitionPayload old.status target payload) "current"
      =
    some target.value := by
  cases h with
  | completed _ _ _ | exhausted _ _ =>
    rw [transitionPayload_outcome]
    simp [Client.stringPayload, Client.Value.field, Client.Value.string?, Record.get?_cons]
  | _ =>
    simp [transitionPayload, Record.update, Record.set, Client.stringPayload, Client.Value.field,
      Client.Value.string?, Record.get?_cons]

theorem outcomePayload_best {bestVersion : Nat} {bestScore : ℚ} (hversion : s.bestVersion = some bestVersion)
    (hscore : s.bestScore = some bestScore) :
    Client.optionalNumberPayload (transitionPayload status target
        (Workflow.outcomePayload evaluation s thresholdMet gatePassed)) "best_version"
      = some (bestVersion : ℚ)
      ∧
    Client.optionalNumberPayload (transitionPayload status target
        (Workflow.outcomePayload evaluation s thresholdMet gatePassed)) "best_score"
      = some bestScore := by
  rw [transitionPayload_outcome]
  unfold Workflow.outcomePayload
  rw [hversion, hscore]
  constructor
  . simp [Client.optionalNumberPayload, Client.Value.field, Client.Value.number?, Record.get?_cons,
      Json.ofOption, Json.ofNat]
  . simp [Client.optionalNumberPayload, Client.Value.field, Client.Value.number?, Record.get?_cons,
      Json.ofOption]

theorem outcomeFromPayload_outcome {bestVersion : Nat} {bestScore completedIterations : ℚ}
    {gate : Bool} (hversion : s.bestVersion = some bestVersion)
    (hscore : s.bestScore = some bestScore) :
    (Client.outcomeFromPayload (transitionPayload status target
        (Workflow.outcomePayload evaluation s thresholdMet gatePassed)) completedIterations gate
        none).uncounted
      =
    {
      thresholdMet
      qualityGatePassed := gatePassed
      qualityThreshold := s.qualityThreshold
      completedIterations := s.currentIteration
      maxIterations := s.maxIterations
      bestVersion := some (bestVersion : ℚ)
      bestScore := some bestScore
      severity := Client.countSeverities []
    } := by
  unfold Client.outcomeFromPayload RunOutcome.uncounted
  dsimp only
  rw [(outcomePayload_best hversion hscore).1, (outcomePayload_best hversion hscore).2,
    transitionPayload_outcome]
  simp [Workflow.outcomePayload, Client.numberPayload, Client.Value.field, Client.Value.number?,
    Client.Value.bool?, Record.get?_cons, Json.ofNat]

theorem scoresPayload_fields {version bestVersion : Nat} {previousBest : Option ℚ} {bestScore : ℚ}
    (hpayload : payload = Workflow.scoresPayload evaluation version previousBest (some bestScore)
      (some bestVersion) gatePassed) :
    Client.numberPayload payload "tech" 0 = evaluation.tech.score
      ∧ Client.numberPayload payload "ux" 0 = evaluation.ux.score
      ∧ Client.numberPayload payload "biz" 0 = evaluation.biz.score
      ∧ Client.numberPayload payload "overall" 0 = evaluation.overallScore
      ∧ Client.optionalNumberPayload payload "best_version" = some (bestVersion : ℚ)
      ∧ Client.optionalNumberPayload payload "best_score" = some bestScore := by
  subst hpayload
  simp [Workflow.scoresPayload, Client.numberPayload, Client.optionalNumberPayload,
    Client.Value.field, Client.Value.number?, Record.get?_cons, Json.ofNat, Json.ofOption]

end Payloads

section Told

variable {isoformat : Timestamp → String} {view : RunViewState} {e : RunEvent}

theorem storedContent_pending (h : Orderly old) (hpending : old.text.Pending) :
    storedContent old.versions (old.currentIteration : ℚ) = none := by
  have hiteration : old.currentIteration = old.versions.length + 1 := by
    unfold TextView.Pending RunSnapshot.text at hpending
    simpa using hpending
  apply storedContent_none
  intro version hmem heq
  have hnumber : version.version = old.currentIteration := by exact_mod_cast heq
  have hle := h.version_le hmem
  omega

theorem told_streamed (hold : Orderly old) (hview : shown view = stored old)
    (hpending : old.text.Pending) (hevent : e.event = .prdStreamReset ∨ e.event = .prdDelta)
    {rest : Payload} (hpayload : e.payload = ("version", .ofNat old.currentIteration) :: rest) :
    shown (Client.applyEvent view (e.wire isoformat)) = stored old := by
  rw [Client.shown_streamed hevent, hview]
  rw [hview, stored_completed, eventVersion_wire hpayload]
  exact storedContent_pending hold hpending

theorem not_outcome_of_legal {target : RunStatus} (h : old.status.canTransition target = true) :
    old.status ≠ .completed ∧ old.status ≠ .maxIterationsReached := by
  apply RunStatus.not_outcome
  cases hterminal : old.status.isTerminal with
  | false => rfl
  | true =>
    rw [RunStatus.not_canTransition_of_isTerminal hterminal] at h
    contradiction

theorem told_concluded (hold : Orderly old) (hview : shown view = stored old) {now : Timestamp}
    {target : RunStatus} {evaluation : EvaluationResult} {thresholdMet gatePassed : Bool}
    (hlatest : old.latestEvaluation = some evaluation)
    (hpayload : e.payload = transitionPayload old.status target
      (Workflow.outcomePayload evaluation old thresholdMet gatePassed))
    (hconcludes : Client.Concludes e.event target gatePassed)
    (hmet : thresholdMet = (gatePassed || decide (old.qualityThreshold ≤ evaluation.overallScore))) :
    shown (Client.applyEvent view (e.wire isoformat)) = stored (old.movedTo now target) := by
  obtain ⟨bestScore, hscore⟩ : ∃ score, old.bestScore = some score := by
    cases hbest : old.bestScore with
    | some score => exact ⟨score, rfl⟩
    | none =>
      have hunranked := (hold.unranked hbest).1
      rw [hlatest] at hunranked
      contradiction
  obtain ⟨bestVersion, hversion⟩ : ∃ version, old.bestVersion = some version := by
    have hranked := hold.ranked
    rw [hscore, Option.isSome_some, Option.isSome_iff_exists] at hranked
    exact hranked
  have hterminal : target.isTerminal = true ∧ (target = .completed ∨ target = .maxIterationsReached)
      ∧ decide (target = .completed) = gatePassed := by
    rcases hconcludes with ⟨_, rfl, rfl⟩ | ⟨_, rfl, rfl⟩ <;> simp [RunStatus.isTerminal]
  have hmoved : old.movedTo now target = (old.withStatus target).withEnd now := by
    unfold RunSnapshot.movedTo
    rw [if_pos hterminal.1]
  have hbest : (stored (old.movedTo now target)).best = (some (bestVersion : ℚ), some bestScore) := by
    rw [stored_movedTo]
    dsimp only
    rw [stored_best hold]
    unfold storedBest
    rw [hversion, hscore]
  have houtcome : (stored (old.movedTo now target)).outcome = some {
        thresholdMet
        qualityGatePassed := gatePassed
        qualityThreshold := old.qualityThreshold
        completedIterations := old.currentIteration
        maxIterations := old.maxIterations
        bestVersion := some (bestVersion : ℚ)
        bestScore := some bestScore
        severity := Client.countSeverities []
      } := by
    have hstatus : (old.movedTo now target).status = target := by rw [hmoved]; rfl
    have hevaluation : (old.movedTo now target).latestEvaluation = some evaluation := by
      rw [hmoved]
      exact hlatest
    rw [stored_outcome (by rw [hstatus]; exact hterminal.2.1) hevaluation, hbest, hstatus,
      hterminal.2.2, hmoved, hmet]
    rfl
  have hsent : Client.optionalNumberPayload (e.wire isoformat).payload "best_version"
        = some (bestVersion : ℚ)
      ∧ Client.optionalNumberPayload (e.wire isoformat).payload "best_score" = some bestScore := by
    change Client.optionalNumberPayload e.payload _ = _
      ∧ Client.optionalNumberPayload e.payload _ = _
    rw [hpayload]
    exact outcomePayload_best hversion hscore
  have hconcludesWire : Client.Concludes (e.wire isoformat).event target gatePassed := hconcludes
  rw [Client.shown_concluded hconcludesWire hsent.1 hsent.2, hview]
  ext1
  case best => exact hbest.symm
  case outcome =>
    dsimp only
    rw [houtcome, show (e.wire isoformat).payload = e.payload from rfl, hpayload,
      outcomeFromPayload_outcome hversion hscore]
  all_goals
    rw [stored_movedTo]

theorem told_moved (hold : Orderly old) (hview : shown view = stored old) {now : Timestamp}
    {target : RunStatus} {event : RunEventType} {rest : Payload}
    (hlegal : old.status.canTransition target = true) (htransit : Transit old target event rest)
    (hevent : e.event = event) (hpayload : e.payload = transitionPayload old.status target rest) :
    shown (Client.applyEvent view (e.wire isoformat)) = stored (old.movedTo now target) := by
  have hnew : Orderly (old.movedTo now target) := hold.change (.moved hlegal htransit)
  have hopen := not_outcome_of_legal hlegal
  have hstatus : (old.movedTo now target).status = target := by
    unfold RunSnapshot.movedTo
    split <;> rfl
  have hcurrent := transitionPayload_current htransit
  rw [← hpayload] at hcurrent
  have hplain : target ≠ .completed ∧ target ≠ .maxIterationsReached →
      stored (old.movedTo now target) = { shown view with status := some (.run target) } := by
    intro htarget
    have hnone : (stored (old.movedTo now target)).outcome = (stored old).outcome := by
      rw [stored_outcome_none hopen]
      apply stored_outcome_none
      rw [hstatus]
      exact htarget
    rw [hview, stored_movedTo, hnone]
  cases htransit with
  | stage htarget =>
    rw [hplain, Client.shown_moved (.inl hevent) hcurrent]
    constructor
    . rintro rfl
      contradiction
    . rintro rfl
      contradiction
  | pauseRequested => rw [hplain (by simp), Client.shown_moved (.inr hevent) hcurrent]
  | paused =>
    rw [hplain (by simp)]
    apply Client.shown_implied
    rw [show (e.wire isoformat).event = e.event from rfl, hevent]
    rfl
  | cancelled =>
    rw [hplain (by simp)]
    apply Client.shown_implied
    rw [show (e.wire isoformat).event = e.event from rfl, hevent]
    rfl
  | completed _ hlatest hthreshold =>
    exact told_concluded hold hview hlatest hpayload (.inl ⟨hevent, rfl, rfl⟩) rfl
  | exhausted _ hlatest =>
    exact told_concluded hold hview hlatest hpayload (.inr ⟨hevent, rfl, rfl⟩) rfl

-- The status alone changes, as the event says by itself.
theorem told_implied (hview : shown view = stored old)
    (hopen : old.status ≠ .completed ∧ old.status ≠ .maxIterationsReached)
    (hstatus : s.status ≠ .completed ∧ s.status ≠ .maxIterationsReached)
    (himplied : Client.impliedStatus e.event = some s.status)
    (hnew : stored s
      = { stored old with status := some (.run s.status), outcome := (stored s).outcome }) :
    shown (Client.applyEvent view (e.wire isoformat)) = stored s := by
  have hnone : (stored s).outcome = (stored old).outcome := by
    rw [stored_outcome_none hopen, stored_outcome_none hstatus]
  have himpliedWire : Client.impliedStatus (e.wire isoformat).event = some s.status := himplied
  rw [Client.shown_implied himpliedWire, hview, hnew, hnone]

theorem told_quiet (hview : shown view = stored old)
    (hquiet : e.event ∈ [RunEventType.runStarted, .nodeStarted, .revisionPlanned, .telemetryUpdated])
    (hsame : stored s = stored old) :
    shown (Client.applyEvent view (e.wire isoformat)) = stored s := by
  have hquietWire : (e.wire isoformat).event
      ∈ [RunEventType.runStarted, .nodeStarted, .revisionPlanned, .telemetryUpdated] := hquiet
  rw [Client.shown_quiet hquietWire, hview, hsame]

/--
What a change does to the snapshot, its event does to a view that shows what the snapshot shows.
-/
theorem told (hold : Orderly old) (hview : shown view = stored old)
    (hchange : Change old (some e.event) e.payload s) (hiteration : e.iteration = s.currentIteration) :
    shown (Client.applyEvent view (e.wire isoformat)) = stored s := by
  have hkey : (e.wire isoformat).iteration = (s.currentIteration : ℚ) :=
    congrArg (Nat.cast : Nat → ℚ) hiteration
  have hsent : (e.wire isoformat).payload = e.payload := rfl
  generalize hevent : e.event = event at hchange
  generalize hpayload : e.payload = payload at hchange hsent
  have hwire : (e.wire isoformat).event = event := hevent
  cases hchange with
  | started | marked | used =>
    apply told_quiet hview (by simp [hevent])
    exact stored_congr ⟨rfl, rfl, rfl⟩ rfl rfl rfl rfl ⟨rfl, rfl⟩ rfl
  | planned hopen hjudged =>
    exact told_quiet hview (by simp [hevent]) (stored_planned hold hopen hjudged)
  | moved hlegal htransit => exact told_moved hold hview hlegal htransit hevent hpayload
  | resumed hpaused =>
    have hopen : old.status.isTerminal = false := by
      rw [hpaused]
      rfl
    apply told_implied hview (RunStatus.not_outcome hopen) (RunStatus.not_outcome rfl)
    . rw [hevent]
      rfl
    . rfl
  | failed hopen _ _ =>
    apply told_implied hview (RunStatus.not_outcome hopen)
    . exact ⟨by simp [failSnapshot], by simp [failSnapshot]⟩
    . rw [hevent]
      rfl
    . rfl
  | reset _ hpending _ =>
    rw [told_streamed hold hview hpending (.inl hevent) hpayload]
    symm
    exact stored_congr ⟨rfl, rfl, rfl⟩ rfl rfl rfl rfl ⟨rfl, rfl⟩ rfl
  | streamed _ hpending =>
    rw [told_streamed hold hview hpending (.inr hevent) hpayload]
    symm
    exact stored_congr ⟨rfl, rfl, rfl⟩ rfl rfl rfl rfl ⟨rfl, rfl⟩ rfl
  | generated hopen _ hpending hversion hevaluation _ =>
    rw [Client.shown_generated hwire, stored_generated hold hopen hpending hversion hevaluation,
      hview, eventVersion_wire hpayload, hsent]
    simp [generatedPayload, Client.stringPayload, Client.Value.field, Client.Value.string?,
      Record.get?_cons]
  | @reviewed role review hopen hfresh hrole =>
    change (e.wire isoformat).iteration = (old.currentIteration : ℚ) at hkey
    have hrole' : (Client.stringPayload (e.wire isoformat).payload "role").bind Client.reviewRole?
        = some role := by
      rw [hsent, dump_role, hrole]
    rw [Client.shown_reviewed hwire hrole', stored_reviewed hold hopen hfresh, hview, hkey, hsent]
  | @scored evaluation gatePassed hopen _ hfresh htech hux hbiz =>
    change (e.wire isoformat).iteration = (old.currentIteration : ℚ) at hkey
    obtain ⟨bestScore, hscore⟩ :=
      Option.isSome_iff_exists.mp (bestScoreWith_isSome old evaluation.overallScore)
    obtain ⟨bestVersion, hversion⟩ :=
      Option.isSome_iff_exists.mp (bestVersionWith_isSome hold evaluation.overallScore)
    rw [hscore, hversion] at hsent ⊢
    obtain ⟨hsentTech, hsentUx, hsentBiz, hsentOverall, hsentVersion, hsentScore⟩ :=
      scoresPayload_fields hsent
    rw [Client.shown_scored hwire hsentVersion hsentScore,
      stored_scored hold hopen hfresh htech hux hbiz hscore hversion, hview, hkey, hsentTech,
      hsentUx, hsentBiz, hsentOverall]

-- The status that an event brings does not depend on what else the view shows.
theorem told_status (hold : Orderly old) {view : RunViewState}
    (hview : view.status = some (.run old.status))
    (hchange : Change old (some e.event) e.payload s) (hiteration : e.iteration = s.currentIteration) :
    (Client.applyEvent view (e.wire isoformat)).status = some (.run s.status) := by
  let loaded := Client.loadSnapshot Client.initialRunViewState old.wire
  have hloaded : shown (Client.applyEvent loaded (e.wire isoformat)) = stored s := by
    exact told hold (shown_loadSnapshot _ old) hchange hiteration
  have hstatus := congrArg Client.Shown.status hloaded
  change (Client.applyEvent _ (e.wire isoformat)).status = some (.run s.status) at hstatus
  rw [Client.applyEvent_status] at hstatus ⊢
  rw [hview]
  exact hstatus

end Told

end Live

end AgenticPrd
