import AgenticPrd.Backend.Workflow.Basic
import AgenticPrd.Client.Projection
import AgenticPrd.Client.ReviewPanel
import AgenticPrd.Live.Wire

/-!
The findings of a round by severity, as the backend counts them, as the client counts them from the
events of the reviewers and from a stored evaluation, and as the review panel lists them.
-/

namespace AgenticPrd

def Client.SeverityCounts.of (counts : SeverityCounts) : FeedbackSeverity → ℚ
  | .mustFix => counts.mustFix
  | .shouldFix => counts.shouldFix
  | .optional => counts.optional

namespace Live

section Counts

-- The count that `scores_updated` and the event that ends a run carry.
def sentCount (payload : Payload) (severity : FeedbackSeverity) : Option ℚ :=
  Client.optionalNumberPayload payload (severity.value ++ "_count")

def liveCount (view : Client.RunViewState) (version : ℚ) (severity : FeedbackSeverity) : ℚ :=
  let counts := Client.severitiesFromReviews (Record.get? view.reviewsByVersion version)
  (counts.getD (Client.countSeverities [])).of severity

def storedCount (evaluation : EvaluationResult) (severity : FeedbackSeverity) : ℚ :=
  (Client.severitiesFromEvaluation evaluation.wire).of severity

def listedCount (version : ℚ) (reviews : Option Client.Reviews) (severity : FeedbackSeverity) : ℚ :=
  (Client.reviewPanel (some version) reviews).countP fun entry => entry.severity = severity

end Counts

-- A finding of which the client drops everything.
def Blank (item : FeedbackItem) : Prop :=
  Client.trim item.issue = "" ∧ Client.trim item.recommendation = ""

instance (item : FeedbackItem) : Decidable (Blank item) :=
  inferInstanceAs (Decidable (_ ∧ _))

section Normalize

def normalizedItem (item : FeedbackItem) : Client.FeedbackItem :=
  let issue := Client.trim item.issue
  let recommendation := Client.trim item.recommendation
  {
    severity := item.severity
    issue := if issue = "" then recommendation else issue
    recommendation := if recommendation = "" then issue else recommendation
  }

theorem normalizeFeedbackItem_toJson (item : FeedbackItem) :
    Client.normalizeFeedbackItem item.toJson
      =
    if Blank item then none else some (normalizedItem item) := by
  have hfields : Client.Value.field item.toJson "issue" = .str item.issue
      ∧ Client.Value.field item.toJson "recommendation" = .str item.recommendation
      ∧ Client.Value.field item.toJson "severity" = .str item.severity.value := by
    simp [Client.Value.field, FeedbackItem.toJson, Record.get?_cons]
  have hobj : Client.normalizeFeedbackItem item.toJson
      = if Client.trim item.issue = "" ∧ Client.trim item.recommendation = "" then
          none
        else
          some (normalizedItem item) := by
    unfold Client.normalizeFeedbackItem FeedbackItem.toJson
    dsimp only
    unfold FeedbackItem.toJson at hfields
    rw [hfields.1, hfields.2.1, hfields.2.2]
    simp only [Client.Value.string?, Option.map_some, Option.getD_some, Option.bind_some,
      Client.feedbackSeverity?_value]
    rfl
  rw [hobj]
  by_cases h : Blank item
  . rw [if_pos h]
    exact if_pos h
  . rw [if_neg h]
    exact if_neg h

def normalizedItems (items : List FeedbackItem) : List Client.FeedbackItem :=
  (items.filter fun item => ¬Blank item).map normalizedItem

theorem normalizeFeedback_toJson (items : List FeedbackItem) :
    Client.normalizeFeedback (.arr (items.map FeedbackItem.toJson)) = normalizedItems items := by
  unfold Client.normalizeFeedback normalizedItems Client.Value.items
  dsimp only
  induction items with
  | nil => rfl
  | cons item items ih =>
    rw [List.map_cons, List.filterMap_cons, normalizeFeedbackItem_toJson, ih, List.filter_cons]
    by_cases h : Blank item
    . simp [h]
    . simp [h]

theorem normalizedItem_issue {item : FeedbackItem} (h : ¬Blank item) :
    Client.trim (normalizedItem item).issue ≠ "" := by
  unfold normalizedItem
  dsimp only
  by_cases hissue : Client.trim item.issue = ""
  . rw [if_pos hissue]
    apply Client.trim_trim_ne_empty
    intro hrecommendation
    exact h ⟨hissue, hrecommendation⟩
  . rw [if_neg hissue]
    exact Client.trim_trim_ne_empty hissue

variable {severity : FeedbackSeverity} {items : List FeedbackItem}

theorem countP_normalizedItems :
    (normalizedItems items).countP (fun item => item.severity = severity)
      =
    items.countP fun item => item.severity = severity ∧ ¬Blank item := by
  unfold normalizedItems
  rw [List.countP_map, List.countP_filter]
  apply List.countP_congr
  intro item _
  simp only [Function.comp_apply, Bool.and_eq_true, decide_eq_true_iff]
  rfl

theorem countP_feedbackList_normalizedItems :
    (Client.feedbackList (normalizedItems items)).countP (fun entry => entry.severity = severity)
      =
    items.countP fun item => item.severity = severity ∧ ¬Blank item := by
  rw [Client.countP_feedbackList, countP_normalizedItems]
  intro item hitem
  unfold normalizedItems at hitem
  obtain ⟨source, hsource, rfl⟩ := List.mem_map.mp hitem
  apply normalizedItem_issue
  simpa using (List.mem_filter.mp hsource).2

theorem countSeverities_of (items : List Client.FeedbackItem) (severity : FeedbackSeverity) :
    (Client.countSeverities items).of severity
      =
    items.countP fun item => item.severity = severity := by
  cases severity <;> rfl

end Normalize

section Reviewers

variable {isoformat : Timestamp → String} {reviews : ReviewRole → RoleReview} {version : Nat}
  {view : Client.RunViewState} {role : ReviewRole}

-- The events of the reviewers for a version.
def reviewEvents (version : Nat) (log : List RunEvent) : List RunEvent :=
  log.filter fun e => e.event = .reviewCompleted ∧ e.iteration = version

-- The view holds what a reviewer has sent for a version.
def Heard (reviews : ReviewRole → RoleReview) (version : Nat) (view : Client.RunViewState)
    (role : ReviewRole) : Prop :=
  ∃ entry, Record.get? view.reviewsByVersion (version : ℚ) = some entry
    ∧ entry role = some (Client.normalizeReview (reviews role).dump)

@[simp]
theorem reviewRole?_value (role : ReviewRole) : Client.reviewRole? role.value = some role := by
  cases role <;> decide

theorem dump_role (review : RoleReview) :
    (Client.stringPayload review.dump "role").bind Client.reviewRole? = some review.role := by
  unfold Client.stringPayload RoleReview.dump
  simp [Client.Value.field, Client.Value.string?, Record.get?_cons]

-- What `review_completed` does to the reviews of a view.
theorem applyEvent_review {e : RunEvent} {review : RoleReview} (hevent : e.event = .reviewCompleted)
    (hpayload : e.payload = review.dump) :
    (Client.applyEvent view (e.wire isoformat)).reviewsByVersion
      =
    Record.set view.reviewsByVersion (e.iteration : ℚ)
      (Function.update
        ((Record.get? view.reviewsByVersion (e.iteration : ℚ)).getD fun _ => none)
        review.role (some (Client.normalizeReview review.dump))) := by
  rw [Client.applyEvent_reviewsByVersion]
  unfold Client.eventReviews RunEvent.wire
  dsimp only
  rw [hevent, hpayload]
  dsimp only
  rw [dump_role]

theorem applyEvent_elsewhere {e : RunEvent}
    (h : e.event = .reviewCompleted → e.iteration ≠ version) :
    Record.get? (Client.applyEvent view (e.wire isoformat)).reviewsByVersion (version : ℚ)
      =
    Record.get? view.reviewsByVersion (version : ℚ) := by
  rw [Client.applyEvent_reviewsByVersion]
  unfold Client.eventReviews RunEvent.wire
  dsimp only
  split
  . next hevent =>
    have hne : (version : ℚ) ≠ (e.iteration : ℚ) := by
      intro heq
      apply h hevent
      exact_mod_cast heq.symm
    split
    . rfl
    . rw [Record.get?_set_ne _ _ hne]
  . rfl

theorem Heard.new {e : RunEvent} (hrole : (reviews role).role = role)
    (hevent : e.event = .reviewCompleted) (hiteration : e.iteration = version)
    (hpayload : e.payload = (reviews role).dump) :
    Heard reviews version (Client.applyEvent view (e.wire isoformat)) role := by
  unfold Heard
  rw [applyEvent_review hevent hpayload, hiteration, hrole, Record.get?_set_self]
  exact ⟨_, rfl, Function.update_self ..⟩

theorem Heard.keep {e : RunEvent} (h : Heard reviews version view role)
    (hroles : ∀ role, (reviews role).role = role)
    (hpayload : e.event = .reviewCompleted → e.iteration = version →
      ∃ other, e.payload = (reviews other).dump) :
    Heard reviews version (Client.applyEvent view (e.wire isoformat)) role := by
  by_cases hevent : e.event = .reviewCompleted ∧ e.iteration = version
  . obtain ⟨hevent, hiteration⟩ := hevent
    obtain ⟨other, hother⟩ := hpayload hevent hiteration
    by_cases heq : other = role
    . subst heq
      exact Heard.new (hroles other) hevent hiteration hother
    . obtain ⟨entry, hentry, hvalue⟩ := h
      unfold Heard
      rw [applyEvent_review hevent hother, hiteration, hroles, Record.get?_set_self, hentry]
      refine ⟨_, rfl, ?_⟩
      rw [Function.update_of_ne (Ne.symm heq)]
      exact hvalue
  . unfold Heard
    rw [applyEvent_elsewhere]
    . exact h
    . intro hreview hiteration
      exact hevent ⟨hreview, hiteration⟩

variable {log : List RunEvent}

theorem Heard.receive (hroles : ∀ role, (reviews role).role = role)
    (hlog : ∀ e ∈ reviewEvents version log, ∃ other, e.payload = (reviews other).dump)
    (haccepts : Client.Accepts view (log.map (RunEvent.wire isoformat)))
    (hheard : Heard reviews version view role
      ∨ ∃ e ∈ reviewEvents version log, e.payload = (reviews role).dump) :
    Heard reviews version (Client.receive view (log.map (RunEvent.wire isoformat))) role := by
  induction log generalizing view with
  | nil =>
    rcases hheard with hheard | ⟨e, he, _⟩
    . exact hheard
    . simp [reviewEvents] at he
  | cons e log ih =>
    obtain ⟨hnot, hrest⟩ := haccepts
    have happly : Client.runReducer view (.eventReceived (e.wire isoformat))
        = Client.applyEvent view (e.wire isoformat) := if_neg hnot
    rw [happly] at hrest
    have hmem : ∀ e' ∈ reviewEvents version log, e' ∈ reviewEvents version (e :: log) := by
      intro e' he'
      unfold reviewEvents at he' ⊢
      rw [List.mem_filter] at he' ⊢
      exact ⟨List.mem_cons_of_mem _ he'.1, he'.2⟩
    have hpayload : e.event = .reviewCompleted → e.iteration = version →
        ∃ other, e.payload = (reviews other).dump := by
      intro hevent hiteration
      apply hlog
      simp [reviewEvents, hevent, hiteration]
    unfold Client.receive
    rw [List.map_cons, List.foldl_cons, happly]
    apply ih (fun e' he' => hlog e' (hmem e' he')) hrest
    rcases hheard with hheard | ⟨e', he', hreview⟩
    . exact .inl (hheard.keep hroles hpayload)
    . unfold reviewEvents at he'
      rw [List.mem_filter, List.mem_cons] at he'
      obtain ⟨heq | htail, hevent⟩ := he'
      . subst heq
        simp only [decide_eq_true_eq] at hevent
        exact .inl (Heard.new (hroles role) hevent.1 hevent.2 hreview)
      . right
        refine ⟨e', ?_, hreview⟩
        unfold reviewEvents
        rw [List.mem_filter]
        exact ⟨htail, hevent⟩

end Reviewers

section Agreement

-- The findings of a round, in the order of the aggregator.
def findings (reviews : ReviewRole → RoleReview) : List FeedbackItem :=
  (reviews .tech).feedback ++ (reviews .ux).feedback ++ (reviews .biz).feedback

-- The findings of a severity that the client keeps.
def keptCount (reviews : ReviewRole → RoleReview) (severity : FeedbackSeverity) : Nat :=
  (findings reviews).countP fun item => item.severity = severity ∧ ¬Blank item

variable {reviews : ReviewRole → RoleReview} {version : Nat} {view : Client.RunViewState}
  {severity : FeedbackSeverity} {evaluation : EvaluationResult}

theorem normalizeReview_feedback (review : RoleReview) :
    (Client.normalizeReview review.dump).feedback = normalizedItems review.feedback := by
  rw [← normalizeFeedback_toJson]
  unfold Client.normalizeReview RoleReview.dump
  simp [Client.Value.field, Record.get?_cons]

theorem sentCount_scores {previousBest bestScore : Option ℚ} {bestVersion : Option Nat}
    {gatePassed : Bool} :
    sentCount (Workflow.scoresPayload evaluation version previousBest bestScore bestVersion
      gatePassed) severity = some (evaluation.severityCount severity : ℚ) := by
  unfold sentCount Client.optionalNumberPayload Workflow.scoresPayload
  cases severity <;>
    simp [FeedbackSeverity.value, Client.Value.field, Client.Value.number?, Record.get?_cons,
      Json.ofNat]

theorem sentCount_outcome {state : RunSnapshot} {thresholdMet gatePassed : Bool} :
    sentCount (Workflow.outcomePayload evaluation state thresholdMet gatePassed) severity
      =
    some (evaluation.severityCount severity : ℚ) := by
  unfold sentCount Client.optionalNumberPayload Workflow.outcomePayload
  cases severity <;>
    simp [FeedbackSeverity.value, Client.Value.field, Client.Value.number?, Record.get?_cons,
      Json.ofNat]

theorem liveCount_eq (h : ∀ role, Heard reviews version view role) :
    liveCount view version severity = keptCount reviews severity := by
  obtain ⟨entry, hentry, _⟩ := h .tech
  have hroles : ∀ role, entry role = some (Client.normalizeReview (reviews role).dump) := by
    intro role
    obtain ⟨entry', hentry', hvalue⟩ := h role
    rw [hentry] at hentry'
    cases hentry'
    exact hvalue
  unfold liveCount Client.severitiesFromReviews
  rw [hentry, Option.bind_some]
  simp only [Client.reviewRoles, List.flatMap_cons, List.flatMap_nil, List.append_nil, hroles,
    Option.map_some, Option.getD_some, normalizeReview_feedback]
  generalize hitems : normalizedItems (reviews .tech).feedback
    ++ (normalizedItems (reviews .ux).feedback ++ normalizedItems (reviews .biz).feedback) = items
  have hcounts : (if items.length > 0 then some (Client.countSeverities items) else none).getD
      (Client.countSeverities []) = Client.countSeverities items := by
    cases items <;> rfl
  rw [hcounts, countSeverities_of, ← hitems]
  unfold keptCount findings
  simp only [List.countP_append, countP_normalizedItems, Nat.add_assoc]

theorem storedCount_eq (htech : evaluation.tech = reviews .tech) (hux : evaluation.ux = reviews .ux)
    (hbiz : evaluation.biz = reviews .biz) (hfeedback : evaluation.combinedFeedback = findings reviews) :
    storedCount evaluation severity = keptCount reviews severity := by
  have hitems : ∀ review : RoleReview,
      Client.Value.items (Client.Value.field (.obj review.wire.fields) "feedback")
        = review.feedback.map FeedbackItem.toJson := by
    intro review
    simp [RoleReview.wire, RoleReview.dump, Client.Value.field, Client.Value.items,
      Record.get?_cons]
  unfold storedCount Client.severitiesFromEvaluation EvaluationResult.wire
  simp only [hfeedback, htech, hux, hbiz, List.flatMap_cons, List.flatMap_nil, List.append_nil,
    hitems, List.length_map]
  have hcombined : (if (findings reviews).length > 0 then
        (findings reviews).map FeedbackItem.toJson
      else
        (reviews .tech).feedback.map FeedbackItem.toJson
          ++ ((reviews .ux).feedback.map FeedbackItem.toJson
            ++ (reviews .biz).feedback.map FeedbackItem.toJson))
      = (findings reviews).map FeedbackItem.toJson := by
    split
    . rfl
    . unfold findings
      simp
  rw [hcombined, normalizeFeedback_toJson, countSeverities_of, countP_normalizedItems]
  rfl

theorem listedCount_eq {entry : Client.Reviews}
    (h : ∀ role, entry role = some (Client.normalizeReview (reviews role).dump)) :
    listedCount version (some entry) severity = keptCount reviews severity := by
  unfold listedCount Client.reviewPanel
  simp only [Client.reviewRoles, List.flatMap_cons, List.flatMap_nil, List.append_nil, h,
    Option.map_some, Option.getD_some, normalizeReview_feedback, List.countP_append,
    countP_feedbackList_normalizedItems]
  unfold keptCount findings
  simp only [List.countP_append, Nat.add_assoc]

-- One number of findings for a severity: in the two events, from the reviews that the events left
-- in the view, from the stored evaluation, and in the panel before and after a reload.
structure CountedAlike (scores outcome : Payload) (evaluation : EvaluationResult)
    (view : Client.RunViewState) (version : ℚ) (severity : FeedbackSeverity) : Prop where
  outcome : sentCount outcome severity = sentCount scores severity
  live : sentCount scores severity = some (liveCount view version severity)
  stored : sentCount scores severity = some (storedCount evaluation severity)
  listed :
    sentCount scores severity
      = some (listedCount version (Record.get? view.reviewsByVersion version) severity)
  reloaded :
    sentCount scores severity
      = some (listedCount version (some (Client.evaluationReviews evaluation.wire)) severity)

theorem keptCount_eq_iff :
    (∀ severity, (findings reviews).countP (fun item => item.severity = severity)
        = keptCount reviews severity)
      ↔
    ∀ item ∈ findings reviews, ¬Blank item := by
  have htier : ∀ severity,
      (findings reviews).countP (fun item => item.severity = severity) = keptCount reviews severity
        ↔
      ∀ item ∈ findings reviews, item.severity = severity → ¬Blank item := by
    intro severity
    have hkept : keptCount reviews severity
        = ((findings reviews).filter fun item => item.severity = severity).countP
          fun item => ¬Blank item := by
      unfold keptCount
      rw [List.countP_filter]
      apply List.countP_congr
      intro item _
      simp [and_comm]
    rw [hkept, List.countP_eq_length_filter, eq_comm, List.countP_eq_length]
    simp
  constructor
  . intro h item hitem
    exact (htier item.severity).mp (h item.severity) item hitem rfl
  . intro h severity
    rw [htier]
    intro item hitem _
    exact h item hitem

theorem mem_findings {item : FeedbackItem} :
    item ∈ findings reviews ↔ ∃ role, item ∈ (reviews role).feedback := by
  unfold findings
  simp only [List.mem_append]
  constructor
  . rintro ((h | h) | h)
    . exact ⟨.tech, h⟩
    . exact ⟨.ux, h⟩
    . exact ⟨.biz, h⟩
  . rintro ⟨role, h⟩
    cases role with
    | tech => exact .inl (.inl h)
    | ux => exact .inl (.inr h)
    | biz => exact .inr h

/--
The counts of the three reviews of a version agree exactly when no reviewer has sent a finding
whose texts are both blank. `log` is what a view receives, in any order and among other events.
-/
theorem severity_counts (isoformat : Timestamp → String) (reviews : ReviewRole → RoleReview)
    (version : Nat) (evaluation : EvaluationResult)
    (hevaluation : EvaluationResult.validate? (reviews .tech) (reviews .ux) (reviews .biz)
      (averageScore (reviews .tech) (reviews .ux) (reviews .biz)) (findings reviews)
        = some evaluation)
    (previousBest bestScore : Option ℚ) (bestVersion : Option Nat) (state : RunSnapshot)
    (thresholdMet gatePassed : Bool) (view : Client.RunViewState) (log : List RunEvent)
    (hlog : ((reviewEvents version log).map RunEvent.payload).Perm
      (Client.reviewRoles.map fun role => (reviews role).dump))
    (haccepts : Client.Accepts view (log.map (RunEvent.wire isoformat))) :
    (∀ severity,
        CountedAlike
          (Workflow.scoresPayload evaluation version previousBest bestScore bestVersion gatePassed)
          (Workflow.outcomePayload evaluation state thresholdMet gatePassed) evaluation
          (Client.receive view (log.map (RunEvent.wire isoformat))) version severity)
      ↔
    ∀ role, ∀ item ∈ (reviews role).feedback, ¬Blank item := by
  obtain ⟨htech, hux, hbiz, _, hfeedback⟩ := EvaluationResult.validate?_fields hevaluation
  have hroles : ∀ role, (reviews role).role = role := by
    have h := evaluation.roles
    rw [htech, hux, hbiz] at h
    intro role
    cases role with
    | tech => exact h.1
    | ux => exact h.2.1
    | biz => exact h.2.2
  have hsent : ∀ payload ∈ (reviewEvents version log).map RunEvent.payload,
      ∃ role, payload = (reviews role).dump := by
    intro payload hpayload
    obtain ⟨role, _, heq⟩ := List.mem_map.mp (hlog.mem_iff.mp hpayload)
    exact ⟨role, heq.symm⟩
  have hheard : ∀ role, Heard reviews version
      (Client.receive view (log.map (RunEvent.wire isoformat))) role := by
    intro role
    apply Heard.receive hroles _ haccepts
    . right
      have hmem : (reviews role).dump ∈ (reviewEvents version log).map RunEvent.payload := by
        apply hlog.mem_iff.mpr
        apply List.mem_map_of_mem
        cases role <;> simp [Client.reviewRoles]
      obtain ⟨e, he, heq⟩ := List.mem_map.mp hmem
      exact ⟨e, he, heq⟩
    . intro e he
      exact hsent _ (List.mem_map_of_mem he)
  obtain ⟨entry, hentry, _⟩ := hheard .tech
  have hvalues : ∀ role, entry role = some (Client.normalizeReview (reviews role).dump) := by
    intro role
    obtain ⟨entry', hentry', hvalue⟩ := hheard role
    rw [hentry] at hentry'
    cases hentry'
    exact hvalue
  have hstored : ∀ role, Client.evaluationReviews evaluation.wire role
      = some (Client.normalizeReview (reviews role).dump) := by
    intro role
    cases role <;> simp [Client.evaluationReviews, EvaluationResult.wire, RoleReview.wire, htech,
      hux, hbiz]
  have hcount : ∀ severity, evaluation.severityCount severity
      = (findings reviews).countP fun item => item.severity = severity := by
    intro severity
    unfold EvaluationResult.severityCount
    rw [hfeedback]
  have hall : (∀ role, ∀ item ∈ (reviews role).feedback, ¬Blank item)
      ↔ ∀ item ∈ findings reviews, ¬Blank item := by
    constructor
    . intro h item hitem
      obtain ⟨role, hmem⟩ := mem_findings.mp hitem
      exact h role item hmem
    . intro h role item hmem
      exact h item (mem_findings.mpr ⟨role, hmem⟩)
  rw [hall, ← keptCount_eq_iff]
  constructor
  . intro h severity
    have hlive := (h severity).live
    rw [sentCount_scores, liveCount_eq hheard, Option.some_inj, hcount] at hlive
    exact_mod_cast hlive
  . intro h severity
    have hsame : (evaluation.severityCount severity : ℚ) = keptCount reviews severity := by
      rw [hcount, h severity]
    exact {
      outcome := by rw [sentCount_outcome, sentCount_scores]
      live := by rw [sentCount_scores, liveCount_eq hheard, hsame]
      stored := by rw [sentCount_scores, storedCount_eq htech hux hbiz hfeedback, hsame]
      listed := by rw [sentCount_scores, hentry, listedCount_eq hvalues, hsame]
      reloaded := by rw [sentCount_scores, listedCount_eq hstored, hsame]
    }

-- A round in which every reviewer sends one finding.
def mockReviews (item : FeedbackItem) (role : ReviewRole) : RoleReview :=
  {
    role
    score := 90
    summary := "Solid"
    strengths := []
    feedback := [item]
    score_le := by decide
    summary_length := by decide
  }

def mockEvaluation (item : FeedbackItem) : EvaluationResult :=
  {
    tech := mockReviews item .tech
    ux := mockReviews item .ux
    biz := mockReviews item .biz
    overallScore := averageScore (mockReviews item .tech) (mockReviews item .ux) (mockReviews item .biz)
    combinedFeedback := findings (mockReviews item)
    overall_range := averageScore_range _ _ _
    roles := ⟨rfl, rfl, rfl⟩
    overall_eq := rfl
  }

theorem validate?_mockEvaluation (item : FeedbackItem) :
    EvaluationResult.validate? (mockReviews item .tech) (mockReviews item .ux)
        (mockReviews item .biz)
        (averageScore (mockReviews item .tech) (mockReviews item .ux) (mockReviews item .biz))
        (findings (mockReviews item))
      =
    some (mockEvaluation item) := by
  unfold EvaluationResult.validate?
  rw [dif_pos (averageScore_range _ _ _), dif_pos ⟨rfl, rfl, rfl⟩, dif_pos rfl]
  rfl

def mockReviewEvent (item : FeedbackItem) (sequence : Nat) (role : ReviewRole)
    (h : 1 ≤ sequence) : RunEvent :=
  {
    runId := "run"
    sequence
    event := .reviewCompleted
    timestamp := 0
    iteration := 1
    payload := (mockReviews item role).dump
    sequence_pos := h
    iteration_range := by decide
  }

def mockReviewLog (item : FeedbackItem) : List RunEvent :=
  [
    mockReviewEvent item 4 .tech (by decide),
    mockReviewEvent item 6 .ux (by decide),
    mockReviewEvent item 9 .biz (by decide)
  ]

def mockView : Client.RunViewState :=
  Client.loadSnapshot Client.initialRunViewState (Client.freshSnapshot "run" .reviewing 0)

def mockFinding : FeedbackItem :=
  {
    severity := .mustFix
    issue := "No failure path"
    recommendation := "Describe it"
    issue_length := by decide
    recommendation_length := by decide
  }

def blankFinding : FeedbackItem :=
  {
    severity := .mustFix
    issue := " "
    recommendation := " "
    issue_length := by decide
    recommendation_length := by decide
  }

theorem severity_counts_mock :
    (∀ severity,
        CountedAlike (Workflow.scoresPayload (mockEvaluation mockFinding) 1 none none none false)
          (Workflow.outcomePayload (mockEvaluation mockFinding) RunManager.mockWorld.snapshot true
            false)
          (mockEvaluation mockFinding)
          (Client.receive mockView ((mockReviewLog mockFinding).map (RunEvent.wire fun _ => "")))
          (1 : Nat) severity)
      ↔
    ∀ role, ∀ item ∈ (mockReviews mockFinding role).feedback, ¬Blank item :=
  severity_counts (fun _ => "") (mockReviews mockFinding) 1 (mockEvaluation mockFinding)
    (validate?_mockEvaluation mockFinding) none none none RunManager.mockWorld.snapshot true false
    mockView (mockReviewLog mockFinding) (List.Perm.refl _) (by decide +kernel)

-- The backend counts three blockers where the client finds none.
theorem not_counted_alike :
    ¬∀ severity,
        CountedAlike (Workflow.scoresPayload (mockEvaluation blankFinding) 1 none none none false)
          (Workflow.outcomePayload (mockEvaluation blankFinding) RunManager.mockWorld.snapshot true
            false)
          (mockEvaluation blankFinding)
          (Client.receive mockView ((mockReviewLog blankFinding).map (RunEvent.wire fun _ => "")))
          1 severity := by
  intro h
  have hstored := (h .mustFix).stored
  revert hstored
  decide +kernel

end Agreement

end Live

end AgenticPrd
