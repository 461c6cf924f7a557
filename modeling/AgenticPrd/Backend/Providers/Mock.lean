import AgenticPrd.Backend.PrdDocument
import AgenticPrd.Lib.Collect

/-!
The plan of the mock optimizer (`providers/mock.py`).
-/

namespace AgenticPrd

namespace MockLLMProvider

variable (fold : Char → List Char)

-- `SEVERITY_PRIORITY`
def severityPriority : FeedbackSeverity → RevisionPriority
  | .mustFix => .high
  | .shouldFix => .medium
  | .optional => .low

-- `RevisionSource(review.role.value)`
def sourceOf : ReviewRole → RevisionSource
  | .tech => .tech
  | .ux => .ux
  | .biz => .biz

-- A finding, with the role of its review.
structure Finding where
  role : ReviewRole
  feedback : FeedbackItem
  deriving DecidableEq

def findings (evaluation : EvaluationResult) : List Finding :=
  [evaluation.tech, evaluation.ux, evaluation.biz].flatMap fun review =>
    review.feedback.map fun feedback => { role := review.role, feedback }

/--
`issue.casefold().strip()`. How a character is folded is Unicode's, and a parameter.
-/
def issueKey (issue : String) : List Char :=
  PrdDocument.strip (issue.toList.flatMap fold)

def newItem (finding : Finding) : RevisionItem where
  sourceRole := sourceOf finding.role
  sourceRoles := [sourceOf finding.role]
  issue := finding.feedback.issue
  requiredChange := finding.feedback.recommendation
  targetSection := "Requirements"
  priority := severityPriority finding.feedback.severity
  source_mem := List.mem_singleton_self _
  sources_nodup := List.nodup_singleton _
  issue_length := finding.feedback.issue_length
  requiredChange_length :=
    have h := finding.feedback.recommendation_length
    ⟨h.1, Nat.le_trans h.2 (by decide)⟩
  targetSection_length := by decide

-- `if source not in existing.source_roles: existing.source_roles.append(source)`
def addSource (existing : RevisionItem) (source : RevisionSource) : RevisionItem :=
  if h : source ∈ existing.sourceRoles then
    existing
  else
    { existing with
      sourceRoles := existing.sourceRoles ++ [source]
      source_mem := List.mem_append_left _ existing.source_mem
      sources_nodup := List.concat_eq_append ▸ existing.sources_nodup.concat h
    }

-- One turn of the loops. `seen` and `items` hold the same objects in the same order.
def mergeFinding (seen : List (List Char × RevisionItem)) (finding : Finding) :
    List (List Char × RevisionItem) :=
  if finding.feedback.severity = .optional then
    seen
  else
    let key := issueKey fold finding.feedback.issue
    match Record.get? seen key with
    | some existing => Record.set seen key (addSource existing (sourceOf finding.role))
    | none => Record.set seen key (newItem finding)

def userItems? (userOverride : Option String) : Option (List RevisionItem) :=
  match userOverride with
  | none => some []
  | some text =>
    if text = "" then
      some []
    else if h : LengthIn text 4000 then
      some [{
        sourceRole := .user
        sourceRoles := [.user]
        issue := "User-requested refinement"
        requiredChange := text
        targetSection := "User Requirements"
        priority := .high
        source_mem := by decide
        sources_nodup := by decide
        issue_length := by decide
        requiredChange_length := h
        targetSection_length := by decide
      }]
    else
      none

/--
The plan, unless one of its constraints is violated.
-/
def generateRevisionPlan (evaluation : EvaluationResult) (iteration : Nat)
    (userOverride : Option String) : Option RevisionPlan := do
  let items := ((findings evaluation).foldl (mergeFinding fold) []).map Prod.snd
  let userItems ← userItems? userOverride
  if h : (1 ≤ iteration ∧ iteration ≤ 5) ∧ ∀ s ∈ userOverride, s.length ≤ 2000 then
    return {
      iteration
      objective := "Resolve all high-priority review findings."
      items := items ++ userItems
      userOverride
      iteration_range := h.1
      objective_length := by decide
      override_length := h.2
    }
  else
    none

section Merge

-- The key under which a finding is planned, where it is planned at all.
def planKey? (finding : Finding) : Option (List Char) :=
  if finding.feedback.severity = .optional then
    none
  else
    some (issueKey fold finding.feedback.issue)

def joinFinding (existing : RevisionItem) (finding : Finding) : RevisionItem :=
  addSource existing (sourceOf finding.role)

def merged (evaluation : EvaluationResult) : List (List Char × RevisionItem) :=
  (findings evaluation).foldl (mergeFinding fold) []

variable {fold} {evaluation : EvaluationResult} {finding first : Finding} {rest : List Finding}
  {item : RevisionItem} {key : List Char}

theorem mergeFinding_eq (seen : List (List Char × RevisionItem)) (finding : Finding) :
    mergeFinding fold seen finding
      =
    Record.collectStep (planKey? fold) newItem joinFinding seen finding := by
  unfold mergeFinding Record.collectStep planKey?
  split
  . rfl
  . dsimp only
    cases Record.get? seen (issueKey fold finding.feedback.issue) with
    | none => rfl
    | some existing => rfl

theorem merged_eq (evaluation : EvaluationResult) :
    merged fold evaluation
      =
    Record.collect (planKey? fold) newItem joinFinding (findings evaluation) := by
  unfold merged Record.collect
  congr 1
  funext seen finding
  exact mergeFinding_eq seen finding

theorem sourceRoles_addSource (existing : RevisionItem) (source other : RevisionSource) :
    other ∈ (addSource existing source).sourceRoles
      ↔
    other ∈ existing.sourceRoles ∨ other = source := by
  unfold addSource
  split
  . next hmem =>
    constructor
    . exact .inl
    . rintro (h | rfl)
      . exact h
      . exact hmem
  . rw [List.mem_append, List.mem_singleton]

-- Only the sources change once there is an item.
theorem addSource_eq (existing : RevisionItem) (source : RevisionSource) :
    (addSource existing source).sourceRole = existing.sourceRole
      ∧
    (addSource existing source).issue = existing.issue
      ∧
    (addSource existing source).priority = existing.priority := by
  unfold addSource
  split <;> exact ⟨rfl, rfl, rfl⟩

-- An item as the findings of its issue leave it.
structure PlannedFrom (first : Finding) (rest : List Finding) (item : RevisionItem) : Prop where
  sourceRole : item.sourceRole = sourceOf first.role
  issue : item.issue = first.feedback.issue
  priority : item.priority = severityPriority first.feedback.severity
  sources :
    ∀ source, source ∈ item.sourceRoles ↔ ∃ finding ∈ first :: rest, sourceOf finding.role = source

theorem PlannedFrom.concat (h : PlannedFrom first rest item) (finding : Finding) :
    PlannedFrom first (rest ++ [finding]) (joinFinding item finding) := by
  obtain ⟨hrole, hissue, hpriority⟩ := addSource_eq item (sourceOf finding.role)
  constructor
  . exact hrole.trans h.sourceRole
  . exact hissue.trans h.issue
  . exact hpriority.trans h.priority
  . intro source
    rw [joinFinding, sourceRoles_addSource, h.sources, ← List.cons_append]
    simp only [List.mem_append, List.mem_singleton, or_and_right, exists_or, exists_eq_left]
    rw [eq_comm (a := source)]

theorem plannedFrom_foldl (first : Finding) (rest : List Finding) :
    PlannedFrom first rest (rest.foldl joinFinding (newItem first)) := by
  induction rest using List.reverseRecOn with
  | nil =>
    refine ⟨rfl, rfl, rfl, ?_⟩
    intro source
    change source ∈ [sourceOf first.role] ↔ _
    simp only [List.mem_singleton, exists_eq_left]
    rw [eq_comm]
  | append_singleton rest finding ih =>
    rw [List.foldl_append]
    exact ih.concat finding

theorem planKey?_eq_some (h : planKey? fold finding = some key) :
    issueKey fold finding.feedback.issue = key := by
  unfold planKey? at h
  split at h
  . cases h
  . exact Option.some.inj h

-- The findings that an item of the plan stands for.
theorem plannedFrom_of_mem (h : (key, item) ∈ merged fold evaluation) :
    ∃ first rest, PlannedFrom first rest item
      ∧
    (findings evaluation).filter (fun finding => planKey? fold finding = some key) = first :: rest
      ∧
    issueKey fold item.issue = key := by
  rw [merged_eq] at h
  have hgathered := Record.gathered_of_mem h
  cases hraised : (findings evaluation).filter fun finding => planKey? fold finding = some key with
  | nil =>
    rw [hraised] at hgathered
    cases hgathered
  | cons first rest =>
    rw [hraised, Record.gathered, Option.some.injEq] at hgathered
    have hplanned := plannedFrom_foldl first rest
    rw [hgathered] at hplanned
    have hfirst : first ∈ (findings evaluation).filter fun finding => planKey? fold finding = some key := by
      rw [hraised]
      exact List.mem_cons_self
    refine ⟨first, rest, hplanned, rfl, ?_⟩
    rw [hplanned.issue]
    exact planKey?_eq_some (of_decide_eq_true (List.mem_filter.mp hfirst).2)

theorem keys_merged (evaluation : EvaluationResult) :
    ((merged fold evaluation).map Prod.snd).map (fun item => issueKey fold item.issue)
      =
    Record.keys (merged fold evaluation) := by
  rw [List.map_map]
  apply List.map_congr_left
  rintro ⟨key, item⟩ hmem
  obtain ⟨_, _, _, _, hkey⟩ := plannedFrom_of_mem hmem
  exact hkey

end Merge

section Blockers

-- Highest first (`SEVERITY_ORDER`).
def severityOrder : List FeedbackSeverity :=
  [.mustFix, .shouldFix, .optional]

def findingItems (plan : RevisionPlan) : List RevisionItem :=
  plan.items.filter fun item => item.sourceRole ≠ .user

def userItems (plan : RevisionPlan) : List RevisionItem :=
  plan.items.filter fun item => item.sourceRole = .user

-- `finding` raises the issue of `item`, and is no optional one.
def RaisedBy (fold : Char → List Char) (item : RevisionItem) (finding : Finding) : Prop :=
  planKey? fold finding = some (issueKey fold item.issue)

-- What the plan owes to the reviews and to the user.
structure KeepsBlockers (fold : Char → List Char) (evaluation : EvaluationResult)
    (userOverride : Option String) (plan : RevisionPlan) : Prop where
  once : ((findingItems plan).map fun item => issueKey fold item.issue).Nodup
  every :
    ∀ key, key ∈ (findingItems plan).map (fun item => issueKey fold item.issue)
      ↔ ∃ finding ∈ findings evaluation, planKey? fold finding = some key
  sources :
    ∀ item ∈ findingItems plan, ∀ source, source ∈ item.sourceRoles
      ↔ ∃ finding ∈ findings evaluation, RaisedBy fold item finding ∧ sourceOf finding.role = source
  priority :
    ∀ item ∈ findingItems plan, ∃ highest ∈ findings evaluation, RaisedBy fold item highest
      ∧ item.priority = severityPriority highest.feedback.severity
      ∧ ∀ finding ∈ findings evaluation, RaisedBy fold item finding →
        severityOrder.idxOf highest.feedback.severity
          ≤ severityOrder.idxOf finding.feedback.severity
  user :
    if userOverride.getD "" = "" then
      userItems plan = []
    else
      ∃ item, userItems plan = [item] ∧ item.priority = .high

-- An issue that is a blocker for someone is raised as a blocker at first.
def BlockersFirst (fold : Char → List Char) (evaluation : EvaluationResult) : Prop :=
  ∀ finding ∈ findings evaluation, finding.feedback.severity = .mustFix →
    ∀ first ∈ (findings evaluation).find? fun other => planKey? fold other = planKey? fold finding,
      first.feedback.severity = .mustFix

variable {fold : Char → List Char} {evaluation : EvaluationResult} {iteration : Nat}
  {userOverride : Option String} {plan : RevisionPlan} {item : RevisionItem} {finding : Finding}

theorem userItems?_eq {items : List RevisionItem} (h : userItems? userOverride = some items) :
    (∀ item ∈ items, item.sourceRole = .user)
      ∧
    if userOverride.getD "" = "" then
      items = []
    else
      ∃ item, items = [item] ∧ item.priority = .high := by
  unfold userItems? at h
  cases userOverride with
  | none =>
    cases h
    exact ⟨fun _ hitem => absurd hitem List.not_mem_nil, rfl⟩
  | some text =>
    dsimp only at h
    rw [Option.getD_some]
    split at h
    . next hempty =>
      cases h
      rw [if_pos hempty]
      exact ⟨fun _ hitem => absurd hitem List.not_mem_nil, rfl⟩
    . next hpresent =>
      split at h
      . cases h
        rw [if_neg hpresent, List.forall_mem_singleton]
        exact ⟨rfl, _, rfl, rfl⟩
      . cases h

theorem sourceRole_of_mem_merged (h : item ∈ (merged fold evaluation).map Prod.snd) :
    item.sourceRole ≠ .user := by
  obtain ⟨⟨key, item⟩, hmem, rfl⟩ := List.mem_map.mp h
  obtain ⟨first, _, hplanned, _, _⟩ := plannedFrom_of_mem hmem
  rw [hplanned.sourceRole]
  cases first.role <;> decide

theorem generateRevisionPlan_items
    (h : generateRevisionPlan fold evaluation iteration userOverride = some plan) :
    findingItems plan = (merged fold evaluation).map Prod.snd
      ∧
    userItems? userOverride = some (userItems plan) := by
  unfold generateRevisionPlan at h
  obtain ⟨items, hitems, hplan⟩ := Option.bind_eq_some_iff.mp h
  have huser := (userItems?_eq hitems).1
  split at hplan
  . cases hplan
    unfold findingItems userItems
    dsimp only
    rw [hitems, List.filter_append, List.filter_append, Option.some.injEq]
    constructor
    . rw [List.filter_eq_self.mpr, List.filter_eq_nil_iff.mpr, List.append_nil]
      . rfl
      . intro item hitem
        simpa using huser item hitem
      . intro item hitem
        simpa using sourceRole_of_mem_merged hitem
    . rw [List.filter_eq_nil_iff.mpr, List.filter_eq_self.mpr, List.nil_append]
      . intro item hitem
        simpa using huser item hitem
      . intro item hitem
        simpa using sourceRole_of_mem_merged hitem
  . cases hplan

-- The item for an issue takes its priority from the first finding.
theorem exists_first (h : item ∈ (merged fold evaluation).map Prod.snd) :
    ∃ first ∈ findings evaluation, RaisedBy fold item first
      ∧
    item.priority = severityPriority first.feedback.severity
      ∧
    ((findings evaluation).find? fun finding => planKey? fold finding
      = some (issueKey fold item.issue)) = some first
      ∧
    ∀ source, source ∈ item.sourceRoles
      ↔ ∃ finding ∈ findings evaluation, RaisedBy fold item finding ∧ sourceOf finding.role = source := by
  obtain ⟨⟨key, item⟩, hmem, rfl⟩ := List.mem_map.mp h
  obtain ⟨first, rest, hplanned, hraised, rfl⟩ := plannedFrom_of_mem hmem
  have hmem : ∀ finding, finding ∈ first :: rest
      ↔ finding ∈ findings evaluation ∧ RaisedBy fold item finding := by
    intro finding
    rw [← hraised, List.mem_filter, decide_eq_true_iff]
    rfl
  have hfirst := (hmem first).mp List.mem_cons_self
  refine ⟨first, hfirst.1, hfirst.2, hplanned.priority, ?_, ?_⟩
  . rw [← List.head?_filter, hraised, List.head?_cons]
  . intro source
    rw [hplanned.sources]
    simp only [hmem, and_assoc]

theorem severityPriority_eq_high {severity : FeedbackSeverity} :
    severityPriority severity = .high ↔ severity = .mustFix := by
  cases severity <;> decide

theorem planKey?_of_mustFix (h : finding.feedback.severity = .mustFix) :
    planKey? fold finding = some (issueKey fold finding.feedback.issue) := by
  unfold planKey?
  rw [h]
  exact if_neg (by decide)

theorem severity_of_planKey? {key : List Char} (h : planKey? fold finding = some key) :
    finding.feedback.severity ≠ .optional := by
  unfold planKey? at h
  split at h
  . cases h
  . next hne => exact hne

theorem KeepsBlockers.blockersFirst
    (h : generateRevisionPlan fold evaluation iteration userOverride = some plan)
    (hkeeps : KeepsBlockers fold evaluation userOverride plan) : BlockersFirst fold evaluation := by
  intro finding hfinding hmust first hfirst
  have hkey : planKey? fold finding = _ := planKey?_of_mustFix hmust
  obtain ⟨item, hitem, hissue⟩ := List.mem_map.mp ((hkeeps.every _).mpr ⟨finding, hfinding, hkey⟩)
  rw [← hissue] at hkey
  obtain ⟨highest, _, _, hpriority, hleast⟩ := hkeeps.priority item hitem
  have hhighest : highest.feedback.severity = .mustFix := by
    have hle := hleast finding hfinding hkey
    rw [hmust] at hle
    revert hle
    cases highest.feedback.severity <;> decide
  rw [(generateRevisionPlan_items h).1] at hitem
  obtain ⟨first', _, _, hpriority', hfind, _⟩ := exists_first hitem
  rw [hkey, hfind] at hfirst
  cases hfirst
  rw [← severityPriority_eq_high, ← hpriority', hpriority, severityPriority_eq_high]
  exact hhighest

theorem BlockersFirst.keepsBlockers
    (h : generateRevisionPlan fold evaluation iteration userOverride = some plan)
    (hblockers : BlockersFirst fold evaluation) : KeepsBlockers fold evaluation userOverride plan := by
  obtain ⟨hitems, huser⟩ := generateRevisionPlan_items h
  constructor
  . rw [hitems, keys_merged, merged_eq]
    exact Record.nodup_keys_collect _
  . intro key
    rw [hitems, keys_merged, merged_eq]
    exact Record.mem_keys_collect _ _
  . intro item hitem
    rw [hitems] at hitem
    obtain ⟨_, _, _, _, _, hsources⟩ := exists_first hitem
    exact hsources
  . intro item hitem
    rw [hitems] at hitem
    obtain ⟨first, hfirst, hraised, hpriority, hfind, _⟩ := exists_first hitem
    refine ⟨first, hfirst, hraised, hpriority, ?_⟩
    intro finding hfinding hother
    have hnot := severity_of_planKey? hraised
    have hblocker : finding.feedback.severity = .mustFix → first.feedback.severity = .mustFix :=
      fun hmust => hblockers finding hfinding hmust first (by rw [hother]; exact hfind)
    revert hnot hblocker
    cases first.feedback.severity <;> cases finding.feedback.severity <;> decide
  . exact (userItems?_eq huser).2

/--
The plan keeps every blocker exactly if no issue is raised as less than a blocker first.
-/
theorem keepsBlockers_iff
    (h : generateRevisionPlan fold evaluation iteration userOverride = some plan) :
    KeepsBlockers fold evaluation userOverride plan ↔ BlockersFirst fold evaluation :=
  ⟨KeepsBlockers.blockersFirst h, BlockersFirst.keepsBlockers h⟩

-- Nothing but the schema of the plan stands in its way.
theorem generateRevisionPlan_isSome (evaluation : EvaluationResult) (iteration : Nat)
    (userOverride : Option String) :
    (generateRevisionPlan fold evaluation iteration userOverride).isSome = true
      ↔
    (1 ≤ iteration ∧ iteration ≤ 5) ∧ ∀ s ∈ userOverride, s.length ≤ 2000 := by
  unfold generateRevisionPlan
  constructor
  . intro h
    obtain ⟨plan, hplan⟩ := Option.isSome_iff_exists.mp h
    obtain ⟨_, _, hbuilt⟩ := Option.bind_eq_some_iff.mp hplan
    split at hbuilt
    . next hall => exact hall
    . cases hbuilt
  . intro hall
    have huser : ∃ items, userItems? userOverride = some items := by
      unfold userItems?
      split
      . exact ⟨_, rfl⟩
      . next text =>
        split
        . exact ⟨_, rfl⟩
        . next hpresent =>
          have hlength : LengthIn text 4000 := by
            have hle := hall.2 text rfl
            have hpos : text.length ≠ 0 := mt String.length_eq_zero_iff.mp hpresent
            exact ⟨by omega, by omega⟩
          rw [dif_pos hlength]
          exact ⟨_, rfl⟩
    obtain ⟨items, hitems⟩ := huser
    dsimp only
    rw [hitems]
    change (if _ : _ then _ else _ : Option RevisionPlan).isSome = true
    rw [dif_pos hall]
    rfl

-- ASCII letters.
def lowered (c : Char) : List Char :=
  [c.toLower]

def reviewOf (role : ReviewRole) (feedback : List FeedbackItem) : RoleReview where
  role := role
  score := 70
  summary := "Review"
  strengths := []
  feedback := feedback
  score_le := by decide
  summary_length := by decide

def recovery (severity : FeedbackSeverity) : FeedbackItem where
  severity := severity
  issue := "No recovery path"
  recommendation := "Document the recovery path."
  issue_length := by decide
  recommendation_length := by decide

-- Two roles raise one issue.
def disputed (tech ux : FeedbackSeverity) : EvaluationResult where
  tech := reviewOf .tech [recovery tech]
  ux := reviewOf .ux [recovery ux]
  biz := reviewOf .biz []
  overallScore := 70
  combinedFeedback := []
  overall_range := by decide +kernel
  roles := ⟨rfl, rfl, rfl⟩
  overall_eq := by
    change (70 : ℚ) = Rounding.round (((70 : Nat) + (70 : Nat) + (70 : Nat)) / 3) 1
    decide +kernel

theorem keepsBlockers_iff_disputed :
    ∃ plan, generateRevisionPlan lowered (disputed .mustFix .shouldFix) 1 (some "Add it.") = some plan
      ∧
    KeepsBlockers lowered (disputed .mustFix .shouldFix) (some "Add it.") plan := by
  obtain ⟨plan, hplan⟩ := Option.isSome_iff_exists.mp
    ((generateRevisionPlan_isSome (disputed .mustFix .shouldFix) 1 (some "Add it.")).mpr (by decide))
  refine ⟨plan, hplan, (keepsBlockers_iff hplan).mpr ?_⟩
  unfold BlockersFirst
  decide +kernel

theorem not_keepsBlockers_disputed :
    ∃ plan, generateRevisionPlan lowered (disputed .shouldFix .mustFix) 1 none = some plan
      ∧
    ¬KeepsBlockers lowered (disputed .shouldFix .mustFix) none plan := by
  obtain ⟨plan, hplan⟩ := Option.isSome_iff_exists.mp
    ((generateRevisionPlan_isSome (disputed .shouldFix .mustFix) 1 none).mpr (by decide))
  refine ⟨plan, hplan, fun hkeeps => ?_⟩
  have hfirst := hkeeps.blockersFirst hplan
  revert hfirst
  unfold BlockersFirst
  decide +kernel

end Blockers

end MockLLMProvider

end AgenticPrd
