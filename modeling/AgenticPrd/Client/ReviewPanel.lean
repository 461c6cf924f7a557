import AgenticPrd.Client.RunReducer

/-!
The review panel (`ReviewPanel.tsx`): the findings that it lists for the reviews of a version.
-/

namespace AgenticPrd

namespace Client

-- The label of `SEVERITY_META`.
def severityLabel : FeedbackSeverity → String
  | .mustFix => "必须修复"
  | .shouldFix => "重要改进"
  | .optional => "可选优化"

-- A `feedback-item` of the panel, and the line below it where there is one.
structure FeedbackEntry where
  severity : FeedbackSeverity
  label : String
  text : String
  advice : Option String
  deriving DecidableEq

def feedbackEntry (item : FeedbackItem) : FeedbackEntry :=
  let issue := trim item.issue
  let recommendation := trim item.recommendation
  {
    severity := item.severity
    label := severityLabel item.severity
    text := if issue = "" then recommendation else issue
    advice :=
      if recommendation ≠ "" ∧ recommendation ≠ issue then
        some ("建议：" ++ recommendation)
      else
        none
  }

def feedbackList (items : List FeedbackItem) : List FeedbackEntry :=
  let entries := items.filter fun item => trim item.issue ≠ "" ∨ trim item.recommendation ≠ ""
  feedbackSeverities.flatMap fun severity =>
    (entries.filter fun item => item.severity = severity).map feedbackEntry

-- The findings on the cards of the three reviewers.
def reviewPanel (version : Option ℚ) (reviews : Option Reviews) : List FeedbackEntry :=
  match version, reviews with
  | some _, some reviews =>
    reviewRoles.flatMap fun role => ((reviews role).map fun r => feedbackList r.feedback).getD []
  | _, _ => []

section Trim

theorem trim_eq_empty_iff {text : String} :
    trim text = "" ↔ ∀ c ∈ text.toList, isTrimmed c = true := by
  have hnil : trim text = "" ↔ (text.toList.dropWhile isTrimmed).rdropWhile isTrimmed = [] := by
    unfold trim
    rw [← String.toList_inj]
    simp
  rw [hnil, List.rdropWhile_eq_nil_iff]
  constructor
  . intro h
    rw [← List.dropWhile_eq_nil_iff]
    by_contra hne
    have hhead := List.head_dropWhile_not isTrimmed hne
    rw [h _ (List.head_mem hne)] at hhead
    contradiction
  . intro h c hc
    exact h c ((List.dropWhile_sublist _).mem hc)

-- What has been trimmed is not blank, unless it is empty.
theorem trim_trim_ne_empty {text : String} (h : trim text ≠ "") : trim (trim text) ≠ "" := by
  have hne : (text.toList.dropWhile isTrimmed).rdropWhile isTrimmed ≠ [] := by
    intro hnil
    apply h
    unfold trim
    rw [hnil, String.ofList_nil]
  have hlast := List.rdropWhile_last_not isTrimmed _ hne
  rw [Ne, trim_eq_empty_iff]
  intro hall
  apply hlast
  apply hall
  unfold trim
  rw [String.toList_ofList]
  exact List.getLast_mem hne

end Trim

@[simp]
theorem feedbackSeverity?_value (severity : FeedbackSeverity) :
    feedbackSeverity? severity.value = some severity := by
  cases severity <;> decide

-- The panel leaves out no item that has been normalized.
theorem countP_feedbackList {items : List FeedbackItem} (severity : FeedbackSeverity)
    (h : ∀ item ∈ items, trim item.issue ≠ "") :
    (feedbackList items).countP (fun entry => entry.severity = severity)
      =
    items.countP fun item => item.severity = severity := by
  have hall : items.filter (fun item => trim item.issue ≠ "" ∨ trim item.recommendation ≠ "")
      = items := by
    rw [List.filter_eq_self]
    intro item hitem
    simp [h item hitem]
  have htier : ∀ tier : FeedbackSeverity,
      ((items.filter fun item => item.severity = tier).map feedbackEntry).countP
          (fun entry => entry.severity = severity)
        =
      if tier = severity then items.countP fun item => item.severity = severity else 0 := by
    intro tier
    rw [List.countP_map, List.countP_filter]
    split
    . next heq =>
      subst heq
      apply List.countP_congr
      intro item _
      by_cases h : item.severity = tier
      . simp [feedbackEntry, h]
      . simp [feedbackEntry, h]
    . next hne =>
      rw [List.countP_eq_zero]
      intro item _
      simp only [feedbackEntry, Function.comp_apply, Bool.and_eq_true, decide_eq_true_eq, not_and]
      intro heq hother
      apply hne
      rw [← hother]
      exact of_decide_eq_true heq
  unfold feedbackList
  dsimp only
  rw [hall]
  unfold feedbackSeverities
  simp only [List.flatMap_cons, List.flatMap_nil, List.append_nil, List.countP_append, htier]
  cases severity <;> simp

end Client

end AgenticPrd
