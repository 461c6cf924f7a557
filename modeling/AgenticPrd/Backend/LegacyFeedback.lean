import AgenticPrd.Backend.Workflow.Reload
import AgenticPrd.Lib.Refill

/-!
Rows whose findings are bare strings, as they were stored before findings had a severity.
-/

namespace AgenticPrd

namespace Json

variable {α σ : Type}

def onFields (blank : Payload → Payload) : Json → Json
  | .obj fields => .obj (blank fields)
  | value => value

def onItems (blank : Json → Json) : Json → Json
  | .arr items => .arr (items.map blank)
  | value => value

def ofFields (slots : Payload → Option σ) : Json → Option σ
  | .obj fields => slots fields
  | _ => none

def ofItems (slots : Json → Option σ) : Json → Option (List σ)
  | .arr items => items.mapM slots
  | _ => none

def ofNullable (slots : Json → Option σ) : Json → Option (Option σ)
  | .null => some none
  | value => (slots value).map some

section Refills

variable {fill : α → σ → α} {Holds : α → σ → Prop}

theorem refills_object {codec : Codec Payload α} {blank : Payload → Payload}
    {slots : Payload → Option σ} (h : Refills codec.decode blank slots fill Holds) :
    Refills (object codec).decode (onFields blank) (ofFields slots) fill Holds where
  decode_eq := by
    intro value
    cases value with
    | obj fields => exact h.decode_eq fields
    | _ => rfl
  holds := by
    intro value a x hdecode hslots
    cases value with
    | obj fields => exact h.holds hdecode hslots
    | _ => contradiction

theorem refills_array {codec : Codec Json α} {blank : Json → Json} {slots : Json → Option σ}
    (h : Refills codec.decode blank slots fill Holds) :
    Refills (array codec).decode (onItems blank) (ofItems slots) (List.zipWith fill)
      (List.Forall₂ Holds) where
  decode_eq := by
    intro value
    cases value with
    | arr items => exact (Refills.list codec h).decode_eq items
    | _ => rfl
  holds := by
    intro value a x hdecode hslots
    cases value with
    | arr items => exact (Refills.list codec h).holds hdecode hslots
    | _ => contradiction

theorem onFields_ne_null {blank : Payload → Payload} {value : Json} (h : value ≠ .null) :
    onFields blank value ≠ .null := by
  cases value with
  | null => contradiction
  | _ => simp [onFields]

theorem ofNullable_of_ne {slots : Json → Option σ} {value : Json} (h : value ≠ .null) :
    ofNullable slots value = (slots value).map some := by
  cases value with
  | null => contradiction
  | _ => rfl

theorem nullable_decode_of_ne {codec : Codec Json α} {hnull : ∀ a, codec.encode a ≠ .null}
    {value : Json} (h : value ≠ .null) :
    (nullable codec hnull).decode value = (codec.decode value).map some := by
  cases value with
  | null => contradiction
  | _ => rfl

theorem refills_nullable {codec : Codec Json α} {hnull : ∀ a, codec.encode a ≠ .null}
    {blank : Payload → Payload} {slots : Json → Option σ}
    (h : Refills codec.decode (onFields blank) slots fill Holds) :
    Refills (nullable codec hnull).decode (onFields blank) (ofNullable slots)
      (fun a x => a.bind fun a => x.map (fill a)) (Option.Rel Holds) where
  decode_eq := by
    intro value
    by_cases hvalue : value = .null
    . subst hvalue
      rfl
    . rw [nullable_decode_of_ne hvalue, nullable_decode_of_ne (onFields_ne_null hvalue),
        ofNullable_of_ne hvalue, h.decode_eq]
      cases codec.decode (onFields blank value) with
      | none => rfl
      | some a => cases slots value <;> rfl
  holds := by
    intro value a x hdecode hslots
    by_cases hvalue : value = .null
    . subst hvalue
      cases hdecode
      cases hslots
      exact .none
    . rw [nullable_decode_of_ne (onFields_ne_null hvalue), Option.map_eq_some_iff] at hdecode
      rw [ofNullable_of_ne hvalue, Option.map_eq_some_iff] at hslots
      obtain ⟨a, ha, rfl⟩ := hdecode
      obtain ⟨x, hx, rfl⟩ := hslots
      exact .some (h.holds ha hx)

end Refills

section Guarded

variable {τ : Type} {Ok : σ → Prop} {f : σ → τ}

theorem guarded_ofFields {slots : Payload → Option σ} {slots' : Payload → Option τ}
    (h : Guarded slots slots' Ok f) : Guarded (ofFields slots) (ofFields slots') Ok f := by
  intro value x hread
  cases value with
  | obj fields => exact h fields x hread
  | _ => contradiction

theorem guarded_ofItems {slots : Json → Option σ} {slots' : Json → Option τ}
    (h : Guarded slots slots' Ok f) :
    Guarded (ofItems slots) (ofItems slots') (fun xs => ∀ x ∈ xs, Ok x) (List.map f) := by
  intro value x hread
  cases value with
  | arr items => exact h.list items x hread
  | _ => contradiction

theorem guarded_ofNullable {slots : Json → Option σ} {slots' : Json → Option τ}
    (h : Guarded slots slots' Ok f) :
    Guarded (ofNullable slots) (ofNullable slots') (fun x => ∀ y ∈ x, Ok y) (Option.map f) := by
  intro value x hread
  by_cases hvalue : value = .null
  . subst hvalue
    cases hread
    exact ⟨fun _ => rfl, fun hnot => absurd nofun hnot⟩
  . rw [ofNullable_of_ne hvalue, Option.map_eq_some_iff] at hread
    rw [ofNullable_of_ne hvalue]
    obtain ⟨y, hy, rfl⟩ := hread
    have hvalue := h value y hy
    simp only [Option.mem_def, Option.some.injEq, forall_eq']
    constructor
    . intro hok
      rw [hvalue.1 hok]
      rfl
    . intro hnot
      rw [hvalue.2 hnot]
      rfl

end Guarded

end Json

section Shape

-- What is stored of an evaluation's findings, for each of its lists.
structure EvaluationFeedback (β : Type) where
  tech : β
  ux : β
  biz : β
  combined : β

-- The same for a snapshot. `reviews` keeps the order of the row.
structure SnapshotFeedback (β : Type) where
  versions : List (Option (EvaluationFeedback β))
  latestEvaluation : Option (EvaluationFeedback β)
  reviews : List (String × β)

variable {β γ : Type}

def EvaluationFeedback.map (f : β → γ) (feedback : EvaluationFeedback β) : EvaluationFeedback γ :=
  {
    tech := f feedback.tech
    ux := f feedback.ux
    biz := f feedback.biz
    combined := f feedback.combined
  }

def EvaluationFeedback.toList (feedback : EvaluationFeedback β) : List β :=
  [feedback.tech, feedback.ux, feedback.biz, feedback.combined]

def SnapshotFeedback.map (f : β → γ) (feedback : SnapshotFeedback β) : SnapshotFeedback γ :=
  {
    versions := feedback.versions.map (Option.map (EvaluationFeedback.map f))
    latestEvaluation := feedback.latestEvaluation.map (EvaluationFeedback.map f)
    reviews := Record.mapValues (fun _ => f) feedback.reviews
  }

-- Every list of the row.
def SnapshotFeedback.toList (feedback : SnapshotFeedback β) : List β :=
  (feedback.versions ++ [feedback.latestEvaluation]).flatMap
      (fun evaluation => evaluation.elim [] EvaluationFeedback.toList)
    ++ feedback.reviews.map Prod.snd

theorem SnapshotFeedback.forall_mem_toList {p : β → Prop} {feedback : SnapshotFeedback β} :
    (∀ items ∈ feedback.toList, p items)
      ↔
    (∀ version ∈ feedback.versions, ∀ evaluation ∈ version, ∀ items ∈ evaluation.toList, p items)
      ∧ (∀ evaluation ∈ feedback.latestEvaluation, ∀ items ∈ evaluation.toList, p items)
      ∧ ∀ entry ∈ feedback.reviews, p entry.2 := by
  have helim (evaluation : Option (EvaluationFeedback β)) :
      (∀ items ∈ evaluation.elim [] EvaluationFeedback.toList, p items)
        ↔ ∀ e ∈ evaluation, ∀ items ∈ e.toList, p items := by
    cases evaluation <;> simp
  unfold toList
  rw [List.forall_mem_append, List.forall_mem_flatMap, List.forall_mem_append,
    List.forall_mem_singleton, List.forall_mem_map]
  simp only [helim, and_assoc]

theorem SnapshotFeedback.toList_map (f : β → γ) (feedback : SnapshotFeedback β) :
    (feedback.map f).toList = feedback.toList.map f := by
  have helim (evaluation : Option (EvaluationFeedback β)) :
      (evaluation.map (EvaluationFeedback.map f)).elim [] EvaluationFeedback.toList
        = (evaluation.elim [] EvaluationFeedback.toList).map f := by
    cases evaluation <;> rfl
  simp [map, toList, Record.mapValues, List.flatMap_map, List.map_flatMap, helim]

theorem SnapshotFeedback.map_map {δ : Type} (f : β → γ) (g : γ → δ)
    (feedback : SnapshotFeedback β) : (feedback.map f).map g = feedback.map (g ∘ f) := by
  have hcomp : EvaluationFeedback.map g ∘ EvaluationFeedback.map f
      = EvaluationFeedback.map (g ∘ f) := rfl
  simp only [map, Record.mapValues, List.map_map, Option.map_map, Option.map_comp_map, hcomp]
  rfl

theorem EvaluationFeedback.map_congr {f g : β → γ} {feedback : EvaluationFeedback β}
    (h : ∀ items ∈ feedback.toList, f items = g items) : feedback.map f = feedback.map g := by
  simp only [toList, List.forall_mem_cons] at h
  simp only [map, h]

theorem SnapshotFeedback.map_congr {f g : β → γ} {feedback : SnapshotFeedback β}
    (h : ∀ items ∈ feedback.toList, f items = g items) : feedback.map f = feedback.map g := by
  rw [forall_mem_toList] at h
  obtain ⟨hversions, hlatest, hreviews⟩ := h
  unfold map
  congr 1
  . apply List.map_congr_left
    intro version hmem
    exact Option.map_congr fun evaluation he =>
      EvaluationFeedback.map_congr (hversions version hmem evaluation he)
  . exact Option.map_congr fun evaluation he => EvaluationFeedback.map_congr (hlatest evaluation he)
  . unfold Record.mapValues
    apply List.map_congr_left
    intro entry hmem
    simp only [hreviews entry hmem]

end Shape

section Read

variable {β : Type} (missing : β) (item : Json → Option β)

def RoleReview.readFeedback : Json → Option β :=
  Json.ofFields (Fields.slot "feedback" missing item)

def EvaluationResult.readFeedback : Json → Option (EvaluationFeedback β) :=
  Json.ofFields fun fields => do
    let tech ← Fields.slot "tech" missing (RoleReview.readFeedback missing item) fields
    let ux ← Fields.slot "ux" missing (RoleReview.readFeedback missing item) fields
    let biz ← Fields.slot "biz" missing (RoleReview.readFeedback missing item) fields
    let combined ← Fields.slot "combined_feedback" missing item fields
    return { tech, ux, biz, combined }

def PRDVersion.readFeedback : Json → Option (Option (EvaluationFeedback β)) :=
  Json.ofFields (Fields.slot "evaluation" none
    (Json.ofNullable (EvaluationResult.readFeedback missing item)))

/--
The lists of findings of a row. `item` reads one of them, and `missing` stands for one that the row
does not have.
-/
def RunSnapshot.readFeedback : Json → Option (SnapshotFeedback β) :=
  Json.ofFields fun fields => do
    let versions ← Fields.slot "versions" []
      (Json.ofItems (PRDVersion.readFeedback missing item)) fields
    let latestEvaluation ← Fields.slot "latest_evaluation" none
      (Json.ofNullable (EvaluationResult.readFeedback missing item)) fields
    let reviews ← Fields.slot "reviews" []
      (Json.ofFields (Record.mapValuesM (RoleReview.readFeedback missing item))) fields
    return { versions, latestEvaluation, reviews }

end Read

section Blank

def RoleReview.blankField (name : String) : Json → Json :=
  if name = "feedback" then
    fun _ => .arr []
  else
    id

def RoleReview.withoutFeedback : Json → Json :=
  Json.onFields (Record.mapValues blankField)

def EvaluationResult.blankField (name : String) : Json → Json :=
  if name = "tech" ∨ name = "ux" ∨ name = "biz" then
    RoleReview.withoutFeedback
  else if name = "combined_feedback" then
    fun _ => .arr []
  else
    id

def EvaluationResult.withoutFeedback : Json → Json :=
  Json.onFields (Record.mapValues blankField)

def PRDVersion.blankField (name : String) : Json → Json :=
  if name = "evaluation" then
    EvaluationResult.withoutFeedback
  else
    id

def PRDVersion.withoutFeedback : Json → Json :=
  Json.onFields (Record.mapValues blankField)

def RunSnapshot.blankField (name : String) : Json → Json :=
  if name = "versions" then
    Json.onItems PRDVersion.withoutFeedback
  else if name = "latest_evaluation" then
    EvaluationResult.withoutFeedback
  else if name = "reviews" then
    Json.onFields (Record.mapValues fun _ => RoleReview.withoutFeedback)
  else
    id

-- The row with every list of findings empty.
def RunSnapshot.withoutFeedback : Json → Json :=
  Json.onFields (Record.mapValues blankField)

end Blank

section Refill

theorem refills_feedback :
    Refills feedbackCodec.decode (fun _ => .arr []) feedbackCodec.decode (fun _ x => x) Eq :=
  Refills.whole rfl

namespace RoleReview

def refill (review : RoleReview) (feedback : List FeedbackItem) : RoleReview :=
  { review with feedback }

theorem refills :
    Refills codec.decode withoutFeedback (readFeedback [] feedbackCodec.decode) refill
      fun review feedback => review.feedback = feedback := by
  refine Refills.retract (Json.refills_object <| Fields.refills_closed <|
    Fields.refills_same rfl <| Fields.refills_same rfl <| Fields.refills_same rfl <|
    Fields.refills_same rfl <|
    Fields.refills_slot [] rfl refills_feedback ?_ Fields.refills_nil)
    Prod.fst ?_ ?_ ?_
  . intro feedback hmem
    cases hmem
    exact ⟨rfl, rfl⟩
  . intro value
    cases value with
    | obj fields =>
      simp only [readFeedback, Json.ofFields, Option.map_bind]
      cases Fields.slot "feedback" [] feedbackCodec.decode fields <;> rfl
    | _ => rfl
  . intro _ _
    rfl
  . intro _ _ _ _ _
    rfl

end RoleReview

namespace EvaluationResult

def feedback (evaluation : EvaluationResult) : EvaluationFeedback (List FeedbackItem) :=
  {
    tech := evaluation.tech.feedback
    ux := evaluation.ux.feedback
    biz := evaluation.biz.feedback
    combined := evaluation.combinedFeedback
  }

-- No validator looks at the findings.
def refill (evaluation : EvaluationResult) (feedback : EvaluationFeedback (List FeedbackItem)) :
    EvaluationResult :=
  {
    tech := evaluation.tech.refill feedback.tech
    ux := evaluation.ux.refill feedback.ux
    biz := evaluation.biz.refill feedback.biz
    overallScore := evaluation.overallScore
    combinedFeedback := feedback.combined
    overall_range := evaluation.overall_range
    roles := evaluation.roles
    overall_eq := evaluation.overall_eq
  }

theorem validate?_refill (tech ux biz : RoleReview) (overallScore : ℚ)
    (combinedFeedback : List FeedbackItem) (feedback : EvaluationFeedback (List FeedbackItem)) :
    validate? (tech.refill feedback.tech) (ux.refill feedback.ux) (biz.refill feedback.biz)
        overallScore feedback.combined
      =
    (validate? tech ux biz overallScore combinedFeedback).map fun evaluation =>
      evaluation.refill feedback := by
  unfold validate?
  simp only [apply_dite (Option.map _), Option.map_none]
  rfl

theorem refills :
    Refills codec.decode withoutFeedback (readFeedback [] feedbackCodec.decode) refill
      fun evaluation feedback => evaluation.feedback = feedback := by
  refine Refills.retract (Json.refills_object <| Fields.refills_closed <|
    Fields.refills_slot [] rfl RoleReview.refills ?_ <|
    Fields.refills_slot [] rfl RoleReview.refills ?_ <|
    Fields.refills_slot [] rfl RoleReview.refills ?_ <|
    Fields.refills_same rfl <|
    Fields.refills_slot [] rfl refills_feedback ?_ Fields.refills_nil)
    (fun (tech, ux, biz, combined, _) => { tech, ux, biz, combined }) ?_ ?_ ?_
  . intro _ hmem
    contradiction
  . intro _ hmem
    contradiction
  . intro _ hmem
    contradiction
  . intro feedback hmem
    cases hmem
    exact ⟨rfl, rfl⟩
  . intro value
    cases value with
    | obj fields =>
      simp [readFeedback, Json.ofFields, Option.map_bind]
    | _ => rfl
  . rintro ⟨tech, ux, biz, overallScore, combined, _⟩ ⟨tech', ux', biz', combined', _⟩
    exact validate?_refill tech ux biz overallScore combined
      { tech := tech', ux := ux', biz := biz', combined := combined' }
  . intro _ _ _ _ _
    rfl

end EvaluationResult

theorem map_eq_of_rel {α β : Type} {f : α → β} {a : Option α} {b : Option β}
    (h : Option.Rel (fun a b => f a = b) a b) : a.map f = b := by
  cases h with
  | none => rfl
  | some heq => rw [Option.map_some, heq]

namespace PRDVersion

def feedback (version : PRDVersion) : Option (EvaluationFeedback (List FeedbackItem)) :=
  version.evaluation.map EvaluationResult.feedback

def refill (version : PRDVersion) (feedback : Option (EvaluationFeedback (List FeedbackItem))) :
    PRDVersion :=
  {
    version with
    evaluation := version.evaluation.bind fun evaluation => feedback.map evaluation.refill
  }

theorem refills (datetime : Codec String Timestamp) :
    Refills (codec datetime).decode withoutFeedback (readFeedback [] feedbackCodec.decode) refill
      fun version feedback => version.feedback = feedback := by
  refine Refills.retract (Json.refills_object <| Fields.refills_closed <|
    Fields.refills_same rfl <| Fields.refills_same rfl <| Fields.refills_same rfl <|
    Fields.refills_slot none rfl (Json.refills_nullable EvaluationResult.refills) ?_ <|
    Fields.refills_same rfl <| Fields.refills_same rfl Fields.refills_nil)
    Prod.fst ?_ ?_ ?_
  . intro evaluation hmem
    cases hmem
    exact ⟨rfl, .none⟩
  . intro value
    cases value with
    | obj fields => simp [readFeedback, Json.ofFields]
    | _ => rfl
  . intro _ _
    rfl
  . intro _ _ _ hmake hholds
    cases hmake
    exact map_eq_of_rel hholds.1

end PRDVersion

namespace RunSnapshot

-- The snapshot has these findings, and no others.
structure HasFeedback (s : RunSnapshot) (feedback : SnapshotFeedback (List FeedbackItem)) :
    Prop where
  versions : s.versions.map PRDVersion.feedback = feedback.versions
  latestEvaluation : s.latestEvaluation.map EvaluationResult.feedback = feedback.latestEvaluation
  reviews : ∀ role,
    (s.reviews role).map RoleReview.feedback = Record.get? feedback.reviews role.value

def refill (s : RunSnapshot) (feedback : SnapshotFeedback (List FeedbackItem)) : RunSnapshot :=
  {
    s with
    versions := List.zipWith PRDVersion.refill s.versions feedback.versions
    latestEvaluation :=
      s.latestEvaluation.bind fun evaluation => feedback.latestEvaluation.map evaluation.refill
    reviews := fun role =>
      (s.reviews role).bind fun review =>
        (Record.get? feedback.reviews role.value).map review.refill
  }

theorem valid_refill {s : RunSnapshot} {feedback : SnapshotFeedback (List FeedbackItem)} :
    (s.refill feedback).Valid ↔ s.Valid :=
  ⟨fun h => { h with }, fun h => { h with }⟩

theorem refills (datetime : Codec String Timestamp) :
    Refills (fields datetime).decode withoutFeedback (readFeedback [] feedbackCodec.decode) refill
      HasFeedback := by
  refine Refills.retract (Json.refills_object <| Fields.refills_closed <|
    Fields.refills_same rfl <| Fields.refills_same rfl <| Fields.refills_same rfl <|
    Fields.refills_same rfl <| Fields.refills_same rfl <| Fields.refills_same rfl <|
    Fields.refills_same rfl <| Fields.refills_same rfl <| Fields.refills_same rfl <|
    Fields.refills_same rfl <| Fields.refills_same rfl <| Fields.refills_same rfl <|
    Fields.refills_same rfl <| Fields.refills_same rfl <|
    Fields.refills_slot [] rfl (Json.refills_array (PRDVersion.refills datetime)) ?_ <|
    Fields.refills_same rfl <| Fields.refills_same rfl <|
    Fields.refills_slot none rfl (Json.refills_nullable EvaluationResult.refills) ?_ <|
    Fields.refills_same rfl <| Fields.refills_same rfl <|
    Fields.refills_slot [] rfl (Json.refills_object (Refills.dict RoleReview.refills)) ?_ <|
    Fields.refills_same rfl <| Fields.refills_same rfl <| Fields.refills_same rfl <|
    Fields.refills_same rfl <| Fields.refills_same rfl <| Fields.refills_same rfl <|
    Fields.refills_same rfl <| Fields.refills_same rfl <| Fields.refills_same rfl <|
    Fields.refills_same rfl <| Fields.refills_same rfl <| Fields.refills_same rfl <|
    Fields.refills_same rfl <| Fields.refills_same rfl <| Fields.refills_same rfl <|
    Fields.refills_same rfl Fields.refills_nil)
    (fun (versions, latestEvaluation, reviews, _) => { versions, latestEvaluation, reviews })
    ?_ ?_ ?_
  . intro versions hmem
    cases hmem
    exact ⟨rfl, .nil⟩
  . intro evaluation hmem
    cases hmem
    exact ⟨rfl, .none⟩
  . intro reviews hmem
    cases hmem
    exact ⟨rfl, fun _ => .none⟩
  . intro value
    cases value with
    | obj fields => simp [readFeedback, Json.ofFields, Option.map_bind]
    | _ => rfl
  . intro _ _
    rfl
  . intro _ _ _ hmake hholds
    cases hmake
    obtain ⟨hversions, hlatest, hreviews, _⟩ := hholds
    constructor
    . rwa [← List.forall₂_eq_eq_eq, List.forall₂_map_left_iff]
    . exact map_eq_of_rel hlatest
    . exact fun role => map_eq_of_rel (hreviews role)

-- A row is read as it is without findings, and its findings are put into it.
theorem validateJson?_eq (datetime : Codec String Timestamp) (row : Json) :
    validateJson? datetime row
      =
    (validateJson? datetime (withoutFeedback row)).bind fun s =>
      (readFeedback [] feedbackCodec.decode row).map s.refill := by
  unfold validateJson?
  rw [(refills datetime).decode_eq row]
  cases (fields datetime).decode (withoutFeedback row) with
  | none => rfl
  | some s =>
    cases readFeedback [] feedbackCodec.decode row with
    | none => cases h : decide s.Valid <;> simp [Option.filter, h]
    | some feedback =>
      simp only [Option.bind_some, Option.map_some, Option.filter_some, valid_refill]
      split <;> rfl

end RunSnapshot

end Refill

section Strings

-- The strings that the coercion keeps, in order.
def kept (strings : List String) : List String :=
  (strings.map fun s => String.ofList (PrdDocument.strip s.toList)).filter fun text => text ≠ ""

-- What `FeedbackItem` makes of a string that is kept.
def shouldFix? (text : String) : Option FeedbackItem :=
  if h : LengthIn text 2000 then
    some {
      severity := .shouldFix
      issue := text
      recommendation := text
      issue_length := h
      recommendation_length := h
    }
  else
    none

def Short (strings : List String) : Prop :=
  ∀ s ∈ strings, (PrdDocument.strip s.toList).length ≤ 2000

instance (strings : List String) : Decidable (Short strings) :=
  inferInstanceAs (Decidable (∀ _ ∈ _, _))

def shouldFixes (strings : List String) : List FeedbackItem :=
  (kept strings).filterMap shouldFix?

-- The entry that `_coerce_feedback` makes of a string that is kept.
def legacyItem (text : String) : Json :=
  .obj [
    ("severity", .str FeedbackSeverity.shouldFix.value),
    ("issue", .str text),
    ("recommendation", .str text)
  ]

theorem decode_legacyItem (text : String) :
    FeedbackItem.codec.decode (legacyItem text) = shouldFix? text := by
  unfold shouldFix?
  split
  . next h =>
    exact FeedbackItem.codec.decode_encode {
      severity := .shouldFix
      issue := text
      recommendation := text
      issue_length := h
      recommendation_length := h
    }
  . next h =>
    have hissue : (Json.lengthIn 2000).decode (.str text) = none := by
      simp [Json.lengthIn, Codec.subtype, Json.text, h]
    simp [FeedbackItem.codec, Codec.retract, Json.object, Fields.closed, Fields.cons, Fields.read,
      legacyItem, Record.get?_cons, hissue]

theorem coerceFeedback_strings (strings : List String) :
    coerceFeedback (.arr (strings.map .str)) = .arr ((kept strings).map legacyItem) := by
  unfold coerceFeedback kept
  dsimp only
  rw [List.filterMap_map, ← List.filterMap_eq_filter, List.filterMap_map, List.map_filterMap]
  congr 1
  apply List.filterMap_congr
  intro s _
  simp only [Function.comp_apply, coerceItem]
  by_cases h : String.ofList (PrdDocument.strip s.toList) = ""
  . simp [h]
  . simp [h, legacyItem]

theorem short_iff {strings : List String} :
    Short strings ↔ ∀ text ∈ kept strings, (shouldFix? text).isSome = true := by
  have hsome (text : String) : (shouldFix? text).isSome = true ↔ LengthIn text 2000 := by
    unfold shouldFix?
    split <;> simp_all
  have hlength (s : String) :
      (String.ofList (PrdDocument.strip s.toList)).length = (PrdDocument.strip s.toList).length := by
    rw [← String.length_toList, String.toList_ofList]
  simp only [hsome, kept, List.mem_filter, List.mem_map, decide_eq_true_eq, and_imp,
    forall_exists_index]
  constructor
  . rintro h _ s hmem rfl hne
    refine ⟨?_, hlength s ▸ h s hmem⟩
    rw [Nat.one_le_iff_ne_zero]
    intro hzero
    exact hne (String.length_eq_zero_iff.mp hzero)
  . intro h s hmem
    by_cases hne : String.ofList (PrdDocument.strip s.toList) = ""
    . rw [← hlength s, hne]
      simp
    . rw [← hlength s]
      exact (h _ s hmem rfl hne).2

theorem array_text {value : Json} {strings : List String}
    (h : (Json.array Json.text).decode value = some strings) :
    value = .arr (strings.map .str) := by
  cases value with
  | arr values =>
    congr 1
    simp only [Json.array, Codec.list] at h
    induction values generalizing strings with
    | nil =>
      cases h
      rfl
    | cons value values ih =>
      simp only [List.mapM_cons, Option.pure_def, Option.bind_eq_bind, Option.bind_eq_some_iff,
        Option.some.injEq] at h
      obtain ⟨s, hs, rest, hrest, rfl⟩ := h
      rw [List.map_cons, ih hrest]
      cases value with
      | str s' =>
        cases hs
        rfl
      | _ => contradiction
  | _ => contradiction

-- The coercion feeds the strings that it keeps to a model with a limit of its own.
theorem guarded_feedback :
    Guarded (Json.array Json.text).decode feedbackCodec.decode Short shouldFixes := by
  intro value strings hread
  rw [array_text hread]
  have hdecode : feedbackCodec.decode (.arr (strings.map .str))
      = (kept strings).mapM shouldFix? := by
    simp only [feedbackCodec, coerceFeedback_strings, Json.array, Codec.list, List.mapM_map,
      Function.comp_def, decode_legacyItem]
  rw [hdecode, short_iff]
  exact mapM_option shouldFix? (kept strings)

theorem short_nil : Short [] :=
  List.forall_mem_nil _

theorem RoleReview.guarded :
    Guarded (readFeedback [] (Json.array Json.text).decode)
      (readFeedback [] feedbackCodec.decode) Short shouldFixes :=
  Json.guarded_ofFields (Fields.guarded_slot guarded_feedback short_nil rfl)

theorem EvaluationResult.guarded :
    Guarded (readFeedback [] (Json.array Json.text).decode)
      (readFeedback [] feedbackCodec.decode)
      (fun feedback => ∀ strings ∈ feedback.toList, Short strings)
      (EvaluationFeedback.map shouldFixes) := by
  apply Json.guarded_ofFields
  intro fields feedback hread
  have hreview (name : String) :
      Guarded (Fields.slot name [] (RoleReview.readFeedback [] (Json.array Json.text).decode))
        (Fields.slot name [] (RoleReview.readFeedback [] feedbackCodec.decode)) Short shouldFixes :=
    Fields.guarded_slot RoleReview.guarded short_nil rfl
  have hcombined : Guarded (Fields.slot "combined_feedback" [] (Json.array Json.text).decode)
      (Fields.slot "combined_feedback" [] feedbackCodec.decode) Short shouldFixes :=
    Fields.guarded_slot guarded_feedback short_nil rfl
  simp only [Option.bind_eq_bind, Option.bind_eq_some_iff, Option.pure_def,
    Option.some.injEq] at hread
  obtain ⟨tech, htech, ux, hux, biz, hbiz, combined, hcomb, rfl⟩ := hread
  simp only [EvaluationFeedback.toList, List.forall_mem_cons]
  constructor
  . rintro ⟨hok, hok', hok'', hok''', -⟩
    rw [(hreview "tech" fields tech htech).1 hok, (hreview "ux" fields ux hux).1 hok',
      (hreview "biz" fields biz hbiz).1 hok'', (hcombined fields combined hcomb).1 hok''']
    rfl
  . intro hnot
    rw [Option.eq_none_iff_forall_ne_some]
    intro items hitems
    simp only [Option.bind_eq_bind, Option.bind_eq_some_iff] at hitems
    obtain ⟨_, htech', _, hux', _, hbiz', _, hcomb', _⟩ := hitems
    exact hnot ⟨(hreview "tech").ok htech htech', (hreview "ux").ok hux hux',
      (hreview "biz").ok hbiz hbiz', hcombined.ok hcomb hcomb', List.forall_mem_nil _⟩

theorem PRDVersion.guarded :
    Guarded (readFeedback [] (Json.array Json.text).decode)
      (readFeedback [] feedbackCodec.decode)
      (fun feedback => ∀ evaluation ∈ feedback, ∀ strings ∈ evaluation.toList, Short strings)
      (Option.map (EvaluationFeedback.map shouldFixes)) :=
  Json.guarded_ofFields
    (Fields.guarded_slot (Json.guarded_ofNullable EvaluationResult.guarded) nofun rfl)

theorem RunSnapshot.guarded :
    Guarded (readFeedback [] (Json.array Json.text).decode)
      (readFeedback [] feedbackCodec.decode)
      (fun feedback => ∀ strings ∈ feedback.toList, Short strings)
      (SnapshotFeedback.map shouldFixes) := by
  apply Json.guarded_ofFields
  intro fields feedback hread
  have hversions : Guarded
      (Fields.slot "versions" []
        (Json.ofItems (PRDVersion.readFeedback [] (Json.array Json.text).decode)))
      (Fields.slot "versions" [] (Json.ofItems (PRDVersion.readFeedback [] feedbackCodec.decode)))
      _ _ :=
    Fields.guarded_slot (Json.guarded_ofItems PRDVersion.guarded) (List.forall_mem_nil _) rfl
  have hlatest : Guarded
      (Fields.slot "latest_evaluation" none
        (Json.ofNullable (EvaluationResult.readFeedback [] (Json.array Json.text).decode)))
      (Fields.slot "latest_evaluation" none
        (Json.ofNullable (EvaluationResult.readFeedback [] feedbackCodec.decode)))
      _ _ :=
    Fields.guarded_slot (Json.guarded_ofNullable EvaluationResult.guarded) nofun rfl
  have hreviews : Guarded
      (Fields.slot "reviews" [] (Json.ofFields
        (Record.mapValuesM (RoleReview.readFeedback [] (Json.array Json.text).decode))))
      (Fields.slot "reviews" [] (Json.ofFields
        (Record.mapValuesM (RoleReview.readFeedback [] feedbackCodec.decode))))
      _ _ :=
    Fields.guarded_slot (Json.guarded_ofFields RoleReview.guarded.mapValuesM)
      (List.forall_mem_nil _) rfl
  simp only [Option.bind_eq_bind, Option.bind_eq_some_iff, Option.pure_def,
    Option.some.injEq] at hread
  obtain ⟨versions, hversion, latest, hlate, reviews, hreview, rfl⟩ := hread
  simp only [SnapshotFeedback.forall_mem_toList]
  constructor
  . rintro ⟨hok, hok', hok''⟩
    rw [(hversions fields versions hversion).1 hok, (hlatest fields latest hlate).1 hok',
      (hreviews fields reviews hreview).1 hok'']
    rfl
  . intro hnot
    rw [Option.eq_none_iff_forall_ne_some]
    intro items hitems
    simp only [Option.bind_eq_bind, Option.bind_eq_some_iff] at hitems
    obtain ⟨_, hversion', _, hlate', _, hreview', _⟩ := hitems
    exact hnot ⟨hversions.ok hversion hversion', hlatest.ok hlate hlate',
      hreviews.ok hreview hreview'⟩

-- What a finding says.
def FeedbackItem.parts (item : FeedbackItem) : FeedbackSeverity × String × String :=
  (item.severity, item.issue, item.recommendation)

theorem parts_of_shouldFix? {text : String} {item : FeedbackItem}
    (h : shouldFix? text = some item) : item.parts = (.shouldFix, text, text) := by
  unfold shouldFix? at h
  split at h
  . cases h
    rfl
  . contradiction

theorem map_parts_shouldFixes {strings : List String} (h : Short strings) :
    (shouldFixes strings).map FeedbackItem.parts
      =
    (kept strings).map fun text => (.shouldFix, text, text) := by
  rw [short_iff] at h
  unfold shouldFixes
  rw [List.map_filterMap, ← List.filterMap_eq_map]
  apply List.filterMap_congr
  intro text hmem
  obtain ⟨item, hitem⟩ := Option.isSome_iff_exists.mp (h text hmem)
  rw [hitem, Option.map_some, parts_of_shouldFix? hitem]
  rfl

end Strings

namespace SQLiteRunStore

/--
A row whose lists of findings are lists of strings. The validators accept it when they are empty.
-/
structure LegacyRow (datetime : Codec String Timestamp) where
  row : Json
  strings : SnapshotFeedback (List String)
  row_strings : RunSnapshot.readFeedback [] (Json.array Json.text).decode row = some strings
  row_valid : (RunSnapshot.validateJson? datetime (RunSnapshot.withoutFeedback row)).isSome = true

-- Every list of findings is what is kept of its strings, and none of the findings blocks the run.
structure KeepsStrings (strings : SnapshotFeedback (List String))
    (feedback : SnapshotFeedback (List FeedbackItem)) : Prop where
  noMustFix : ∀ items ∈ feedback.toList, ∀ item ∈ items, item.severity ≠ .mustFix
  kept : feedback.map (List.map FeedbackItem.parts)
    = strings.map fun list => (kept list).map fun text => (.shouldFix, text, text)

-- The new process loads every row, with all of its strings.
def LoadsLegacy (datetime : Codec String Timestamp) (utc : Nat → Timestamp) (ticks : Nat)
    (rows : List (LegacyRow datetime)) : Prop :=
  ∃ loaded,
    loadSnapshots datetime utc ticks (rows.map LegacyRow.row) = some loaded
      ∧
    List.Forall₂ (fun legacy s => ∃ feedback, s.HasFeedback feedback
      ∧ KeepsStrings legacy.strings feedback) rows loaded

section Legacy

variable {datetime : Codec String Timestamp} {legacy : LegacyRow datetime}
  {strings : SnapshotFeedback (List String)}

theorem keepsStrings_map (h : ∀ list ∈ strings.toList, Short list) :
    KeepsStrings strings (strings.map shouldFixes) := by
  constructor
  . rw [SnapshotFeedback.toList_map, List.forall_mem_map]
    intro list _ item hmem hseverity
    obtain ⟨text, _, htext⟩ := List.mem_filterMap.mp hmem
    have hparts := congrArg Prod.fst (parts_of_shouldFix? htext)
    rw [FeedbackItem.parts, hseverity] at hparts
    contradiction
  . rw [SnapshotFeedback.map_map]
    apply SnapshotFeedback.map_congr
    intro list hmem
    exact map_parts_shouldFixes (h list hmem)

theorem validateJson?_legacy (legacy : LegacyRow datetime) :
    ((∀ list ∈ legacy.strings.toList, Short list) →
        ∃ s, RunSnapshot.validateJson? datetime legacy.row = some s
          ∧ s.HasFeedback (legacy.strings.map shouldFixes))
      ∧
    ((¬∀ list ∈ legacy.strings.toList, Short list) →
      RunSnapshot.validateJson? datetime legacy.row = none) := by
  obtain ⟨s, hs⟩ := Option.isSome_iff_exists.mp legacy.row_valid
  have hguarded := RunSnapshot.guarded legacy.row legacy.strings legacy.row_strings
  rw [RunSnapshot.validateJson?_eq, hs]
  constructor
  . intro hshort
    have hread := hguarded.1 hshort
    rw [hread]
    refine ⟨_, rfl, ?_⟩
    exact (RunSnapshot.refills datetime).holds (Option.filter_eq_some_iff.mp hs).1 hread
  . intro hlong
    rw [hguarded.2 hlong]
    rfl

theorem hasFeedback_loadSnapshot {s : RunSnapshot} {feedback : SnapshotFeedback (List FeedbackItem)}
    (now : Timestamp) (h : s.HasFeedback feedback) : (loadSnapshot now s).HasFeedback feedback := by
  unfold loadSnapshot
  split
  . exact h
  . exact { h with }

theorem loadsLegacy_of_short (utc : Nat → Timestamp) (ticks : Nat)
    {rows : List (LegacyRow datetime)}
    (h : ∀ legacy ∈ rows, ∀ list ∈ legacy.strings.toList, Short list) :
    LoadsLegacy datetime utc ticks rows := by
  induction rows generalizing ticks with
  | nil => exact ⟨[], rfl, .nil⟩
  | cons legacy rows ih =>
    rw [List.forall_mem_cons] at h
    obtain ⟨s, hs, hfeedback⟩ := (validateJson?_legacy legacy).1 h.1
    obtain ⟨loaded, hloaded, hkeeps⟩ :=
      ih (if s.status.isTerminal then ticks else ticks + 1) h.2
    refine ⟨loadSnapshot (utc ticks) s :: loaded, ?_, .cons ?_ hkeeps⟩
    . rw [List.map_cons, loadSnapshots, hs]
      simp only [Option.bind_eq_bind, Option.bind_some, hloaded]
      rfl
    . exact ⟨_, hasFeedback_loadSnapshot _ hfeedback, keepsStrings_map h.1⟩

-- One row that is refused makes the whole load fail.
theorem validates_of_loadSnapshots {utc : Nat → Timestamp} {ticks : Nat} {rows : List Json}
    {loaded : List RunSnapshot} (h : loadSnapshots datetime utc ticks rows = some loaded) :
    ∀ row ∈ rows, (RunSnapshot.validateJson? datetime row).isSome = true := by
  induction rows generalizing ticks loaded with
  | nil => exact List.forall_mem_nil _
  | cons row rows ih =>
    unfold loadSnapshots at h
    simp only [Option.bind_eq_bind, Option.bind_eq_some_iff] at h
    obtain ⟨s, hs, _, hrest, _⟩ := h
    rw [List.forall_mem_cons, hs]
    exact ⟨rfl, ih hrest⟩

end Legacy

/--
A new process loads the rows that hold findings as strings, with all of the strings that are not
blank, exactly when none of them is longer than a finding may be.
-/
theorem loadsLegacy_iff (datetime : Codec String Timestamp) (utc : Nat → Timestamp) (ticks : Nat)
    (rows : List (LegacyRow datetime)) :
    LoadsLegacy datetime utc ticks rows
      ↔
    ∀ legacy ∈ rows, ∀ list ∈ legacy.strings.toList, ∀ s ∈ list,
      (PrdDocument.strip s.toList).length ≤ 2000 := by
  constructor
  . rintro ⟨loaded, hloaded, _⟩ legacy hmem
    by_contra hlong
    have hsome := validates_of_loadSnapshots hloaded legacy.row (List.mem_map_of_mem hmem)
    rw [(validateJson?_legacy legacy).2 hlong] at hsome
    contradiction
  . exact loadsLegacy_of_short utc ticks

-- A run with a single review, which has a single finding.
def legacyJson (finding : String) : Json :=
  .obj [
    ("run_id", .str "run"),
    ("user_idea", .str "An idea of a product"),
    ("reviews", .obj [
      ("tech", .obj [
        ("role", .str "tech"),
        ("score", .ofNat 80),
        ("summary", .str "Sound"),
        ("feedback", .arr [.str finding])
      ])
    ]),
    ("created_at", .str ""),
    ("updated_at", .str "")
  ]

theorem withoutFeedback_legacyJson (finding : String) :
    RunSnapshot.withoutFeedback (legacyJson finding) = RunSnapshot.withoutFeedback (legacyJson "") :=
  rfl

def legacyRow (finding : String) : LegacyRow mockDatetime :=
  {
    row := legacyJson finding
    strings := {
      versions := []
      latestEvaluation := none
      reviews := [("tech", [finding])]
    }
    row_strings := rfl
    row_valid := by
      rw [withoutFeedback_legacyJson]
      decide +kernel
  }

theorem not_loadsLegacy_of_long {finding : String}
    (h : 2000 < (PrdDocument.strip finding.toList).length) :
    ¬LoadsLegacy mockDatetime (fun _ => 0) 0 [legacyRow finding] := by
  rintro ⟨loaded, hloaded, _⟩
  have hlong : ¬∀ list ∈ (legacyRow finding).strings.toList, Short list := by
    intro hall
    have hshort := hall [finding] List.mem_cons_self finding List.mem_cons_self
    omega
  have hsome := validates_of_loadSnapshots hloaded _ List.mem_cons_self
  rw [(validateJson?_legacy _).2 hlong] at hsome
  contradiction

-- The finding has 2001 characters.
theorem not_loadsLegacy_finding :
    ¬LoadsLegacy mockDatetime (fun _ => 0) 0
      [legacyRow (String.ofList (List.replicate 2001 'a'))] := by
  apply not_loadsLegacy_of_long
  rw [String.toList_ofList]
  decide +kernel

end SQLiteRunStore

end AgenticPrd
