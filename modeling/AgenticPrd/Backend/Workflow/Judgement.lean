import AgenticPrd.Backend.RunManager.Order
import AgenticPrd.Backend.Workflow.Course
import AgenticPrd.Backend.Workflow.Questions
import AgenticPrd.Backend.Workflow.Safety

/-!
What the evaluation of a version is made of: every reviewer is heard once, about that version, and in
answer to calls that it has made.
-/

namespace AgenticPrd

-- The value that is being repaired.
def StructuredPc.unread : StructuredPc → Option Json
  | calling _ _ => none
  | repairing first _ => some first.value

namespace Workflow

open RunManager Transition

-- A review that has been accepted, with the question that it answers, the value that had to be repaired
-- for it and the one that it is read from.
structure Opinion where
  role : ReviewRole
  iteration : Nat
  call : ProviderCall
  unread : Option Json
  value : Json
  review : RoleReview

-- The review that a step accepts.
def voiced (env : WorkflowEnv) : Pc → Label → Pc → List Opinion
  | .reviewing reviewers, .reviewerWake role (.returned result), .reviewing reviewers' =>
    match reviewers role, reviewers' role, env.roleReview result.value with
    | .suspended frame structured, .done, some review =>
      [
        {
          role
          iteration := frame.state.currentIteration
          call := reviewCall frame.state role
          unread := structured.unread
          value := result.value
          review
        }
      ]
    | _, _, _ => []
  | _, _, _ => []

def voices (env : WorkflowEnv) (c : Config) (label : Label) (c' : Config) : List Opinion :=
  voiced env c.pc label c'.pc

-- What the reviewer of a role has said in an iteration.
def heard (log : List Opinion) (iteration : Nat) (role : ReviewRole) : List Opinion :=
  log.filter fun opinion => opinion.iteration = iteration ∧ opinion.role = role

-- The opinion is a review by its role, and one of the version.
structure Opinion.Concerns (env : WorkflowEnv) (outputLanguage : String) (version : PRDVersion)
    (opinion : Opinion) : Prop where
  iteration : opinion.iteration = version.version
  call :
    opinion.call = .generateReview opinion.role version.content version.version outputLanguage
  review : env.roleReview opinion.value = some opinion.review
  role : opinion.review.role = opinion.role

-- The provider has been asked for the review: by its call, and by one more to repair what it gave
-- first.
structure Opinion.AskedIn (env : WorkflowEnv) (outputLanguage : String) (calls : List ProviderCall)
    (opinion : Opinion) : Prop where
  called : opinion.call ∈ calls
  repaired :
    ∀ value ∈ opinion.unread,
      env.roleReview value = none
        ∧ .repairStructured "review" value (some opinion.role) outputLanguage ∈ calls

structure Fair (env : WorkflowEnv) (log : List Opinion) (p : Plot) : Prop where
  asked : ∀ opinion ∈ log, ∃ version ∈ p.versions, opinion.Concerns env p.outputLanguage version
  once : ∀ iteration role, (heard log iteration role).length ≤ 1
  judged :
    ∀ version ∈ p.versions, ∀ evaluation ∈ version.evaluation, ∀ role,
      ∃ opinion, heard log version.version role = [opinion]
        ∧ opinion.review = evaluation.review role

-- Where a reviewer stands with the version.
def Hears (log : List Opinion) (p : Plot) (version : PRDVersion) (role : ReviewRole) :
    ReviewerPc → Prop
  | .done =>
    ∃ opinion, heard log version.version role = [opinion] ∧ p.reviews role = some opinion.review
  | .suspended frame _ =>
    heard log version.version role = []
      ∧ frame.state.currentIteration = version.version
      ∧ reviewCall frame.state role
        = .generateReview role version.content version.version p.outputLanguage
  | .ready => heard log version.version role = []
  | .raised _ => True

-- The document that is up for review is that of the last version.
structure Hearing (log : List Opinion) (p : Plot) (reviewers : ReviewRole → ReviewerPc)
    (version : PRDVersion) : Prop where
  last : p.versions.getLast? = some version
  document : p.document = some version.content
  hears : ∀ role, Hears log p version role (reviewers role)

def Attends (log : List Opinion) (p : Plot) : Pc → Prop
  | .reviewing reviewers => ∃ version, Hearing log p reviewers version
  | .toAggregator => ∃ version, Hearing log p (fun _ => .done) version
  | _ => True

section Heard

variable {log : List Opinion} {opinion : Opinion} {iteration : Nat} {role : ReviewRole}

theorem mem_heard :
    opinion ∈ heard log iteration role
      ↔ opinion ∈ log ∧ opinion.iteration = iteration ∧ opinion.role = role := by
  simp [heard]

theorem heard_self :
    heard (log ++ [opinion]) opinion.iteration opinion.role
      = heard log opinion.iteration opinion.role ++ [opinion] := by
  simp [heard]

theorem heard_other (hother : opinion.iteration ≠ iteration ∨ opinion.role ≠ role) :
    heard (log ++ [opinion]) iteration role = heard log iteration role := by
  have hnot : ¬(opinion.iteration = iteration ∧ opinion.role = role) :=
    Decidable.not_and_iff_not_or_not.mpr hother
  simp [heard, hnot]

end Heard

section Versions

variable {loop : LoopView} {version version' : PRDVersion}

-- A version is known by its number.
theorem Shape.version_inj (h : Shape loop) (hmem : version ∈ loop.versions)
    (hmem' : version' ∈ loop.versions) (heq : version.version = version'.version) :
    version = version' := by
  have hnodup : (loop.versions.map PRDVersion.version).Nodup := by
    rw [h.numbered]
    exact List.nodup_range'
  exact List.inj_on_of_nodup_map hnodup hmem hmem' heq

theorem Shape.version_le (h : Shape loop) (hmem : version ∈ loop.versions) :
    version.version ≤ loop.versions.length := by
  have hnumber : version.version ∈ loop.versions.map PRDVersion.version := List.mem_map_of_mem hmem
  rw [h.numbered, List.mem_range'_1] at hnumber
  omega

end Versions

section Step

variable {env : WorkflowEnv} {F : Exn → Prop} {c c' : Config} {label : Label} {log : List Opinion}
  {p p' : Plot} {pc : Pc}

-- Nothing is accepted but an answer to a reviewer that is done with it.
theorem voiced_of_request (hlabel : label.isRequest = true) {pc' : Pc} :
    voiced env pc label pc' = [] := by
  unfold voiced
  split
  . contradiction
  . rfl

theorem voiced_finished {outcome : Option Exn} : voiced env pc label (.finished outcome) = [] := by
  unfold voiced
  split
  . contradiction
  . rfl

theorem voiced_going {role : ReviewRole} {reviewers : ReviewRole → ReviewerPc}
    {reviewer : ReviewerPc} (hgoing : reviewer.isDone = false) (hlabel : StepsReviewer role label) :
    voiced env (.reviewing reviewers) label (.reviewing (Function.update reviewers role reviewer)) = [] := by
  cases hlabel with
  | enter => rfl
  | @wake answer =>
    cases answer with
    | returned result =>
      unfold voiced
      dsimp only
      rw [Function.update_self]
      cases reviewer with
      | done => contradiction
      | _ => split <;> first | contradiction | rfl
    | _ => rfl

-- The plots of the same versions.
theorem Fair.congr (h : Fair env log p) (hlanguage : p'.outputLanguage = p.outputLanguage)
    (hversions : p'.versions = p.versions) : Fair env log p' := by
  constructor
  . rw [hlanguage, hversions]
    exact h.asked
  . exact h.once
  . rw [hversions]
    exact h.judged

-- A version that is still to come has not been heard of.
theorem Fair.heard_eq_nil (h : Fair env log p) {iteration : Nat} (role : ReviewRole)
    (hahead : ∀ version ∈ p.versions, version.version ≠ iteration) :
    heard log iteration role = [] := by
  apply List.eq_nil_iff_forall_not_mem.mpr
  intro opinion hopinion
  obtain ⟨hmem, hiteration, _⟩ := mem_heard.mp hopinion
  obtain ⟨version, hversion, hconcerns⟩ := h.asked opinion hmem
  rw [hconcerns.iteration] at hiteration
  exact hahead version hversion hiteration

theorem Fair.written (h : Fair env log p) {version : PRDVersion} (hnone : version.evaluation = none) :
    Fair env log (p.written version) := by
  constructor
  . intro opinion hopinion
    obtain ⟨version', hversion, hconcerns⟩ := h.asked opinion hopinion
    exact ⟨version', List.mem_append_left _ hversion, hconcerns⟩
  . exact h.once
  . intro version' hversion evaluation hevaluation
    simp only [Plot.written, List.mem_append, List.mem_singleton] at hversion
    cases hversion with
    | inl hold => exact h.judged version' hold evaluation hevaluation
    | inr hnew =>
      rw [hnew, hnone] at hevaluation
      contradiction

theorem Fair.judged_of (h : Fair env log p) {evaluation : EvaluationResult}
    {version : PRDVersion} {earlier : List PRDVersion} (hversions : p.versions = earlier ++ [version])
    (hheard : ∀ role, ∃ opinion, heard log version.version role = [opinion]
      ∧ opinion.review = evaluation.review role) : Fair env log (p.judged evaluation) := by
  have hjudged :
      (p.judged evaluation).versions = earlier ++ [{ version with evaluation := some evaluation }] := by
    unfold Plot.judged
    rw [hversions]
    exact List.modifyLast_concat _ _ _
  constructor
  . intro opinion hopinion
    obtain ⟨version', hversion, hconcerns⟩ := h.asked opinion hopinion
    rw [hversions, List.mem_append, List.mem_singleton] at hversion
    rw [hjudged]
    cases hversion with
    | inl hearlier => exact ⟨version', List.mem_append_left _ hearlier, hconcerns⟩
    | inr hlast =>
      rw [hlast] at hconcerns
      refine ⟨_, List.mem_append_right _ List.mem_cons_self, ?_⟩
      exact ⟨hconcerns.iteration, hconcerns.call, hconcerns.review, hconcerns.role⟩
  . exact h.once
  . intro version' hversion evaluation' hevaluation
    rw [hjudged, List.mem_append, List.mem_singleton] at hversion
    cases hversion with
    | inl hearlier =>
      apply h.judged version' _ evaluation' hevaluation
      rw [hversions]
      exact List.mem_append_left _ hearlier
    | inr hlast =>
      rw [hlast] at hevaluation ⊢
      cases hevaluation
      exact hheard

-- One more opinion, on a version that has no evaluation yet.
theorem Fair.voiced (h : Fair env log p) {version : PRDVersion} {opinion : Opinion}
    (hmem : version ∈ p.versions) (hconcerns : opinion.Concerns env p.outputLanguage version)
    (hnew : heard log opinion.iteration opinion.role = [])
    (hnone : ∀ version' ∈ p.versions, version'.version = opinion.iteration →
      version'.evaluation = none) : Fair env (log ++ [opinion]) p := by
  constructor
  . intro opinion' hopinion
    rw [List.mem_append, List.mem_singleton] at hopinion
    cases hopinion with
    | inl hold => exact h.asked opinion' hold
    | inr heq =>
      rw [heq]
      exact ⟨version, hmem, hconcerns⟩
  . intro iteration role
    by_cases hsame : opinion.iteration = iteration ∧ opinion.role = role
    . rw [← hsame.1, ← hsame.2, heard_self, hnew]
      simp
    . rw [heard_other (Decidable.not_and_iff_not_or_not.mp hsame)]
      exact h.once iteration role
  . intro version' hversion evaluation hevaluation role
    have hother : opinion.iteration ≠ version'.version := by
      intro heq
      rw [hnone version' hversion heq.symm] at hevaluation
      contradiction
    rw [heard_other (.inl hother)]
    exact h.judged version' hversion evaluation hevaluation role

-- One reviewer goes on, and what the others have said is as it was.
theorem Hearing.update {reviewers : ReviewRole → ReviewerPc} {role : ReviewRole}
    {reviewer : ReviewerPc} {version : PRDVersion} {log' : List Opinion}
    (h : Hearing log p reviewers version) (hlanguage : p'.outputLanguage = p.outputLanguage)
    (hversions : p'.versions = p.versions) (hdocument : p'.document = p.document)
    (hreviews : ∀ other, other ≠ role → p'.reviews other = p.reviews other)
    (hothers : ∀ other, other ≠ role →
      heard log' version.version other = heard log version.version other)
    (hrole : Hears log' p' version role reviewer) :
    Hearing log' p' (Function.update reviewers role reviewer) version := by
  constructor
  . rw [hversions]
    exact h.last
  . rw [hdocument]
    exact h.document
  . intro other
    by_cases heq : other = role
    . rw [heq, Function.update_self]
      exact hrole
    . rw [Function.update_of_ne heq]
      have hhears := h.hears other
      cases hreviewer : reviewers other with
      | done =>
        rw [hreviewer] at hhears
        simp only [Hears] at hhears ⊢
        rw [hothers other heq, hreviews other heq]
        exact hhears
      | suspended frame structured =>
        rw [hreviewer] at hhears
        simp only [Hears] at hhears ⊢
        rw [hothers other heq, hlanguage]
        exact hhears
      | ready =>
        rw [hreviewer] at hhears
        simp only [Hears] at hhears ⊢
        rw [hothers other heq]
        exact hhears
      | raised exn => trivial

variable {w : World} {reviewers : ReviewRole → ReviewerPc} {role : ReviewRole}

-- The version that is being reviewed, among the others.
theorem Inv.hearing (hinv : Inv { world := w, pc := .reviewing reviewers }) {version : PRDVersion}
    (hlast : w.snapshot.plot.versions.getLast? = some version) :
    version.version = w.snapshot.currentIteration
      ∧ ∀ version' ∈ w.snapshot.plot.versions, version'.version = version.version →
        version'.evaluation = none := by
  obtain ⟨hat, _, _⟩ := hinv.pc
  obtain ⟨hlength, last, hlast', hnone⟩ := hat.facts
  cases Option.mem_unique hlast hlast'
  refine ⟨?_, ?_⟩
  . rw [hat.shape.last_version hlast]
    exact hlength.symm
  . intro version' hmem heq
    rw [hat.shape.version_inj hmem (List.mem_of_getLast? hlast) heq]
    exact hnone

theorem Inv.ahead {frame : GeneratorFrame} (hinv : Inv { world := w, pc := .generating frame }) :
    ∀ version ∈ w.snapshot.plot.versions, version.version ≠ w.snapshot.plot.currentIteration := by
  obtain ⟨hgenerating, _⟩ := hinv.pc
  intro version hmem heq
  have hle := hgenerating.stage.shape.version_le hmem
  have hpending : w.snapshot.plot.currentIteration = w.snapshot.plot.versions.length + 1 :=
    hgenerating.stage.facts.1
  change version.version ≤ w.snapshot.plot.versions.length at hle
  omega

theorem attends_called (hinv : Inv { world := w, pc := .reviewing reviewers })
    {version : PRDVersion} (hhearing : Hearing log w.snapshot.plot reviewers version)
    {frame : NodeFrame} {structured : StructuredPc} (hready : reviewers role = .ready)
    (hstate : frame.state.plot = w.snapshot.plot) :
    Hears log w.snapshot.plot version role (.suspended frame structured) := by
  have hhears := hhearing.hears role
  rw [hready] at hhears
  have hnumber := (hinv.hearing hhearing.last).1
  have hiteration : frame.state.currentIteration = version.version := by
    rw [hnumber]
    exact congrArg Plot.currentIteration hstate
  have hlanguage : frame.state.outputLanguage = w.snapshot.plot.outputLanguage :=
    congrArg Plot.outputLanguage hstate
  have hdocument := hhearing.document
  rw [← hstate] at hdocument
  have hcurrent : frame.state.currentPrd = version.content := by
    unfold RunSnapshot.plot at hdocument
    dsimp only at hdocument
    split at hdocument
    . exact Option.some.inj hdocument
    . contradiction
  refine ⟨hhears, hiteration, ?_⟩
  unfold reviewCall
  rw [hcurrent, hiteration, hlanguage]

theorem fair_reviewed (hinv : Inv { world := w, pc := .reviewing reviewers })
    (hfair : Fair env log w.snapshot.plot) {version : PRDVersion}
    (hhearing : Hearing log w.snapshot.plot reviewers version) {opinion : Opinion}
    (hconcerns : opinion.Concerns env w.snapshot.plot.outputLanguage version)
    (hnew : heard log version.version opinion.role = []) :
    Fair env (log ++ [opinion]) (w.snapshot.plot.reviewed opinion.role opinion.review)
      ∧ Hearing (log ++ [opinion]) (w.snapshot.plot.reviewed opinion.role opinion.review)
        (Function.update reviewers opinion.role .done) version := by
  obtain ⟨_, hnone⟩ := hinv.hearing hhearing.last
  have hmem : version ∈ w.snapshot.plot.versions := List.mem_of_getLast? hhearing.last
  rw [← hconcerns.iteration] at hnew hnone
  refine ⟨(hfair.voiced hmem hconcerns hnew hnone).congr rfl rfl, ?_⟩
  refine hhearing.update rfl rfl rfl ?_ ?_ ?_
  . intro other hother
    exact Function.update_of_ne hother _ _
  . intro other hother
    exact heard_other (.inr (Ne.symm hother))
  . refine ⟨opinion, ?_, Function.update_self _ _ _⟩
    rw [← hconcerns.iteration, heard_self, hnew, List.nil_append]

theorem fair_judged {version : PRDVersion} (hfair : Fair env log p)
    (hhearing : Hearing log p (fun _ => .done) version) {evaluation : EvaluationResult}
    (hjudged : p.JudgedBy evaluation) : Fair env log (p.judged evaluation) := by
  obtain ⟨earlier, hversions⟩ := List.getLast?_eq_some_iff.mp hhearing.last
  apply hfair.judged_of hversions
  intro role
  obtain ⟨opinion, hheard, hreview⟩ := hhearing.hears role
  refine ⟨opinion, hheard, ?_⟩
  have hsame : p.reviews role = some (evaluation.review role) := by
    cases role with
    | tech => exact hjudged.1
    | ux => exact hjudged.2.1
    | biz => exact hjudged.2.2
  rw [hreview] at hsame
  exact Option.some.inj hsame

theorem Move.fair {pc' : Pc} (hmove : Move env F w.snapshot.plot pc label pc' p')
    (hinv : Inv { world := w, pc }) (hfair : Fair env log w.snapshot.plot)
    (hattends : Attends log w.snapshot.plot pc) :
    Fair env (log ++ Workflow.voiced env pc label pc') p'
      ∧ Attends (log ++ Workflow.voiced env pc label pc') p' pc' := by
  cases hmove with
  | requested hlabel =>
    rw [voiced_of_request hlabel, List.append_nil]
    exact ⟨hfair, hattends⟩
  | written hvalid hiteration hcomposed =>
    simp only [Workflow.voiced, List.append_nil]
    refine ⟨hfair.written hcomposed.evaluation, _, List.getLast?_concat, rfl, ?_⟩
    intro role
    apply hfair.heard_eq_nil role
    rw [hiteration]
    exact hinv.ahead
  | called hready hstate _ =>
    rw [voiced_going rfl .enter, List.append_nil]
    obtain ⟨version, hhearing⟩ := hattends
    refine ⟨hfair, version, ?_⟩
    exact hhearing.update rfl rfl rfl (fun _ _ => rfl) (fun _ _ => rfl)
      (attends_called hinv hhearing hready hstate)
  | @calledAgain role _ _ _ _ _ hsuspended _ =>
    rw [voiced_going rfl .wake, List.append_nil]
    obtain ⟨version, hhearing⟩ := hattends
    have hhears := hhearing.hears role
    rw [hsuspended] at hhears
    refine ⟨hfair, version, ?_⟩
    exact hhearing.update rfl rfl rfl (fun _ _ => rfl) (fun _ _ => rfl) hhears
  | @reviewed role _ frame structured _ review hsuspended hanswers hrole =>
    obtain ⟨result, rfl, hmodel⟩ := hanswers
    obtain ⟨version, hhearing⟩ := hattends
    have hhears := hhearing.hears role
    rw [hsuspended] at hhears
    obtain ⟨hnew, hiteration, hcall⟩ := hhears
    have hconcerns : Opinion.Concerns env w.snapshot.plot.outputLanguage version
        ⟨role, frame.state.currentIteration, reviewCall frame.state role, structured.unread,
          result.value, review⟩ :=
      ⟨hiteration, hcall, hmodel, hrole⟩
    obtain ⟨hfair', hhearing'⟩ := fair_reviewed hinv hfair hhearing hconcerns hnew
    simp only [Workflow.voiced, hsuspended, Function.update_self, hmodel]
    exact ⟨hfair', version, hhearing'⟩
  | reviewerRaised hlabel _ =>
    rw [voiced_going rfl hlabel, List.append_nil]
    obtain ⟨version, hhearing⟩ := hattends
    refine ⟨hfair, version, ?_⟩
    exact hhearing.update rfl rfl rfl (fun _ _ => rfl) (fun _ _ => rfl) trivial
  | @joined reviewers hdone =>
    simp only [Workflow.voiced, List.append_nil]
    obtain ⟨version, hhearing⟩ := hattends
    refine ⟨hfair, version, hhearing.last, hhearing.document, ?_⟩
    intro role
    have hhears := hhearing.hears role
    have hrole := hdone role
    unfold ReviewerPc.isDone at hrole
    split at hrole
    . next heq =>
      rw [heq] at hhears
      exact hhears
    . contradiction
  | judged hjudged hpc hplot =>
    simp only [Workflow.voiced, List.append_nil]
    obtain ⟨version, hhearing⟩ := hattends
    have hfair' := fair_judged hfair hhearing hjudged
    refine ⟨?_, ?_⟩
    . rcases hplot with rfl | rfl
      . exact hfair'
      . exact hfair'.congr rfl rfl
    . rcases hpc with rfl | rfl <;> trivial
  | raised _ _ hplot =>
    rw [voiced_finished, List.append_nil]
    refine ⟨?_, trivial⟩
    rcases hplot with rfl | rfl
    . exact hfair
    . exact hfair.congr rfl rfl
  | parked henters =>
    cases henters <;>
    . simp only [Workflow.voiced, List.append_nil]
      exact ⟨hfair, trivial⟩
  | planning henters _ _ =>
    cases henters <;>
    . simp only [Workflow.voiced, List.append_nil]
      exact ⟨hfair, trivial⟩
  | planned _ =>
    simp only [Workflow.voiced, List.append_nil]
    exact ⟨hfair.congr rfl rfl, trivial⟩
  | _ =>
    simp only [Workflow.voiced, List.append_nil]
    exact ⟨hfair, trivial⟩

-- A call is only answered after it has been made.
theorem Await.waiting_of_returned {α : Type} {await : Await} {value : α} {w : World}
    (h : await.accepts w (.returned value) = true) : await = .waiting := by
  cases await with
  | waiting => rfl
  | settling exn => contradiction

-- What a review answers has been asked.
theorem mem_voices {opinion : Opinion} (h : opinion ∈ voices env c label c')
    (hposing : Posing env c) (hstep : step env c label = some c') :
    opinion.call ∈ c.world.questions
      ∧ ∃ state, opinion.call = reviewCall state opinion.role
        ∧ ∀ value ∈ opinion.unread,
          env.roleReview value = none ∧ reviewRepair state opinion.role value ∈ c.world.questions := by
  obtain ⟨w, pc⟩ := c
  obtain ⟨w', pc'⟩ := c'
  unfold voices voiced at h
  dsimp only at h
  split at h
  . next reviewers role result reviewers' =>
    split at h
    . next frame structured review hsuspended _ _ =>
      rw [List.mem_singleton] at h
      subst h
      have htask : stepReviewer env w reviewers (.reviewerWake role (.returned result))
          = some ⟨w', .reviewing reviewers'⟩ := hstep
      simp only [stepReviewer, hsuspended] at htask
      split at htask
      . next haccepts =>
        have hposed := hposing reviewers rfl role
        rw [hsuspended] at hposed
        have hawait := Await.waiting_of_returned haccepts
        cases structured with
        | calling attempt await =>
          exact ⟨hposed hawait, frame.state, rfl, by simp [StructuredPc.unread]⟩
        | repairing first await =>
          obtain ⟨hcall, hunread, hrepair⟩ := hposed
          refine ⟨hcall, frame.state, rfl, ?_⟩
          rintro _ ⟨⟩
          exact ⟨hunread, hrepair hawait⟩
      . contradiction
    . contradiction
  . contradiction

theorem Opinion.AskedIn.mono {outputLanguage : String} {calls calls' : List ProviderCall}
    {opinion : Opinion} (h : opinion.AskedIn env outputLanguage calls) (hgrown : calls ⊆ calls') :
    opinion.AskedIn env outputLanguage calls' := by
  refine ⟨hgrown h.called, ?_⟩
  intro value hvalue
  obtain ⟨hunread, hrepair⟩ := h.repaired value hvalue
  exact ⟨hunread, hgrown hrepair⟩

-- The repair is asked for in the language of the question.
theorem Opinion.Concerns.askedIn {outputLanguage : String} {version : PRDVersion} {opinion : Opinion}
    (h : opinion.Concerns env outputLanguage version) (hposing : Posing env c)
    (hstep : step env c label = some c') (hvoiced : opinion ∈ voices env c label c') :
    opinion.AskedIn env outputLanguage c.world.questions := by
  obtain ⟨hcalled, state, hcall, hrepaired⟩ := mem_voices hvoiced hposing hstep
  have hlanguage : state.outputLanguage = outputLanguage := by
    have hsame := hcall.symm.trans h.call
    unfold reviewCall at hsame
    injection hsame
  refine ⟨hcalled, ?_⟩
  rw [← hlanguage]
  exact hrepaired

theorem Move.outputLanguage {pc' : Pc} (h : Move env F p pc label pc' p') :
    p'.outputLanguage = p.outputLanguage := by
  cases h with
  | judged _ _ hplot => rcases hplot with rfl | rfl <;> rfl
  | raised _ _ hplot => rcases hplot with rfl | rfl <;> rfl
  | _ => rfl

end Step

section Runs

variable {env : WorkflowEnv} {runId : RunId} {request : CreateRunRequest} {outputLanguage : String}
  {bufferSize : Nat} {log : List Opinion} {c c' : Config} {label : Label}

structure Heeds (env : WorkflowEnv) (outputLanguage : String) (log : List Opinion) (c : Config) :
    Prop where
  inv : Inv c
  ready : Ready (fun _ => True) c.world.snapshot.plot c.pc
  language : c.world.snapshot.outputLanguage = outputLanguage
  fair : Fair env log c.world.snapshot.plot
  attends : Attends log c.world.snapshot.plot c.pc
  posing : Posing env c
  asked : ∀ opinion ∈ log, opinion.AskedIn env outputLanguage c.world.questions

theorem Heeds.init :
    Heeds env outputLanguage [] (init env.toEnv runId request outputLanguage bufferSize) :=
  {
    inv := Inv.init
    ready := trivial
    language := rfl
    fair := ⟨by simp, by simp [heard], by simp [RunSnapshot.plot, Workflow.init, create, createSnapshot]⟩
    attends := trivial
    posing := by
      intro _ hpc
      contradiction
    asked := by simp
  }

theorem Heeds.step (h : Heeds env outputLanguage log c) (hstep : step env c label = some c') :
    Heeds env outputLanguage (log ++ voices env c label c') c' := by
  have hpermits : Permits fun _ => True := ⟨trivial, trivial, fun _ _ => trivial⟩
  have hmove := (step_obeys h.inv hpermits h.ready (fun _ _ => trivial) hstep).move
  have hlanguage : c'.world.snapshot.outputLanguage = outputLanguage :=
    hmove.outputLanguage.trans h.language
  obtain ⟨hfair, hattends⟩ := hmove.fair h.inv h.fair h.attends
  obtain ⟨hgrown, hposing⟩ := step_poses h.posing hmove hstep
  exact {
    inv := (Keeps.step h.inv hstep).inv
    ready := hmove.ready h.ready
    language := hlanguage
    fair := hfair
    attends := hattends
    posing := hposing
    asked := by
      intro opinion hopinion
      obtain ⟨version, _, hconcerns⟩ := hfair.asked opinion hopinion
      have hlanguage' : c'.world.snapshot.plot.outputLanguage = outputLanguage := hlanguage
      rw [hlanguage'] at hconcerns
      rw [List.mem_append] at hopinion
      cases hopinion with
      | inl hold => exact (h.asked opinion hold).mono hgrown
      | inr hvoiced => exact (hconcerns.askedIn h.posing hstep hvoiced).mono hgrown
  }

structure JudgedFairly (env : WorkflowEnv) (outputLanguage : String) (log : List Opinion)
    (w : World) : Prop where
  asked :
    ∀ opinion ∈ log,
      opinion.AskedIn env outputLanguage w.calls
        ∧ ∃ version ∈ w.snapshot.versions, opinion.Concerns env outputLanguage version
  once : ∀ iteration role, (heard log iteration role).length ≤ 1
  judged :
    ∀ version ∈ w.snapshot.versions, ∀ evaluation ∈ version.evaluation, ∀ role,
      ∃ opinion, heard log version.version role = [opinion]
        ∧ opinion.Concerns env outputLanguage version
        ∧ opinion.review = evaluation.review role

theorem judged_fairly (hrun : Traced (step env) always (voices env)
    (init env.toEnv runId request outputLanguage bufferSize) log c) :
    JudgedFairly env outputLanguage log c.world := by
  have h : Heeds env outputLanguage log c := by
    apply hrun.invariant Heeds.init
    intro log c label c' h _ hstep
    exact h.step hstep
  have hasked : ∀ opinion ∈ log, ∃ version ∈ c.world.snapshot.versions,
      opinion.Concerns env outputLanguage version := by
    rw [← h.language]
    exact h.fair.asked
  have hcalls : c.world.questions ⊆ c.world.calls := List.filter_subset_self _
  refine ⟨?_, h.fair.once, ?_⟩
  . intro opinion hopinion
    exact ⟨(h.asked opinion hopinion).mono hcalls, hasked opinion hopinion⟩
  . intro version hmem evaluation hevaluation role
    obtain ⟨opinion, hheard, hreview⟩ := h.fair.judged version hmem evaluation hevaluation role
    have hopinion : opinion ∈ heard log version.version role := by
      rw [hheard]
      exact List.mem_cons_self
    obtain ⟨hlog, hiteration, _⟩ := mem_heard.mp hopinion
    obtain ⟨version', hmem', hconcerns⟩ := hasked opinion hlog
    obtain ⟨_, hat⟩ := h.inv.pc.stage
    rw [hconcerns.iteration] at hiteration
    rw [hat.shape.version_inj hmem' hmem hiteration] at hconcerns
    exact ⟨opinion, hheard, hconcerns, hreview⟩

-- A version with its three reviews and their evaluation. The first answer of the tech reviewer has to
-- be repaired.
def judgedRound : List Label :=
  [.begin] ++ answeredVersion.take 6 ++ [.reviewerWake .tech (answered .null)]
    ++ answeredVersion.drop 6 ++ [.enterAggregator]

theorem judged_fairly_round :
    ∃ log c,
      trace (step answeringWorkflow) (voices answeringWorkflow) [] answeringInit judgedRound = some (log, c)
        ∧ log.map (fun opinion => (opinion.iteration, opinion.role, opinion.unread.isSome))
          = [(1, .tech, true), (1, .ux, false), (1, .biz, false)]
        ∧ c.world.snapshot.versions.map (fun version => version.evaluation.isSome) = [true]
        ∧ JudgedFairly answeringWorkflow "English" log c.world := by
  have hshown :
      (trace (step answeringWorkflow) (voices answeringWorkflow) [] answeringInit judgedRound).map
          (fun shown =>
            (shown.1.map fun opinion => (opinion.iteration, opinion.role, opinion.unread.isSome),
              shown.2.world.snapshot.versions.map fun version => version.evaluation.isSome))
        = some ([(1, .tech, true), (1, .ux, false), (1, .biz, false)], [true]) := by
    decide +kernel
  obtain ⟨⟨log, c⟩, htrace, hall⟩ := Option.map_eq_some_iff.mp hshown
  rw [Prod.mk.injEq] at hall
  obtain ⟨hlog, hversions⟩ := hall
  exact ⟨log, c, htrace, hlog, hversions,
    judged_fairly (Traced.of_trace .refl (allowed_always _) htrace)⟩

end Runs

end Workflow

end AgenticPrd
