import AgenticPrd.Backend.Workflow.Course
import AgenticPrd.Backend.Workflow.Turns

/-!
The questions that the reviewers put to the provider: a reviewer that waits for an answer has made the
call for it, and no other task makes one of these calls.
-/

namespace AgenticPrd

def ProviderCall.isReview : ProviderCall → Bool
  | generateReview _ _ _ _ => true
  | repairStructured _ _ (some _) _ => true
  | _ => false

-- The calls that the reviewers have made.
def World.questions (w : World) : List ProviderCall :=
  w.calls.filter ProviderCall.isReview

namespace Workflow

open RunManager Prog

variable {env : Env} {wenv : WorkflowEnv} {w w' : World}

section Views

theorem keeping_commit_questions {mutation : Prog RunSnapshot Exn Unit} {event : Option RunEventType}
    {payload : RunSnapshot → Payload} :
    Keeping World.questions (commit env .none mutation event payload) :=
  keeping_commit_calls (List.filter ProviderCall.isReview)

instance : Unbilled World.questions :=
  unbilled_calls (List.filter ProviderCall.isReview)

instance : Unstreamed World.questions :=
  unstreamed_calls (List.filter ProviderCall.isReview)

theorem overlooks_questions {call : ProviderCall} (hcall : call.isReview = false) :
    Overlooks World.questions call := by
  intro w
  unfold World.questions World.called
  simp [hcall]

theorem questions_called {call : ProviderCall} (hcall : call.isReview = true) :
    (w.called call).questions = w.questions ++ [call] := by
  unfold World.questions World.called
  simp [hcall]

theorem subset_of_questions (h : w'.questions = w.questions) : w.questions ⊆ w'.questions := by
  rw [h]
  exact List.Subset.refl _

end Views

section Structured

variable {T : Type} {model : Json → Option T} {call : ProviderCall} {repair : Json → ProviderCall}
  {answer : Answer ProviderStructuredResult} {structured : StructuredPc}

-- Where a structured call waits for an answer, it has asked for it, and what it has repaired is not
-- of the model.
def Posed (model : Json → Option T) (call : ProviderCall) (repair : Json → ProviderCall) (w : World) :
    StructuredPc → Prop
  | .calling _ await => await = .waiting → call ∈ w.questions
  | .repairing first await =>
    call ∈ w.questions
      ∧ model first.value = none
      ∧ (await = .waiting → repair first.value ∈ w.questions)

theorem Posed.mono (h : Posed model call repair w structured) (hgrown : w.questions ⊆ w'.questions) :
    Posed model call repair w' structured := by
  cases structured with
  | calling attempt await =>
    intro hawait
    exact hgrown (h hawait)
  | repairing first await =>
    obtain ⟨hcall, hunread, hrepair⟩ := h
    exact ⟨hgrown hcall, hunread, fun hawait => hgrown (hrepair hawait)⟩

theorem wp_beginAwait_poses (hcall : call.isReview = true) :
    wp (beginAwait env (some call)) w
      (fun await w' => w.questions ⊆ w'.questions ∧ (await = .waiting → call ∈ w'.questions))
      fun _ _ => False := by
  have hsettled : ∀ (exn : Exn) (w' : World), w'.questions = w.questions →
      w.questions ⊆ w'.questions ∧ (Await.settling exn = .waiting → call ∈ w'.questions) :=
    fun _ _ h => ⟨subset_of_questions h, by simp⟩
  unfold beginAwait
  rw [wp_tryCatch]
  apply wp_bind_keeping (keeping_checkCancel : Keeping World.questions _)
  . intro _ w1 h1
    apply wp_bind_keeping (keeping_remainingRunSeconds : Keeping World.questions _)
    . intro _ w2 h2
      dsimp only
      rw [wp_bind, wp_modify, wp_pure, questions_called hcall, h2, h1]
      exact ⟨List.subset_append_left _ _, fun _ => List.mem_append_right _ List.mem_cons_self⟩
    . intro exn w2 h2
      exact hsettled exn w2 (h2.trans h1)
  . exact hsettled

theorem wp_structuredCall_poses {attempt : Nat} (hcall : call.isReview = true) :
    wp (structuredCall env attempt call) w
      (fun structured w' => w.questions ⊆ w'.questions ∧ Posed model call repair w' structured)
      fun _ _ => False := by
  unfold structuredCall
  rw [wp_bind]
  apply wp_mono (wp_beginAwait_poses hcall)
  . intro await w1 h1
    exact h1
  . intro _ _ h1
    exact h1

theorem wp_structuredWake_poses (h : Posed model call repair w structured)
    (hcall : call.isReview = true) (hrepair : ∀ value, (repair value).isReview = true) :
    wp (structuredWake env model call repair answer structured) w
      (fun outcome w' =>
        w.questions ⊆ w'.questions
          ∧ ∀ next, outcome = .inl next → Posed model call repair w' next)
      fun _ w' => w'.questions = w.questions := by
  cases structured with
  | calling attempt await =>
    unfold structuredWake
    rw [wp_bind, wp_tryCatch, wp_bind]
    apply wp_mono wp_awaitResult_returned
    . rintro result w1 ⟨rfl, hawait, _⟩
      rw [wp_pure]
      dsimp only
      cases hread : model result.value with
      | some parsed => exact ⟨List.Subset.refl _, by simp⟩
      | none =>
        dsimp only
        rw [wp_bind]
        apply wp_mono (wp_beginAwait_poses (hrepair _))
        . rintro await' w2 ⟨hgrown, hposed⟩
          refine ⟨hgrown, ?_⟩
          rintro _ ⟨⟩
          exact ⟨hgrown (h hawait), hread, hposed⟩
        . intro _ _ h2
          contradiction
    . rintro exn w1 rfl
      split
      . rw [wp_pure]
        dsimp only
        rw [wp_bind]
        apply wp_mono (wp_structuredCall_poses hcall)
        . rintro structured w2 ⟨hgrown, hposed⟩
          refine ⟨hgrown, ?_⟩
          rintro _ ⟨⟩
          exact hposed
        . intro _ _ h2
          contradiction
      . exact rfl
  | repairing first await =>
    unfold structuredWake
    rw [wp_bind]
    apply wp_mono wp_awaitResult_returned
    . rintro repaired w1 ⟨rfl, _⟩
      cases model repaired.value with
      | some parsed => exact ⟨List.Subset.refl _, by simp⟩
      | none => exact rfl
    . rintro exn w1 rfl
      exact rfl

end Structured

section Reviewer

variable {role : ReviewRole} {reviewers : ReviewRole → ReviewerPc}

-- What the reviewer waits for it has asked for.
def PosedBy (env : WorkflowEnv) (role : ReviewRole) (w : World) : ReviewerPc → Prop
  | .suspended frame structured =>
    Posed env.roleReview (reviewCall frame.state role) (reviewRepair frame.state role) w structured
  | _ => True

theorem PosedBy.mono {pc : ReviewerPc} (h : PosedBy wenv role w pc)
    (hgrown : w.questions ⊆ w'.questions) : PosedBy wenv role w' pc := by
  cases pc with
  | suspended frame structured => exact Posed.mono h hgrown
  | _ => trivial

def Posing (env : WorkflowEnv) (c : Config) : Prop :=
  ∀ reviewers, c.pc = .reviewing reviewers → ∀ role, PosedBy env role c.world (reviewers role)

theorem wp_reviewerNode_poses :
    wp (reviewerNode wenv.toEnv role) w
      (fun pc w' => w.questions ⊆ w'.questions ∧ PosedBy wenv role w' pc)
      fun _ w' => w.questions ⊆ w'.questions := by
  unfold reviewerNode
  apply wp_bind_keeping (keeping_checkCancel : Keeping World.questions _)
  . intro _ w1 h1
    apply wp_bind_keeping (keeping_monotonic : Keeping World.questions _)
    . intro started w2 h2
      apply wp_bind_keeping (keeping_markNode : Keeping World.questions _)
      . intro _ w3 h3
        rw [wp_bind, wp_get, wp_bind, ← h1, ← h2, ← h3]
        apply wp_mono (wp_structuredCall_poses rfl)
        . intro structured w4 h4
          exact h4
        . intro _ _ h4
          contradiction
      . intro exn w3 h3
        exact subset_of_questions (h3.trans (h2.trans h1))
    . intro exn w2 h2
      exact subset_of_questions (h2.trans h1)
  . intro exn w1 h1
    exact subset_of_questions h1

theorem wp_reviewerWake_poses {frame : NodeFrame} {structured : StructuredPc}
    {answer : Answer ProviderStructuredResult} (h : PosedBy wenv role w (.suspended frame structured)) :
    wp (reviewerWake wenv role frame structured answer) w
      (fun pc w' => w.questions ⊆ w'.questions ∧ PosedBy wenv role w' pc)
      fun _ w' => w.questions ⊆ w'.questions := by
  unfold reviewerWake
  rw [wp_bind]
  apply wp_mono (wp_structuredWake_poses h rfl fun _ => rfl)
  . rintro outcome w1 ⟨hgrown, hposed⟩
    cases outcome with
    | inl next => exact ⟨hgrown, hposed next rfl⟩
    | inr pair =>
      obtain ⟨result, review⟩ := pair
      have hkeeping : Keeping World.questions (commitReview wenv.toEnv role frame result review) :=
        keeping_commitReview
      apply wp_keeping hkeeping (returns_commitReview w1)
      . rintro _ w2 rfl h2
        rw [h2]
        exact ⟨hgrown, trivial⟩
      . intro _ w2 _ h2
        rw [h2]
        exact hgrown
  . intro _ w1 h1
    exact subset_of_questions h1

-- A step keeps the questions, and a reviewer that it leaves waiting has asked.
structure Poses (env : WorkflowEnv) (w : World) (c : Config) : Prop where
  grown : w.questions ⊆ c.world.questions
  posing : Posing env c

theorem runReviewer_poses {program : Prog World Exn ReviewerPc}
    (hothers : ∀ other, PosedBy wenv other w (reviewers other))
    (hprogram : wp program w (fun pc w' => w.questions ⊆ w'.questions ∧ PosedBy wenv role w' pc)
      fun _ w' => w.questions ⊆ w'.questions) :
    Poses wenv w (runReviewer role reviewers program w) := by
  have hposes : ∀ pc w', w.questions ⊆ w'.questions → PosedBy wenv role w' pc →
      Poses wenv w { world := w', pc := .reviewing (Function.update reviewers role pc) } := by
    intro pc w' hgrown hrole
    refine ⟨hgrown, ?_⟩
    rintro _ ⟨⟩ other
    by_cases heq : other = role
    . rw [heq, Function.update_self]
      exact hrole
    . rw [Function.update_of_ne heq]
      exact (hothers other).mono hgrown
  unfold wp at hprogram
  unfold runReviewer
  split
  . next heq =>
    rw [heq] at hprogram
    exact hposes _ _ hprogram.1 hprogram.2
  . next heq =>
    rw [heq] at hprogram
    exact hposes _ _ hprogram trivial

end Reviewer

section Step

variable {F : Exn → Prop} {p p' : Plot} {c c' : Config} {pc : Pc} {label : Label}

theorem stepReviewer_poses {role : ReviewRole} {reviewers : ReviewRole → ReviewerPc}
    (h : ∀ other, PosedBy wenv other w (reviewers other)) (hlabel : StepsReviewer role label)
    (hstep : stepReviewer wenv w reviewers label = some c) : Poses wenv w c := by
  cases hlabel with
  | enter =>
    dsimp only [stepReviewer] at hstep
    split at hstep
    . cases hstep
      exact runReviewer_poses h wp_reviewerNode_poses
    . contradiction
  | wake =>
    dsimp only [stepReviewer] at hstep
    split at hstep
    . next hsuspended =>
      split at hstep
      . cases hstep
        apply runReviewer_poses h
        apply wp_reviewerWake_poses
        rw [← hsuspended]
        exact h role
      . contradiction
    . contradiction

-- The other steps of the task ask the reviewers' provider for nothing.
theorem stepTask_questions (hlabel : ∀ role, ¬StepsReviewer role label)
    (hstep : stepTask wenv w pc label = some c') : c'.world.questions = w.questions := by
  have hcall : ∀ {call : ProviderCall}, call.isReview = false → Overlooks World.questions call :=
    overlooks_questions
  unfold stepTask at hstep
  split at hstep
  . cases hstep
    exact runTask_keeps keeping_begin
  . cases hstep
    exact runTask_keeps
      (keeping_generatorNode (fun _ _ => hcall rfl) fun _ _ _ _ _ => keeping_commit_questions)
  . split at hstep
    . cases hstep
      exact runTask_keeps
        (keeping_generatorWake (fun _ _ => hcall rfl) fun _ _ _ _ _ => keeping_commit_questions)
    . contradiction
  . cases label with
    | reviewerEnter role => exact absurd .enter (hlabel role)
    | reviewerWake role answer => exact absurd .wake (hlabel role)
    | reviewersJoin =>
      dsimp only [stepReviewer] at hstep
      split at hstep
      . cases hstep
        rfl
      . contradiction
    | reviewersFail role =>
      dsimp only [stepReviewer] at hstep
      split at hstep
      . cases hstep
        exact runTask_keeps (.throw _)
      . contradiction
    | _ => contradiction
  . cases hstep
    exact runTask_keeps (keeping_aggregatorNode fun _ _ _ _ => keeping_commit_questions)
  . split at hstep
    . cases hstep
      exact runTask_keeps keeping_aggregatorWake
    . contradiction
  . cases hstep
    exact runTask_keeps keeping_routeAfterAggregate
  . cases hstep
    exact runTask_keeps (keeping_optimizerNode fun _ _ => hcall rfl)
  . split at hstep
    . cases hstep
      exact runTask_keeps (keeping_optimizerUnpark fun _ _ => hcall rfl)
    . contradiction
  . split at hstep
    . cases hstep
      exact runTask_keeps (keeping_optimizerWake (fun _ _ => hcall rfl) (fun _ _ => hcall rfl)
        fun _ _ _ => keeping_commit_questions)
    . contradiction
  . contradiction

-- The reviewers have just been let go, or one of them has gone on.
theorem Move.reviewing {reviewers : ReviewRole → ReviewerPc}
    (h : Move wenv F p pc label (.reviewing reviewers) p') (hlabel : label.isRequest = false) :
    (reviewers = fun _ => .ready) ∨ ∃ role, StepsReviewer role label := by
  cases h with
  | requested hrequest =>
    rw [hlabel] at hrequest
    contradiction
  | written => exact .inl rfl
  | called => exact .inr ⟨_, .enter⟩
  | calledAgain => exact .inr ⟨_, .wake⟩
  | reviewed => exact .inr ⟨_, .wake⟩
  | reviewerRaised hsteps => exact .inr ⟨_, hsteps⟩
  | judged _ hpc => simp at hpc

theorem step_poses (h : Posing wenv c)
    (hmove : Move wenv F c.world.snapshot.plot c.pc label c'.pc c'.world.snapshot.plot)
    (hstep : step wenv c label = some c') : Poses wenv c.world c' := by
  cases hrequest : label.isRequest with
  | true =>
    have hquestions : c'.world.questions = c.world.questions :=
      step_request_keeps hrequest (fun _ _ => keeping_commit_questions) hstep
    refine ⟨subset_of_questions hquestions, ?_⟩
    intro reviewers hpc role
    rw [step_request hrequest hstep] at hpc
    exact (h reviewers hpc role).mono (subset_of_questions hquestions)
  | false =>
    have htask := step_stepTask hrequest hstep
    by_cases hlabel : ∃ role, StepsReviewer role label
    . obtain ⟨role, hsteps⟩ := hlabel
      cases hpc : c.pc with
      | reviewing reviewers =>
        rw [hpc] at htask
        exact stepReviewer_poses (h reviewers hpc) hsteps htask
      | _ =>
        rw [hpc] at htask
        cases hsteps <;> contradiction
    . have hquestions := stepTask_questions (fun role hsteps => hlabel ⟨role, hsteps⟩) htask
      refine ⟨subset_of_questions hquestions, ?_⟩
      intro reviewers hpc role
      rw [hpc] at hmove
      rcases hmove.reviewing hrequest with rfl | hsteps
      . trivial
      . exact absurd hsteps hlabel

end Step

end Workflow

end AgenticPrd
