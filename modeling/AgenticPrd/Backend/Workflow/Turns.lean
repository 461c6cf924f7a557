import AgenticPrd.Backend.Workflow.Attempt
import AgenticPrd.Backend.Workflow.Rounds

/-!
What a turn of the workflow task comes to: it goes on along the loop, and every call that it makes is
one of the few that the place where it stands still has for the purpose.
-/

namespace AgenticPrd

-- What a provider is called for. A repair belongs to the call whose answer it repairs.
inductive Purpose where
  | generation
  | review (role : ReviewRole)
  | plan
  deriving DecidableEq

def ProviderCall.purpose : ProviderCall → Purpose
  | streamPrd _ _ _ _ _ _ _ => .generation
  | generateReview role _ _ _ => .review role
  | generateRevisionPlan _ _ _ _ => .plan
  | repairStructured _ _ (some role) _ => .review role
  | repairStructured _ _ none _ => .plan

def World.made (w : World) (purpose : Purpose) : Nat :=
  w.calls.countP fun call => call.purpose = purpose

-- The calls that a structured call may have made.
def StructuredPc.used : StructuredPc → Nat
  | .calling attempt _ => attempt + 1
  | .repairing _ _ => 3

-- The loop over the attempts has two passes.
def StructuredPc.Tried : StructuredPc → Prop
  | .calling attempt _ => attempt ≤ 1
  | .repairing _ _ => True

theorem StructuredPc.Tried.used_le {structured : StructuredPc} (h : structured.Tried) :
    structured.used ≤ 3 := by
  cases structured with
  | calling attempt await =>
    replace h : attempt ≤ 1 := h
    change attempt + 1 ≤ 3
    omega
  | repairing => exact Nat.le_refl 3

namespace ReviewerPc

def used : ReviewerPc → Nat
  | ready => 0
  | suspended _ structured => structured.used
  | done => 3
  | raised _ => 3

def Tried : ReviewerPc → Prop
  | suspended _ structured => structured.Tried
  | _ => True

-- The steps that the reviewer may still take.
def moves : ReviewerPc → Nat
  | ready => 4
  | suspended _ structured => 4 - structured.used
  | done => 0
  | raised _ => 0

theorem eq_done {pc : ReviewerPc} (h : pc.isDone = true) : pc = .done := by
  cases pc with
  | done => rfl
  | _ => contradiction

end ReviewerPc

namespace Pc

-- The calls for the purpose that the current iteration may have made where the task stands.
def used : Purpose → Pc → Nat
  | .generation, created => 0
  | .generation, toGenerator => 0
  | .generation, generating frame => frame.attempt
  | .generation, _ => 2
  | .review _, created => 0
  | .review _, toGenerator => 0
  | .review _, generating _ => 0
  | .review role, reviewing reviewers => (reviewers role).used
  | .review _, _ => 3
  | .plan, optimizing _ structured => structured.used
  | .plan, _ => 0

-- What they may come to where the run ends here.
def most : Purpose → Pc → Nat
  | .generation, _ => 2
  | purpose, pc => used purpose pc

def Tried : Pc → Prop
  | reviewing reviewers => ∀ role, (reviewers role).Tried
  | optimizing _ structured => structured.Tried
  | _ => True

-- The steps that the task may still take in the current iteration, but for the events of a stream.
def moves : Pc → Nat
  | created => 26
  | toGenerator => 25
  | generating frame => 25 - frame.attempt
  | reviewing reviewers =>
    10 + (reviewers .tech).moves + (reviewers .ux).moves + (reviewers .biz).moves
  | toAggregator => 9
  | aggregatorParked => 8
  | routing => 7
  | toOptimizer => 6
  | optimizerParked false => 5
  | optimizerParked true => 4
  | optimizing _ structured => 4 - structured.used
  | finished _ => 0

end Pc

namespace Workflow

open RunManager Prog

variable {env : Env} {w w1 w' : World}

section Calls

theorem keeping_commit_made {faults : Faults} {mutation : Prog RunSnapshot Exn Unit}
    {event : Option RunEventType} {payload : RunSnapshot → Payload} :
    Keeping World.made (commit env faults mutation event payload) :=
  keeping_commit_calls fun calls purpose => calls.countP fun call => call.purpose = purpose

instance : Unbilled World.made :=
  unbilled_calls fun calls purpose => calls.countP fun call => call.purpose = purpose

instance : Unstreamed World.made :=
  unstreamed_calls fun calls purpose => calls.countP fun call => call.purpose = purpose

-- At most one more call, for the purpose.
def Once (purpose : Purpose) (w w' : World) : Prop :=
  ∀ p, w'.made p ≤ w.made p + if p = purpose then 1 else 0

theorem Once.of_made {purpose : Purpose} (h : w'.made = w.made) : Once purpose w w' := by
  intro p
  rw [h]
  exact Nat.le_add_right _ _

theorem Once.trans_made {purpose : Purpose} (h : w1.made = w.made) (h' : Once purpose w1 w') :
    Once purpose w w' := by
  intro p
  rw [← h]
  exact h' p

theorem Once.keep {purpose : Purpose} (h : Once purpose w w1) (h' : w'.made = w1.made) :
    Once purpose w w' := by
  intro p
  rw [h']
  exact h p

theorem once_called (call : ProviderCall) : Once call.purpose w (w.called call) := by
  intro p
  unfold World.made World.called
  rw [List.countP_append, List.countP_singleton]
  by_cases heq : call.purpose = p
  . simp [heq]
  . simp [heq, Ne.symm heq]

theorem wp_beginAwait_once {call : ProviderCall} :
    wp (beginAwait env (some call)) w (fun _ w' => Once call.purpose w w') fun _ _ => False := by
  unfold beginAwait
  rw [wp_tryCatch, wp_bind]
  apply wp_mono ((keeping_checkCancel : Keeping World.made _) w)
  . intro _ w1 h1
    rw [wp_bind]
    apply wp_mono ((keeping_remainingRunSeconds : Keeping World.made _) w1)
    . intro _ w2 h2
      dsimp only
      rw [wp_bind, wp_modify, wp_pure]
      exact .trans_made (h2.trans h1) (once_called call)
    . intro _ w2 h2
      exact .of_made (h2.trans h1)
  . intro _ w1 h1
    exact .of_made h1

theorem wp_structuredCall_once {attempt : Nat} {call : ProviderCall} :
    wp (structuredCall env attempt call) w
      (fun structured w' => (∃ await, structured = .calling attempt await) ∧ Once call.purpose w w')
      fun _ _ => False := by
  unfold structuredCall
  rw [wp_bind]
  apply wp_mono wp_beginAwait_once
  . intro await w1 h1
    exact ⟨⟨await, rfl⟩, h1⟩
  . intro _ _ h1
    exact h1

end Calls

section Structured

variable {T : Type} {model : Json → Option T} {call : ProviderCall} {repair : Json → ProviderCall}
  {answer : Answer ProviderStructuredResult} {structured : StructuredPc}

-- A structured call goes on with one more call at most, or it is over.
def Retries {β : Type} (purpose : Purpose) (structured : StructuredPc) (w : World) :
    StructuredPc ⊕ β → World → Prop
  | .inl next, w' => next.Tried ∧ structured.used < next.used ∧ Once purpose w w'
  | .inr _, w' => w'.made = w.made

theorem wp_structuredWake_retries (htried : structured.Tried)
    (hrepair : ∀ value, (repair value).purpose = call.purpose) :
    wp (structuredWake env model call repair answer structured) w
      (Retries call.purpose structured w) fun _ w' => w'.made = w.made := by
  cases structured with
  | calling attempt await =>
    replace htried : attempt ≤ 1 := htried
    unfold structuredWake
    rw [wp_bind, wp_tryCatch, wp_bind]
    apply wp_mono wp_awaitResult_returned
    . rintro result w1 ⟨rfl, _⟩
      rw [wp_pure]
      dsimp only
      cases model result.value with
      | some parsed => exact rfl
      | none =>
        dsimp only
        rw [wp_bind]
        apply wp_mono wp_beginAwait_once
        . intro await' w2 h2
          rw [hrepair] at h2
          refine ⟨trivial, ?_, h2⟩
          change attempt + 1 < 3
          omega
        . intro _ _ h2
          contradiction
    . rintro exn w1 rfl
      split
      . next hagain =>
        rw [wp_pure]
        dsimp only
        rw [wp_bind]
        apply wp_mono wp_structuredCall_once
        . rintro _ w2 ⟨⟨await', rfl⟩, h2⟩
          have hfirst := hagain.2
          refine ⟨?_, Nat.lt_succ_self _, h2⟩
          change attempt + 1 ≤ 1
          omega
        . intro _ _ h2
          contradiction
      . exact rfl
  | repairing result await =>
    unfold structuredWake
    rw [wp_bind]
    apply wp_mono wp_awaitResult_returned
    . rintro repaired w1 ⟨rfl, _⟩
      cases model repaired.value with
      | some parsed => exact rfl
      | none => exact rfl
    . rintro exn w1 rfl
      exact rfl

end Structured

/--
The task goes on from `pc` in `w`: it comes closer to the end of the iteration, and all the calls
that it has made are accounted for by the place that it comes to.
-/
structure Turns (pc : Pc) (w : World) (pc' : Pc) (w' : World) : Prop where
  moves : pc'.moves < pc.moves
  tried : pc'.Tried
  made : ∀ purpose, w'.made purpose + pc.used purpose ≤ w.made purpose + pc'.used purpose

-- The run ends on the way.
def Halts (pc : Pc) (w w' : World) : Prop :=
  ∀ purpose, w'.made purpose + pc.used purpose ≤ w.made purpose + pc.most purpose

section Quiet

variable {pc : Pc} {program : Prog World Exn Pc}

theorem used_le_most (h : ∀ frame, pc = .generating frame → frame.attempt ≤ 2)
    (purpose : Purpose) : pc.used purpose ≤ pc.most purpose := by
  cases purpose with
  | generation =>
    cases pc with
    | generating frame => exact h frame rfl
    | created | toGenerator => exact Nat.zero_le 2
    | _ => exact Nat.le_refl 2
  | review | plan => exact Nat.le_refl _

theorem Halts.of_made (h : w'.made = w.made)
    (hframe : ∀ frame, pc = .generating frame → frame.attempt ≤ 2) : Halts pc w w' := by
  intro purpose
  rw [h]
  exact Nat.add_le_add_left (used_le_most hframe purpose) _

-- A program that makes no call leads on.
theorem wp_turns_keeping (hkeeping : Keeping World.made program)
    (hreturns : Returns
      (fun pc' => pc'.moves < pc.moves ∧ pc'.Tried ∧ ∀ purpose, pc.used purpose ≤ pc'.used purpose)
      program)
    (hframe : ∀ frame, pc = .generating frame → frame.attempt ≤ 2) :
    wp program w (Turns pc w) fun _ w' => Halts pc w w' := by
  apply wp_keeping hkeeping (hreturns w)
  . rintro pc' w' ⟨hmoves, htried, hused⟩ hmade
    refine ⟨hmoves, htried, ?_⟩
    intro purpose
    rw [hmade]
    exact Nat.add_le_add_left (hused purpose) _
  . intro _ w' _ hmade
    exact .of_made hmade hframe

end Quiet

section Optimizer

-- The optimizer has called for a plan.
def Entered (w : World) (pc : Pc) (w' : World) : Prop :=
  ∃ frame await, pc = .optimizing frame (.calling 0 await) ∧ Once .plan w w'

theorem Entered.turns {pc pc' : Pc} (h : Entered w pc' w')
    (hplace : place pc = .toOptimizer ∨ place pc = .optimizerParked) : Turns pc w pc' w' := by
  obtain ⟨frame, await, rfl, honce⟩ := h
  have hmade : ∀ purpose, w'.made purpose + pc.used purpose
      ≤ w.made purpose + (Pc.optimizing frame (.calling 0 await)).used purpose := by
    intro purpose
    have hpurpose := honce purpose
    cases pc with
    | toOptimizer | optimizerParked =>
      cases purpose with
      | plan => exact hpurpose
      | generation | review => exact Nat.add_le_add_right hpurpose _
    | _ => simp [place] at hplace
  have hmoves : (Pc.optimizing frame (.calling 0 await)).moves = 3 := rfl
  refine ⟨?_, Nat.zero_le 1, hmade⟩
  rw [hmoves]
  cases pc with
  | toOptimizer => decide
  | optimizerParked staged => cases staged <;> decide
  | _ => simp [place] at hplace

theorem wp_startOptimizer_entered (hmade : w1.made = w.made) :
    wp (startOptimizer env) w1 (Entered w) fun _ w' => w'.made = w.made := by
  unfold startOptimizer
  apply wp_bind_keeping (keeping_monotonic : Keeping World.made _)
  . intro started w2 h2
    apply wp_bind_keeping (keeping_markNode : Keeping World.made _)
    . intro _ w3 h3
      have h3 : w3.made = w.made := h3.trans (h2.trans hmade)
      rw [wp_bind, wp_get]
      split
      . exact h3
      . rw [wp_bind]
        apply wp_mono wp_structuredCall_once
        . rintro _ w4 ⟨⟨await, rfl⟩, h4⟩
          rw [wp_pure]
          exact ⟨_, await, rfl, .trans_made h3 h4⟩
        . intro _ _ h4
          contradiction
    . intro _ w3 h3
      exact h3.trans (h2.trans hmade)
  . intro _ w2 h2
    exact h2.trans hmade

-- It is parked behind its `set_stage`, or it has called.
theorem wp_stageOptimizer_entered (hmade : w1.made = w.made) :
    wp (stageOptimizer env) w1
      (fun pc w' => pc = .optimizerParked true ∧ w'.made = w.made ∨ Entered w pc w')
      fun _ w' => w'.made = w.made := by
  unfold stageOptimizer
  apply wp_bind_keeping (keeping_setStage : Keeping World.made _)
  . intro stage w2 h2
    split
    . apply wp_bind_keeping (keeping_enterPaused : Keeping World.made _)
      . intro _ w3 h3
        exact .inl ⟨rfl, h3.trans (h2.trans hmade)⟩
      . intro _ w3 h3
        exact h3.trans (h2.trans hmade)
    . apply wp_mono (wp_startOptimizer_entered (h2.trans hmade))
      . intro pc w3 h3
        exact .inr h3
      . intro _ w3 h3
        exact h3
  . intro _ w2 h2
    exact h2.trans hmade

-- Parking makes no call, and leads on from where the node has not been parked yet.
theorem turns_parked {pc : Pc} {staged : Bool} (h : w'.made = w.made)
    (hmoves : (Pc.optimizerParked staged).moves < pc.moves)
    (hplace : place pc = .toOptimizer ∨ place pc = .optimizerParked) :
    Turns pc w (.optimizerParked staged) w' := by
  refine ⟨hmoves, trivial, ?_⟩
  intro purpose
  rw [h]
  cases pc with
  | toOptimizer | optimizerParked => cases purpose <;> exact Nat.le_refl _
  | _ => simp [place] at hplace

theorem wp_optimizerNode_turns :
    wp (optimizerNode env) w (Turns .toOptimizer w) fun _ w' => Halts .toOptimizer w w' := by
  unfold optimizerNode
  apply wp_bind_keeping (keeping_checkCancel : Keeping World.made _)
  . intro _ w1 h1
    rw [wp_bind, wp_get]
    split
    . apply wp_bind_keeping (keeping_enterPaused : Keeping World.made _)
      . intro _ w2 h2
        exact turns_parked (h2.trans h1) (by decide) (.inl rfl)
      . intro _ w2 h2
        exact .of_made (h2.trans h1) (by simp)
    . apply wp_mono (wp_stageOptimizer_entered h1)
      . intro pc w2 h2
        cases h2 with
        | inl hparked =>
          rw [hparked.1]
          exact turns_parked hparked.2 (by decide) (.inl rfl)
        | inr hentered => exact hentered.turns (.inl rfl)
      . intro _ w2 h2
        exact .of_made h2 (by simp)
  . intro _ w1 h1
    exact .of_made h1 (by simp)

theorem wp_optimizerUnpark_turns {staged : Bool} :
    wp (optimizerUnpark env staged) w (Turns (.optimizerParked staged) w)
      fun _ w' => Halts (.optimizerParked staged) w w' := by
  unfold optimizerUnpark
  apply wp_bind_keeping (keeping_checkCancel : Keeping World.made _)
  . intro _ w1 h1
    cases staged with
    | true =>
      rw [if_pos rfl]
      apply wp_bind_keeping (keeping_setStage : Keeping World.made _)
      . intro _ w2 h2
        apply wp_mono (wp_startOptimizer_entered (h2.trans h1))
        . intro pc w3 h3
          exact h3.turns (.inr rfl)
        . intro _ w3 h3
          exact .of_made h3 (by simp)
      . intro _ w2 h2
        exact .of_made (h2.trans h1) (by simp)
    | false =>
      rw [if_neg (by simp)]
      apply wp_mono (wp_stageOptimizer_entered h1)
      . intro pc w2 h2
        cases h2 with
        | inl hparked =>
          rw [hparked.1]
          exact turns_parked hparked.2 (by decide) (.inr rfl)
        | inr hentered => exact hentered.turns (.inr rfl)
      . intro _ w2 h2
        exact .of_made h2 (by simp)
  . intro _ w1 h1
    exact .of_made h1 (by simp)

theorem goes_commitPlan {frame : NodeFrame} {result : ProviderStructuredResult}
    {plan : RevisionPlan} :
    Returns (fun pc => pc = .toGenerator) (commitPlan env frame result plan) := by
  unfold commitPlan
  apply Returns.bind
  intro _
  apply Returns.bind
  intro _
  apply Returns.bind
  intro _
  apply Returns.bind
  intro _
  apply Returns.bind
  intro _
  apply Returns.bind
  intro _
  apply Returns.bind
  intro _
  exact .pure rfl

-- The optimizer goes on with its call, or it has ended its round without one more.
theorem wp_optimizerWake_turns {env : WorkflowEnv} {frame : NodeFrame} {structured : StructuredPc}
    {answer : Answer ProviderStructuredResult} (htried : structured.Tried) :
    wp (optimizerWake env frame structured answer) w
      (fun pc' w' => pc' = .toGenerator ∧ w'.made = w.made
        ∨ Turns (.optimizing frame structured) w pc' w')
      fun _ w' => w'.made = w.made := by
  unfold optimizerWake
  split
  . exact rfl
  . next evaluation _ =>
    have hrepair : ∀ value,
        (planRepair frame.state value).purpose = (planCall frame.state evaluation).purpose :=
      fun _ => rfl
    rw [wp_bind]
    apply wp_mono (wp_structuredWake_retries htried hrepair)
    . intro outcome w1 h1
      cases outcome with
      | inl next =>
        obtain ⟨hnext, hused, honce⟩ := h1
        right
        refine ⟨?_, hnext, ?_⟩
        . have hle := hnext.used_le
          change 4 - next.used < 4 - structured.used
          omega
        . intro purpose
          have hpurpose := honce purpose
          cases purpose with
          | plan =>
            replace hpurpose : w1.made .plan ≤ w.made .plan + 1 := hpurpose
            change w1.made .plan + structured.used ≤ w.made .plan + next.used
            omega
          | generation | review => exact Nat.add_le_add_right hpurpose _
      | inr pair =>
        obtain ⟨result, plan⟩ := pair
        have hkeeping : Keeping World.made (commitPlan env.toEnv frame result plan) :=
          keeping_commitPlan fun _ _ => keeping_commit_made
        apply wp_keeping hkeeping (goes_commitPlan w1)
        . intro pc' w2 hpc' h2
          exact .inl ⟨hpc', h2.trans h1⟩
        . intro _ w2 _ h2
          exact h2.trans h1
    . intro _ w1 h1
      exact h1

end Optimizer

section Generator

variable {state : RunSnapshot} {plan : Option RevisionPlan} {attempt base n : Nat}
  {frame : GeneratorFrame} {pc : Pc}

-- With `base` calls of the iteration behind it in `w`, the node has made no more than `n` by now.
structure Attempts (base n : Nat) (w w' : World) : Prop where
  generation : w'.made .generation + base ≤ w.made .generation + n
  others : ∀ purpose, purpose ≠ .generation → w'.made purpose = w.made purpose

theorem Attempts.refl (w : World) : Attempts base base w w :=
  ⟨Nat.le_refl _, fun _ _ => rfl⟩

theorem Attempts.keep (h : Attempts base n w w1) (h' : w'.made = w1.made) :
    Attempts base n w w' := by
  constructor
  . rw [h']
    exact h.generation
  . intro purpose hpurpose
    rw [h']
    exact h.others purpose hpurpose

theorem Attempts.mono {m : Nat} (h : Attempts base n w w') (hle : n ≤ m) :
    Attempts base m w w' :=
  ⟨Nat.le_trans h.generation (Nat.add_le_add_left hle _), h.others⟩

theorem Attempts.called {call : ProviderCall} (h : Attempts base n w w1)
    (hcall : call.purpose = .generation) : Attempts base (n + 1) w (w1.called call) := by
  have hcount : ∀ purpose, (w1.called call).made purpose
      = w1.made purpose + if call.purpose = purpose then 1 else 0 := by
    intro purpose
    unfold World.made World.called
    rw [List.countP_append, List.countP_singleton]
    simp
  have hbefore := h.generation
  constructor
  . rw [hcount, if_pos hcall]
    omega
  . intro purpose hpurpose
    rw [hcount, if_neg, h.others purpose hpurpose]
    . rfl
    . rw [hcall]
      exact hpurpose.symm

-- Where the generator node stands.
def Drafting (pc : Pc) : Prop :=
  place pc = .toGenerator ∨ place pc = .generating

theorem Drafting.used_others (h : Drafting pc) {purpose : Purpose}
    (hpurpose : purpose ≠ .generation) : pc.used purpose = 0 := by
  cases pc with
  | toGenerator | generating =>
    cases purpose with
    | generation => contradiction
    | review | plan => rfl
  | _ => simp [Drafting, place] at h

theorem Attempts.halts (h : Attempts (pc.used .generation) 2 w w') : Halts pc w w' := by
  intro purpose
  cases purpose with
  | generation => exact h.generation
  | review role =>
    rw [h.others _ (by simp)]
    exact Nat.le_refl _
  | plan =>
    rw [h.others _ (by simp)]
    exact Nat.le_refl _

theorem Attempts.turns {pc' : Pc} (h : Attempts (pc.used .generation) n w w')
    (hpc : Drafting pc) (hmoves : pc'.moves < pc.moves) (htried : pc'.Tried)
    (hused : n ≤ pc'.used .generation) : Turns pc w pc' w' := by
  refine ⟨hmoves, htried, ?_⟩
  intro purpose
  by_cases hpurpose : purpose = .generation
  . rw [hpurpose]
    exact (h.mono hused).generation
  . rw [h.others purpose hpurpose, hpc.used_others hpurpose]
    exact Nat.add_le_add_left (Nat.zero_le _) _

theorem wp_openStream_attempts (h : Attempts base n w w1) :
    wp (openStream env state plan attempt) w1
      (fun opened w' => opened.attempt = attempt ∧ Attempts base (n + 1) w w')
      fun _ w' => Attempts base (n + 1) w w' := by
  have hcalled : Attempts base (n + 1) w (w1.called (.streamPrd state.userIdea state.targetAudience
      state.userConstraints state.currentIteration plan (baselinePrd state) state.outputLanguage)) :=
    h.called rfl
  unfold openStream
  rw [wp_bind, wp_modify, wp_bind, wp_monotonic, wp_bind, wp_monotonic]
  apply wp_bind_keeping (keeping_remainingRunSeconds : Keeping World.made _)
  . intro remaining w2 h2
    apply wp_keeping (keeping_awaitEvent : Keeping World.made _) wp_awaitEvent_await
    . rintro _ w3 ⟨⟨await, rfl⟩, _⟩ h3
      exact ⟨rfl, hcalled.keep (h3.trans h2)⟩
    . intro _ w3 _ h3
      exact hcalled.keep (h3.trans h2)
  . intro _ w2 h2
    exact hcalled.keep h2

theorem returns_commitVersion {content : String} {usage : TokenUsage} :
    Returns (fun pc => pc = .reviewing fun _ => .ready)
      (commitVersion env state plan attempt content usage) := by
  unfold commitVersion
  apply Returns.bind
  intro _
  apply Returns.bind
  intro _
  apply Returns.bind
  intro _
  split
  . exact .throw _
  . apply Returns.bind
    intro _
    apply Returns.bind
    intro _
    apply Returns.bind
    intro _
    apply Returns.bind
    intro _
    apply Returns.bind
    intro _
    exact .pure rfl

theorem wp_runAttempt_attempts {body : Prog World Exn (GeneratorFrame ⊕ (String × TokenUsage))}
    {retry : Prog World Exn Pc} {Q : Pc → World → Prop} {E : Exn → World → Prop}
    (hbody : wp body w1
      (fun result w' => Attempts base n w w' ∧ ∀ opened, result = .inl opened → Q (.generating opened) w')
      fun _ w' => Attempts base n w w')
    (hretry : ∀ w', Attempts base n w w' → wp retry w' Q E)
    (hQ : ∀ w', Attempts base n w w' → Q (.reviewing fun _ => .ready) w')
    (hE : ∀ exn w', Attempts base n w w' → E exn w') :
    wp (runAttempt env state plan attempt body retry) w1 Q E := by
  unfold runAttempt
  rw [wp_bind, wp_tryCatch, wp_bind]
  apply wp_mono hbody
  . rintro result w2 ⟨h2, hopened⟩
    rw [wp_pure]
    cases result with
    | inl opened => exact hopened opened rfl
    | inr pair =>
      obtain ⟨content, usage⟩ := pair
      have hkeeping : Keeping World.made (commitVersion env state plan attempt content usage) :=
        keeping_commitVersion fun _ _ _ _ => keeping_commit_made
      apply wp_keeping hkeeping (returns_commitVersion w2)
      . rintro _ w3 rfl h3
        exact hQ w3 (h2.keep h3)
      . intro exn w3 _ h3
        exact hE exn w3 (h2.keep h3)
  . intro exn w2 h2
    rw [wp_ite]
    split
    . apply wp_bind_keeping (keeping_attemptFailed : Keeping World.made _)
      . intro _ w3 h3
        exact hretry w3 (h2.keep h3)
      . intro exn' w3 h3
        exact hE exn' w3 (h2.keep h3)
    . exact hE exn w2 h2

-- What becomes of an attempt that starts with `n` calls made, for all attempts up to the second.
structure Ends (base least : Nat) (w : World) (Q : Pc → World → Prop) (E : Exn → World → Prop) :
    Prop where
  opened :
    ∀ opened w', least ≤ opened.attempt → opened.attempt ≤ 2 →
      Attempts base opened.attempt w w' → Q (.generating opened) w'
  written : ∀ w', Attempts base 2 w w' → Q (.reviewing fun _ => .ready) w'
  raised : ∀ exn w', Attempts base 2 w w' → E exn w'

theorem wp_startAttempt_attempts {retry : Prog World Exn Pc} {Q : Pc → World → Prop}
    {E : Exn → World → Prop} {least : Nat} (h : Attempts base n w w1) (hattempt : attempt = n + 1)
    (hbound : attempt ≤ 2) (hleast : least ≤ attempt) (hends : Ends base least w Q E)
    (hretry : ∀ w', Attempts base attempt w w' → wp retry w' Q E) :
    wp (startAttempt env state plan attempt retry) w1 Q E := by
  unfold startAttempt
  apply wp_bind_keeping (keeping_restartRecord : Keeping World.made _)
  . intro _ w2 h2
    apply wp_bind_keeping (keeping_commitBeginStream : Keeping World.made _)
    . intro _ w3 h3
      have h3 : Attempts base n w w3 := (h.keep h2).keep h3
      apply wp_runAttempt_attempts (n := attempt)
      . rw [wp_bind]
        apply wp_mono (wp_openStream_attempts h3)
        . rintro opened w4 ⟨hopened, h4⟩
          rw [← hattempt] at h4
          refine ⟨h4, ?_⟩
          rintro _ ⟨⟩
          apply hends.opened
          . rw [hopened]
            exact hleast
          . rw [hopened]
            exact hbound
          . rw [hopened]
            exact h4
        . intro _ w4 h4
          rw [hattempt]
          exact h4
      . exact hretry
      . intro w4 h4
        exact hends.written w4 (h4.mono hbound)
      . intro exn w4 h4
        exact hends.raised exn w4 (h4.mono hbound)
    . intro exn w3 h3
      apply hends.raised
      exact ((h.keep h2).keep h3).mono (by omega)
  . intro exn w2 h2
    apply hends.raised
    exact (h.keep h2).mono (by omega)

theorem wp_retryAttempt_attempts {Q : Pc → World → Prop} {E : Exn → World → Prop} {least : Nat}
    (h : Attempts base attempt w w1) (hattempt : 1 ≤ attempt ∧ attempt ≤ 2)
    (hleast : least ≤ attempt + 1) (hends : Ends base least w Q E) :
    wp (retryAttempt env state plan attempt) w1 Q E := by
  unfold retryAttempt
  split
  . next hless =>
    have hfirst : attempt = 1 := by omega
    rw [hfirst] at h hleast
    apply wp_startAttempt_attempts h rfl (Nat.le_refl 2) hleast hends
    intro w2 h2
    exact hends.raised _ w2 h2
  . apply hends.raised
    exact h.mono hattempt.2

theorem wp_generatorNode_turns :
    wp (generatorNode env) w (Turns .toGenerator w) fun _ w' => Halts .toGenerator w w' := by
  have hnone : Pc.toGenerator.used .generation = 0 := rfl
  have hends : Ends 0 1 w (Turns .toGenerator w) fun _ w' => Halts .toGenerator w w' :=
    {
      opened := by
        intro opened w' hleast _ h
        rw [← hnone] at h
        apply h.turns (.inl rfl)
        . change 25 - opened.attempt < 25
          omega
        . trivial
        . exact Nat.le_refl _
      written := by
        intro w' h
        rw [← hnone] at h
        apply h.turns (.inl rfl)
        . decide
        . intro _
          trivial
        . exact Nat.le_refl 2
      raised := by
        intro _ w' h
        rw [← hnone] at h
        exact h.halts
    }
  unfold generatorNode
  apply wp_bind_keeping (keeping_checkCancel : Keeping World.made _)
  . intro _ w1 h1
    apply wp_bind_keeping (keeping_setStage : Keeping World.made _)
    . intro state w2 h2
      apply wp_bind_keeping (keeping_markNode : Keeping World.made _)
      . intro _ w3 h3
        dsimp only
        apply wp_bind_keeping (keeping_restartRecord : Keeping World.made _)
        . intro _ w4 h4
          have h4 : Attempts 0 0 w w4 := (Attempts.refl w).keep (h4.trans (h3.trans (h2.trans h1)))
          apply wp_startAttempt_attempts h4 rfl (by omega) (Nat.le_refl 1) hends
          intro w5 h5
          exact wp_retryAttempt_attempts h5 ⟨Nat.le_refl 1, by omega⟩ (by omega) hends
        . intro _ w4 h4
          exact .of_made (h4.trans (h3.trans (h2.trans h1))) (by simp)
      . intro _ w3 h3
        exact .of_made (h3.trans (h2.trans h1)) (by simp)
    . intro _ w2 h2
      exact .of_made (h2.trans h1) (by simp)
  . intro _ w1 h1
    exact .of_made h1 (by simp)

-- The attempt takes one more event of its stream.
def Absorbs (frame : GeneratorFrame) (answer : Answer (Option ProviderTextEvent)) (w : World)
    (pc : Pc) (w' : World) : Prop :=
  ∃ event frame', answer = .returned (some event) ∧ pc = .generating frame'
    ∧ frame'.attempt = frame.attempt ∧ w'.made = w.made

theorem wp_generatorWake_turns {answer : Answer (Option ProviderTextEvent)}
    (hattempt : 1 ≤ frame.attempt ∧ frame.attempt ≤ 2) :
    wp (generatorWake env frame answer) w
      (fun pc' w' => Absorbs frame answer w pc' w' ∨ Turns (.generating frame) w pc' w')
      fun _ w' => Halts (.generating frame) w w' := by
  have hends : Ends frame.attempt (frame.attempt + 1) w
      (fun pc' w' => Absorbs frame answer w pc' w' ∨ Turns (.generating frame) w pc' w')
      fun _ w' => Halts (.generating frame) w w' :=
    {
      opened := by
        intro opened w' hleast _ h
        have h : Attempts ((Pc.generating frame).used .generation) opened.attempt w w' := h
        right
        apply h.turns (.inr rfl)
        . change 25 - opened.attempt < 25 - frame.attempt
          omega
        . trivial
        . exact Nat.le_refl _
      written := by
        intro w' h
        have h : Attempts ((Pc.generating frame).used .generation) 2 w w' := h
        right
        apply h.turns (.inr rfl)
        . change 22 < 25 - frame.attempt
          omega
        . intro _
          trivial
        . exact Nat.le_refl 2
      raised := by
        intro _ w' h
        exact Attempts.halts h
    }
  have hbody : wp (resumeStream env frame answer) w
      (fun result w' => Attempts frame.attempt frame.attempt w w'
        ∧ ∀ opened, result = .inl opened →
          Absorbs frame answer w (.generating opened) w'
            ∨ Turns (.generating frame) w (.generating opened) w')
      fun _ w' => Attempts frame.attempt frame.attempt w w' := by
    apply wp_keeping (keeping_resumeStream : Keeping World.made _) wp_resumeStream_resumed
    . intro result w1 hresumed h1
      refine ⟨(Attempts.refl w).keep h1, ?_⟩
      rintro opened rfl
      obtain ⟨event, hanswer, hfed⟩ := hresumed
      exact .inl ⟨event, opened, hanswer, rfl, hfed.attempt, h1⟩
    . intro _ w1 _ h1
      exact (Attempts.refl w).keep h1
  unfold generatorWake
  apply wp_runAttempt_attempts hbody
  . intro w1 h1
    exact wp_retryAttempt_attempts h1 hattempt (Nat.le_refl _) hends
  . intro w1 h1
    exact hends.written w1 (h1.mono hattempt.2)
  . intro exn w1 h1
    exact hends.raised exn w1 (h1.mono hattempt.2)

end Generator

section Reviewer

variable {role : ReviewRole} {frame : NodeFrame} {structured : StructuredPc} {pc : ReviewerPc}

-- What a turn of one reviewer comes to.
structure ReviewTurn (role : ReviewRole) (pc : ReviewerPc) (w : World) (pc' : ReviewerPc) (w' : World) :
    Prop where
  moves : pc'.moves < pc.moves
  tried : pc'.Tried
  made : w'.made (.review role) + pc.used ≤ w.made (.review role) + pc'.used
  others : ∀ purpose, purpose ≠ .review role → w'.made purpose ≤ w.made purpose

theorem ReviewTurn.called {pc' : ReviewerPc} (honce : Once (.review role) w w')
    (hmoves : pc'.moves < pc.moves) (htried : pc'.Tried) (hused : pc.used < pc'.used) :
    ReviewTurn role pc w pc' w' := by
  refine ⟨hmoves, htried, ?_, ?_⟩
  . have hmade := honce (.review role)
    rw [if_pos rfl] at hmade
    omega
  . intro purpose hpurpose
    have hmade := honce purpose
    rw [if_neg hpurpose] at hmade
    exact hmade

theorem ReviewTurn.silent {pc' : ReviewerPc} (hmade : w'.made = w.made)
    (hmoves : pc'.moves < pc.moves) (htried : pc'.Tried) (hused : pc.used ≤ pc'.used) :
    ReviewTurn role pc w pc' w' := by
  refine ⟨hmoves, htried, ?_, ?_⟩
  . rw [hmade]
    omega
  . intro purpose _
    rw [hmade]

theorem wp_reviewerNode_reviews :
    wp (reviewerNode env role) w (ReviewTurn role .ready w)
      fun exn => ReviewTurn role .ready w (.raised exn) := by
  have hraised : ∀ exn w', w'.made = w.made → ReviewTurn role .ready w (.raised exn) w' := by
    intro exn w' h
    exact .silent h (Nat.zero_lt_succ 3) trivial (Nat.zero_le 3)
  unfold reviewerNode
  apply wp_bind_keeping (keeping_checkCancel : Keeping World.made _)
  . intro _ w1 h1
    apply wp_bind_keeping (keeping_monotonic : Keeping World.made _)
    . intro started w2 h2
      apply wp_bind_keeping (keeping_markNode : Keeping World.made _)
      . intro _ w3 h3
        rw [wp_bind, wp_get, wp_bind]
        apply wp_mono wp_structuredCall_once
        . rintro _ w4 ⟨⟨await, rfl⟩, h4⟩
          rw [wp_pure]
          have h4 : Once (.review role) w w4 := .trans_made (h3.trans (h2.trans h1)) h4
          apply ReviewTurn.called h4
          . change 3 < 4
            omega
          . exact Nat.zero_le 1
          . exact Nat.zero_lt_one
        . intro _ _ h4
          contradiction
      . intro exn w3 h3
        exact hraised exn w3 (h3.trans (h2.trans h1))
    . intro exn w2 h2
      exact hraised exn w2 (h2.trans h1)
  . intro exn w1 h1
    exact hraised exn w1 h1

theorem returns_commitReview {result : ProviderStructuredResult} {review : RoleReview} :
    Returns (fun pc => pc = .done) (commitReview env role frame result review) := by
  unfold commitReview
  split
  . apply Returns.bind
    intro _
    apply Returns.bind
    intro _
    apply Returns.bind
    intro _
    apply Returns.bind
    intro _
    apply Returns.bind
    intro _
    apply Returns.bind
    intro _
    exact .pure rfl
  . exact .throw _

theorem wp_reviewerWake_reviews {env : WorkflowEnv} {answer : Answer ProviderStructuredResult}
    (htried : structured.Tried) :
    wp (reviewerWake env role frame structured answer) w
      (ReviewTurn role (.suspended frame structured) w)
      fun exn => ReviewTurn role (.suspended frame structured) w (.raised exn) := by
  have hle := htried.used_le
  have hover : ∀ pc' w', pc'.moves = 0 → pc'.Tried → pc'.used = 3 → w'.made = w.made →
      ReviewTurn role (.suspended frame structured) w pc' w' := by
    intro pc' w' hmoves htried' hused hmade
    apply ReviewTurn.silent hmade
    . rw [hmoves]
      change 0 < 4 - structured.used
      omega
    . exact htried'
    . rw [hused]
      exact hle
  have hrepair : ∀ value,
      (reviewRepair frame.state role value).purpose = (reviewCall frame.state role).purpose :=
    fun _ => rfl
  unfold reviewerWake
  rw [wp_bind]
  apply wp_mono (wp_structuredWake_retries htried hrepair)
  . intro outcome w1 h1
    cases outcome with
    | inl next =>
      obtain ⟨hnext, hused, honce⟩ := h1
      have hlast := hnext.used_le
      apply ReviewTurn.called honce
      . change 4 - next.used < 4 - structured.used
        omega
      . exact hnext
      . exact hused
    | inr pair =>
      obtain ⟨result, review⟩ := pair
      have hkeeping : Keeping World.made (commitReview env.toEnv role frame result review) :=
        keeping_commitReview
      apply wp_keeping hkeeping (returns_commitReview w1)
      . rintro _ w2 rfl h2
        exact hover _ w2 rfl trivial rfl (h2.trans h1)
      . intro exn w2 _ h2
        exact hover _ w2 rfl trivial rfl (h2.trans h1)
  . intro exn w1 h1
    exact hover _ w1 rfl trivial rfl h1

end Reviewer

section Step

variable {wenv : WorkflowEnv} {c c' : Config} {label : Label} {pc : Pc}

-- What a step of the task comes to, with the two steps that do not come closer to the end of the
-- iteration: the event of a stream, and the plan that starts the next one.
inductive Turning (c : Config) (label : Label) (c' : Config) : Prop where
  | turns (h : Turns c.pc c.world c'.pc c'.world)
  | absorbs {frame : GeneratorFrame} {answer : Answer (Option ProviderTextEvent)}
    (hpc : c.pc = .generating frame) (hlabel : label = .generatorWake answer)
    (h : Absorbs frame answer c.world c'.pc c'.world)
  | planned {frame : NodeFrame} {structured : StructuredPc}
    (hpc : c.pc = .optimizing frame structured) (hpc' : c'.pc = .toGenerator)
    (h : c'.world.made = c.world.made)
  | halts {exn : Exn} (hpc' : c'.pc = .finished (some exn)) (h : Halts c.pc c.world c'.world)

theorem Halts.congr (h : Halts pc w w1) (hmade : w'.made = w1.made) : Halts pc w w' := by
  intro purpose
  rw [hmade]
  exact h purpose

theorem runTask_turns {program : Prog World Exn Pc} {Q : Pc → World → Prop}
    (h : wp program w Q fun _ w' => Halts pc w w') :
    Q (runTask env program w).pc (runTask env program w).world
      ∨
    (∃ exn, (runTask env program w).pc = .finished (some exn))
      ∧ Halts pc w (runTask env program w).world := by
  cases runTask_cases World.made h with
  | inl hQ => exact .inl hQ
  | inr hhalts =>
    obtain ⟨w1, exn, h1, hmade, hpc⟩ := hhalts
    exact .inr ⟨⟨exn, hpc⟩, h1.congr hmade⟩

theorem turning_runTask {program : Prog World Exn Pc}
    (h : wp program w (Turns pc w) fun _ w' => Halts pc w w') :
    Turning { world := w, pc } label (runTask env program w) := by
  cases runTask_turns h with
  | inl hturns => exact .turns hturns
  | inr hhalts =>
    obtain ⟨⟨exn, hpc⟩, hmade⟩ := hhalts
    exact .halts hpc hmade

-- A program that makes no call and leads to one of the places of which all are further on.
theorem turning_quiet {program : Prog World Exn Pc} {places : List Place}
    (hkeeping : Keeping World.made program) (hgoes : Goes places program)
    (hfurther : ∀ pc', place pc' ∈ places →
      pc'.moves < pc.moves ∧ pc'.Tried ∧ ∀ purpose, pc.used purpose ≤ pc'.used purpose)
    (hframe : ∀ frame, pc ≠ .generating frame) :
    Turning { world := w, pc } label (runTask env program w) := by
  apply turning_runTask
  apply wp_turns_keeping hkeeping
  . exact Returns.mono hgoes hfurther
  . intro frame hpc
    exact absurd hpc (hframe frame)

section Reviewers

variable {role : ReviewRole} {reviewers : ReviewRole → ReviewerPc}

theorem ReviewTurn.turns {pc' : ReviewerPc} (h : ReviewTurn role (reviewers role) w pc' w')
    (htried : (Pc.reviewing reviewers).Tried) :
    Turns (.reviewing reviewers) w (.reviewing (Function.update reviewers role pc')) w' := by
  refine ⟨?_, ?_, ?_⟩
  . have hmoves := h.moves
    unfold Pc.moves
    cases role <;> simp [Function.update] <;> omega
  . intro other
    by_cases hother : other = role
    . rw [hother, Function.update_self]
      exact h.tried
    . rw [Function.update_of_ne hother]
      exact htried other
  . intro purpose
    cases purpose with
    | review other =>
      change w'.made (.review other) + (reviewers other).used
        ≤ w.made (.review other) + (Function.update reviewers role pc' other).used
      by_cases hother : other = role
      . rw [hother, Function.update_self]
        exact h.made
      . rw [Function.update_of_ne hother]
        apply Nat.add_le_add_right
        apply h.others
        simpa using hother
    | generation | plan => exact Nat.add_le_add_right (h.others _ (by simp)) _

theorem runReviewer_turns {program : Prog World Exn ReviewerPc}
    (h : wp program w (ReviewTurn role (reviewers role) w)
      fun exn => ReviewTurn role (reviewers role) w (.raised exn))
    (htried : (Pc.reviewing reviewers).Tried) :
    Turning { world := w, pc := .reviewing reviewers } label
      (runReviewer role reviewers program w) := by
  unfold runReviewer
  unfold wp at h
  split
  . next heq =>
    rw [heq] at h
    exact .turns (ReviewTurn.turns h htried)
  . next heq =>
    rw [heq] at h
    exact .turns (ReviewTurn.turns h htried)

theorem stepReviewer_turning (htried : (Pc.reviewing reviewers).Tried)
    (hstep : stepReviewer wenv w reviewers label = some c') :
    Turning { world := w, pc := .reviewing reviewers } label c' := by
  unfold stepReviewer at hstep
  split at hstep
  . split at hstep
    . next role hready =>
      cases hstep
      apply runReviewer_turns _ htried
      rw [hready]
      exact wp_reviewerNode_reviews
    . contradiction
  . split at hstep
    . next role answer _ frame structured hsuspended =>
      split at hstep
      . cases hstep
        apply runReviewer_turns _ htried
        rw [hsuspended]
        apply wp_reviewerWake_reviews
        have hrole := htried role
        rw [hsuspended] at hrole
        exact hrole
      . contradiction
    . contradiction
  . split at hstep
    . next hdone =>
      cases hstep
      simp only [Bool.and_eq_true] at hdone
      have hall : ∀ role, reviewers role = .done := by
        intro role
        cases role with
        | tech => exact ReviewerPc.eq_done hdone.1.1
        | ux => exact ReviewerPc.eq_done hdone.1.2
        | biz => exact ReviewerPc.eq_done hdone.2
      refine .turns ⟨?_, trivial, ?_⟩
      . change 9 < 10 + (reviewers .tech).moves + (reviewers .ux).moves + (reviewers .biz).moves
        omega
      . intro purpose
        cases purpose with
        | review role =>
          have hused : (Pc.reviewing reviewers).used (.review role) = 3 := by
            change (reviewers role).used = 3
            rw [hall]
            rfl
          rw [hused]
          exact Nat.le_refl _
        | generation | plan => exact Nat.le_refl _
    . contradiction
  . split at hstep
    . next role exn _ =>
      cases hstep
      have hthrow : wp (throw exn : Prog World Exn Pc) w (fun _ _ => False)
          fun _ w' => Halts (.reviewing reviewers) w w' :=
        .of_made rfl (by simp)
      cases runTask_turns hthrow with
      | inl hfalse => exact hfalse.elim
      | inr hhalts =>
        obtain ⟨⟨exn', hpc⟩, hmade⟩ := hhalts
        exact .halts hpc hmade
    . contradiction
  . contradiction

end Reviewers

theorem Inv.attempt (h : Inv c) {frame : GeneratorFrame} (hpc : c.pc = .generating frame) :
    1 ≤ frame.attempt ∧ frame.attempt ≤ 2 := by
  have hgenerating := h.pc
  rw [hpc] at hgenerating
  exact hgenerating.2.2.1

theorem stepTask_turning (hattempt : ∀ frame, pc = .generating frame → 1 ≤ frame.attempt ∧ frame.attempt ≤ 2)
    (htried : pc.Tried) (hstep : stepTask wenv w pc label = some c') :
    Turning { world := w, pc } label c' := by
  unfold stepTask at hstep
  split at hstep
  . cases hstep
    apply turning_quiet keeping_begin goes_begin _ (by simp)
    intro pc' hpc'
    cases pc' with
    | toGenerator =>
      refine ⟨by decide, trivial, ?_⟩
      intro purpose
      cases purpose <;> exact Nat.le_refl 0
    | _ => simp [place] at hpc'
  . cases hstep
    exact turning_runTask wp_generatorNode_turns
  . next frame answer =>
    split at hstep
    . cases hstep
      cases runTask_turns (wp_generatorWake_turns (hattempt frame rfl)) with
      | inl hnext =>
        cases hnext with
        | inl habsorbs => exact .absorbs rfl rfl habsorbs
        | inr hturns => exact .turns hturns
      | inr hhalts =>
        obtain ⟨⟨exn, hpc⟩, hmade⟩ := hhalts
        exact .halts hpc hmade
    . contradiction
  . exact stepReviewer_turning htried hstep
  . cases hstep
    apply turning_quiet (keeping_aggregatorNode fun _ _ _ _ => keeping_commit_made)
      goes_aggregatorNode _ (by simp)
    intro pc' hpc'
    cases pc' with
    | aggregatorParked | routing =>
      refine ⟨by decide, trivial, ?_⟩
      intro purpose
      cases purpose <;> exact Nat.le_refl _
    | _ => simp [place] at hpc'
  . split at hstep
    . cases hstep
      apply turning_quiet keeping_aggregatorWake goes_aggregatorWake _ (by simp)
      intro pc' hpc'
      cases pc' with
      | routing =>
        refine ⟨by decide, trivial, ?_⟩
        intro purpose
        cases purpose <;> exact Nat.le_refl _
      | _ => simp [place] at hpc'
    . contradiction
  . cases hstep
    apply turning_quiet keeping_routeAfterAggregate goes_routeAfterAggregate _ (by simp)
    intro pc' hpc'
    cases pc' with
    | toOptimizer =>
      refine ⟨by decide, trivial, ?_⟩
      intro purpose
      cases purpose <;> exact Nat.le_refl _
    | finished =>
      refine ⟨Nat.zero_lt_succ 6, trivial, ?_⟩
      intro purpose
      cases purpose <;> exact Nat.le_refl _
    | _ => simp [place] at hpc'
  . cases hstep
    exact turning_runTask wp_optimizerNode_turns
  . split at hstep
    . cases hstep
      exact turning_runTask wp_optimizerUnpark_turns
    . contradiction
  . next frame structured answer =>
    split at hstep
    . cases hstep
      have hwake : wp (optimizerWake wenv frame structured answer) w
          (fun pc' w' => pc' = .toGenerator ∧ w'.made = w.made
            ∨ Turns (.optimizing frame structured) w pc' w')
          fun _ w' => Halts (.optimizing frame structured) w w' := by
        apply wp_mono (wp_optimizerWake_turns htried)
        . intro pc' w' h
          exact h
        . intro _ w' h
          exact .of_made h (by simp)
      cases runTask_turns hwake with
      | inl hnext =>
        cases hnext with
        | inl hplanned => exact .planned rfl hplanned.1 hplanned.2
        | inr hturns => exact .turns hturns
      | inr hhalts =>
        obtain ⟨⟨exn, hpc⟩, hmade⟩ := hhalts
        exact .halts hpc hmade
    . contradiction
  . contradiction

theorem step_turning (hinv : Inv c) (htried : c.pc.Tried) (hlabel : label.isRequest = false)
    (hstep : step wenv c label = some c') : Turning c label c' := by
  apply stepTask_turning _ htried (step_stepTask hlabel hstep)
  intro frame hpc
  exact hinv.attempt hpc

end Step

end Workflow

end AgenticPrd
