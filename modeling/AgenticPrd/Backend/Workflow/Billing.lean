import AgenticPrd.Backend.Workflow.Metering
import AgenticPrd.Backend.Workflow.Flow
import AgenticPrd.Lib.Conservation

/-!
Where the usage goes that the provider reports to a run. Whatever the order of the steps, it is
billed once, or a task holds it that has not come to billing it, or a step has lost it; `lost` says
how much each step loses.
-/

namespace AgenticPrd

namespace Workflow

open RunManager Prog Transition

def reportedResult : Answer ProviderStructuredResult → TokenUsage
  | .returned result => result.usage
  | _ => 0

-- A structured call reports to its node only what it returns; `stored` is whether the node gets to
-- store a value.
def lostByCall {T : Type} (model : Json → Option T) (stored : T → Bool) (w : World)
    (answer : Answer ProviderStructuredResult) : StructuredPc → TokenUsage
  | .calling _ await =>
    match (awaitResult await answer).run w with
    | (.error _, _) => 0
    | (.ok result, _) =>
      match model result.value with
      | none => 0
      | some parsed => if stored parsed then 0 else result.usage
  | .repairing result await =>
    match (awaitResult await answer).run w with
    | (.error _, _) => result.usage
    | (.ok repaired, _) =>
      match model repaired.value with
      | none => result.usage + repaired.usage
      | some parsed => if stored parsed then 0 else result.usage + repaired.usage

def storesReview (env : Env) (w : World) (role : ReviewRole) (review : RoleReview) : Bool :=
  review.role = role && checked env w

section Structured

variable {env : Env} {T : Type} {model : Json → Option T} {call : ProviderCall}
  {repair : Json → ProviderCall} {answer : Answer ProviderStructuredResult}
  {structured : StructuredPc} {w : World}

-- What a structured call comes to: it goes on, or it returns what it owes.
def CallEnds (stored : T → Bool) (due lost : TokenUsage) (w : World) :
    StructuredPc ⊕ (ProviderStructuredResult × T) → World → Prop
  | .inl structured, _ => structured.owes + lost = due
  | .inr (result, parsed), w' =>
    w' = w ∧ result.usage = due ∧ lost = if stored parsed then 0 else due

theorem returns_structuredCall {attempt : Nat} :
    Returns (fun structured => structured.owes = 0) (structuredCall env attempt call) := by
  unfold structuredCall
  apply Returns.bind
  intro await
  exact .pure rfl

theorem wp_awaitResult_run {α : Type} {await : Await} {answer : Answer α} {Q : α → World → Prop}
    {E : Exn → World → Prop}
    (hQ : ∀ value, (awaitResult await answer).run w = (.ok value, w) → Q value w)
    (hE : ∀ exn, (awaitResult await answer).run w = (.error exn, w) → E exn w) :
    wp (awaitResult await answer) w Q E := by
  cases await with
  | settling exn => exact hE exn rfl
  | waiting =>
    cases answer with
    | returned value => exact hQ value rfl
    | _ => exact hE _ rfl

-- A wait that raises has been given no report.
theorem reportedResult_of_error {await : Await} {exn : Exn}
    (haccepts : await.accepts w answer = true)
    (hrun : (awaitResult await answer).run w = (.error exn, w)) : reportedResult answer = 0 := by
  cases await with
  | settling exn =>
    cases answer with
    | settled => rfl
    | _ => contradiction
  | waiting =>
    cases answer with
    | returned value => cases hrun
    | _ => rfl

theorem reportedResult_of_ok {await : Await} {result : ProviderStructuredResult}
    (hrun : (awaitResult await answer).run w = (.ok result, w)) :
    reportedResult answer = result.usage := by
  cases await with
  | settling exn => cases hrun
  | waiting =>
    cases answer with
    | returned value =>
      cases hrun
      rfl
    | _ => cases hrun

theorem wp_structuredWake_owes (stored : T → Bool)
    (haccepts : structured.await.accepts w answer = true) :
    wp (structuredWake env model call repair answer structured) w
      (CallEnds stored (structured.owes + reportedResult answer)
        (lostByCall model stored w answer structured) w)
      fun _ _ => lostByCall model stored w answer structured
        = structured.owes + reportedResult answer := by
  cases structured with
  | calling attempt await =>
    have howes : (StructuredPc.calling attempt await).owes = 0 := rfl
    unfold structuredWake lostByCall
    dsimp only
    rw [wp_bind, wp_tryCatch, wp_bind, howes, zero_add]
    apply wp_awaitResult_run
    . intro result hrun
      rw [wp_pure, hrun, reportedResult_of_ok hrun]
      dsimp only
      cases hparsed : model result.value with
      | some parsed => exact ⟨rfl, rfl, rfl⟩
      | none =>
        dsimp only
        rw [wp_bind]
        apply wp_beginAwait_returns
        intro _ _
        exact add_zero result.usage
    . intro exn hrun
      rw [hrun, reportedResult_of_error haccepts hrun]
      dsimp only
      split
      . rw [wp_pure]
        dsimp only
        rw [wp_bind]
        apply wp_mono (returns_structuredCall w)
        . intro structured w1 howes
          change structured.owes + 0 = 0
          rw [howes, add_zero]
        . intro _ _ _
          rfl
      . rfl
  | repairing result await =>
    have howes : (StructuredPc.repairing result await).owes = result.usage := rfl
    unfold structuredWake lostByCall
    dsimp only
    rw [wp_bind, howes]
    apply wp_awaitResult_run
    . intro repaired hrun
      rw [hrun, reportedResult_of_ok hrun]
      dsimp only
      cases hparsed : model repaired.value with
      | some parsed => exact ⟨rfl, rfl, rfl⟩
      | none => rfl
    . intro exn hrun
      rw [hrun, reportedResult_of_error haccepts hrun, add_zero]

end Structured

section Nodes

variable {env : WorkflowEnv} {origin w : World} {frame : NodeFrame} {structured : StructuredPc}
  {answer : Answer ProviderStructuredResult} {result : ProviderStructuredResult}

theorem wp_commitReview_meter {env : Env} {role : ReviewRole} {review : RoleReview}
    (hw : Sound origin w) (hat : At w.view .fresh) (hlive : Live [.reviewing, .pauseRequested] w.view)
    (hvalid : ValidIteration frame.state.currentIteration)
    (hbalanced : Balanced env.execution w.bill) :
    wp (commitReview env role frame result review) w
      (fun pc w' =>
        storesReview env w role review = true ∧ pc = .done
          ∧ Charged env.execution w.bill role.node result.usage w'.bill)
      fun _ w' => storesReview env w role review = false ∧ w'.bill = w.bill := by
  have hsteady := Steady.of_live hat hlive (by simp) (by simp)
  unfold commitReview storesReview
  split
  . next hrole =>
    rw [wp_bind]
    apply wp_checkCancel_meter hw hsteady
    . intro exn w1 _ _ hmeter1 hchecked
      refine ⟨?_, congrArg Prod.fst hmeter1⟩
      rw [hchecked, Bool.and_false]
    intro hchecked hcancel w1 hw1 hview1 hmeter1
    have hcancel1 : w1.cancelSignal = false := by
      rw [← hcancel]
      exact congrArg View.cancelSignal hview1
    have hbill1 : w1.bill = w.bill := congrArg Prod.fst hmeter1
    have hkeeping : ∀ cancelled, Keeping RunSnapshot.bill (finishReview cancelled role review) := by
      intro cancelled
      unfold finishReview
      split
      . exact .throw _
      . exact .modify fun _ => rfl
    rw [← hview1] at hat hlive
    rw [wp_bind, wp_get, wp_bind]
    apply wp_keeping (Q := fun _ w' => Sound origin w') (E := fun _ _ => False)
      (keeping_commit_meter (hkeeping _))
    . apply wp_commit_reviewed hw1 hat hlive hcancel1 hrole
      intro w' hw' _
      exact hw'
    . intro _ w2 hw2 hmeter2
      have hbill2 : w2.bill = w.bill :=
        (congrArg Prod.fst hmeter2).trans hbill1
      rw [wp_bind]
      apply wp_recordUsage_meter hw2
      intro w3 hw3 _ hmeter3
      have hw4 : Sound origin w3.tick := hw3.congr rfl rfl rfl rfl rfl rfl
      rw [hbill2] at hmeter3
      rw [wp_bind, wp_monotonic, wp_bind]
      apply wp_recordTiming_meter hw4 hvalid (by omega)
      intro w5 _ _ hmeter5
      rw [wp_pure]
      refine ⟨?_, rfl, hbalanced.charged hmeter3 hmeter5⟩
      rw [hchecked, Bool.and_true, decide_eq_true_eq]
      exact hrole
    . intro _ _ hfalse _
      contradiction
  . next hrole =>
    refine ⟨?_, rfl⟩
    rw [decide_eq_false hrole, Bool.false_and]

theorem wp_reviewerWake_cleared {role : ReviewRole} (hw : Sound origin w) (hat : At w.view .fresh)
    (hlive : Live [.reviewing, .pauseRequested] w.view)
    (hinv : ReviewerInv w.view role (.suspended frame structured))
    (haccepts : structured.await.accepts w answer = true)
    (hbalanced : Balanced env.execution w.bill) :
    wp (reviewerWake env role frame structured answer) w
      (fun pc w' =>
        Cleared env.execution w.bill role.node (structured.owes + reportedResult answer)
          pc.owes
          (lostByCall env.roleReview (storesReview env.toEnv w role) w answer structured) w')
      fun _ w' =>
        Cleared env.execution w.bill role.node (structured.owes + reportedResult answer) 0
          (lostByCall env.roleReview (storesReview env.toEnv w role) w answer structured) w' := by
  have hkeeping : Keeping World.meter (structuredWake env.toEnv env.roleReview
      (reviewCall frame.state role) (reviewRepair frame.state role) answer structured) :=
    keeping_structuredWake (overlooks_meter _) fun _ => overlooks_meter _
  unfold reviewerWake
  rw [wp_bind]
  apply wp_keeping hkeeping
    (wp_structuredWake_owes (storesReview env.toEnv w role) haccepts)
  . intro outcome w1 hends hmeter1
    have hbill1 : w1.bill = w.bill := congrArg Prod.fst hmeter1
    cases outcome with
    | inl structured' => exact .idle hbalanced hbill1 hends
    | inr returned =>
      obtain ⟨result, review⟩ := returned
      obtain ⟨rfl, husage, hlost⟩ := hends
      rw [hlost, ← husage]
      apply wp_mono (wp_commitReview_meter hw hat hlive hinv.1 hbalanced)
      . rintro pc w2 ⟨hstored, rfl, hcharged⟩
        refine ⟨result.usage, hcharged, ?_⟩
        rw [if_pos hstored, add_zero]
        exact add_zero result.usage
      . rintro exn w2 ⟨hstored, hbill2⟩
        apply Cleared.idle hbalanced hbill2
        rw [hstored, if_neg Bool.false_ne_true, zero_add]
  . intro exn w1 hlost hmeter1
    apply Cleared.idle hbalanced (congrArg Prod.fst hmeter1)
    rw [hlost, zero_add]

theorem wp_commitPlan_meter {env : Env} {plan : RevisionPlan} (hw : Sound origin w)
    (hat : At w.view .judged) (hlive : Live [.optimizing, .pauseRequested] w.view)
    (hvalid : ValidIteration frame.state.currentIteration)
    (hbalanced : Balanced env.execution w.bill) :
    wp (commitPlan env frame result plan) w
      (fun pc w' =>
        checked env w = true ∧ pc = .toGenerator
          ∧ Charged env.execution w.bill .optimizer result.usage w'.bill)
      fun _ w' => checked env w = false ∧ w'.bill = w.bill := by
  have hsteady := Steady.of_live hat hlive (by simp) (by simp)
  unfold commitPlan
  rw [wp_bind]
  apply wp_checkCancel_meter hw hsteady
  . intro exn w1 _ _ hmeter1 hchecked
    exact ⟨hchecked, congrArg Prod.fst hmeter1⟩
  intro hchecked hcancel w1 hw1 hview1 hmeter1
  have hcancel1 : w1.cancelSignal = false := by
    rw [← hcancel]
    exact congrArg View.cancelSignal hview1
  have hbill1 : w1.bill = w.bill := congrArg Prod.fst hmeter1
  have hkeeping : ∀ cancelled, Keeping RunSnapshot.bill (finishOptimizer cancelled plan) := by
    intro cancelled
    unfold finishOptimizer
    split
    . exact .throw _
    . exact .modify fun _ => rfl
  rw [← hview1] at hat hlive
  rw [wp_bind, wp_get, wp_bind]
  apply wp_keeping (Q := fun _ w' => Sound origin w' ∧ w'.view = advance plan w1.view)
    (E := fun _ _ => False) (keeping_commit_meter (hkeeping _))
  . apply wp_commit_planned hw1 hat hlive hcancel1
    intro w' hw' hview'
    exact ⟨hw', hview'⟩
  . rintro _ w2 ⟨hw2, hview2⟩ hmeter2
    have hbill2 : w2.bill = w.bill := (congrArg Prod.fst hmeter2).trans hbill1
    rw [wp_bind]
    apply wp_recordUsage_meter hw2
    intro w3 hw3 hview3 hmeter3
    have hw4 : Sound origin w3.tick := hw3.congr rfl rfl rfl rfl rfl rfl
    rw [hbill2] at hmeter3
    rw [wp_bind, wp_monotonic, wp_bind]
    apply wp_recordTiming_meter hw4 hvalid (by omega)
    intro w5 hw5 hview5 hmeter5
    have hview5' : w5.view = advance plan w1.view := by
      rw [hview5, ← hview2, ← hview3]
      rfl
    have hat5 : At w5.view .pending := by
      rw [hview5']
      exact hat.advance
    have hlive5 : Live [.optimizing, .pauseRequested] w5.view := by
      rw [hview5']
      exact hlive
    have hcancel5 : w5.cancelSignal = false := by
      rw [← hcancel1]
      exact congrArg View.cancelSignal hview5'
    rw [wp_bind]
    apply wp_keeping (Q := fun _ _ => True) (E := fun _ _ => False)
      (keeping_setStage : Keeping World.meter _)
    . apply wp_setStage_live hw5 hat5 hlive5 hcancel5 (by decide) rfl (by decide)
      intro _ _ _ _ _ _
      trivial
    . intro _ w6 _ hmeter6
      have hbill6 : w6.bill = w5.bill := congrArg Prod.fst hmeter6
      rw [wp_pure]
      refine ⟨hchecked, rfl, ?_⟩
      rw [hbill6]
      exact hbalanced.charged hmeter3 hmeter5
    . intro _ _ hfalse _
      contradiction
  . intro _ _ hfalse _
    contradiction

-- What the node of the optimizer loses: it does not store a plan without an evaluation.
def lostByPlan (env : WorkflowEnv) (w : World) (frame : NodeFrame) (structured : StructuredPc)
    (answer : Answer ProviderStructuredResult) : TokenUsage :=
  if frame.state.latestEvaluation.isNone then
    structured.owes + reportedResult answer
  else
    lostByCall env.revisionPlan (fun _ => checked env.toEnv w) w answer structured

theorem wp_optimizerWake_cleared (h : Suspended origin (.optimizing frame structured) w)
    (haccepts : structured.await.accepts w answer = true)
    (hbalanced : Balanced env.execution w.bill) :
    wp (optimizerWake env frame structured answer) w
      (fun pc w' =>
        Rests env.execution w.bill .optimizer (structured.owes + reportedResult answer)
          (lostByPlan env w frame structured answer) w' pc)
      fun _ w' =>
        Cleared env.execution w.bill .optimizer (structured.owes + reportedResult answer) 0
          (lostByPlan env w frame structured answer) w' := by
  have hw := h.sound
  obtain ⟨hat, hlive, hcurrent, _⟩ := h.pc
  have hvalid : ValidIteration frame.state.currentIteration := by
    rw [hcurrent.iteration]
    exact hw.iteration
  unfold optimizerWake lostByPlan
  cases frame.state.latestEvaluation with
  | none => exact .idle hbalanced rfl (zero_add _)
  | some evaluation =>
    have hkeeping : Keeping World.meter (structuredWake env.toEnv env.revisionPlan
        (planCall frame.state evaluation) (planRepair frame.state) answer structured) :=
      keeping_structuredWake (overlooks_meter _) fun _ => overlooks_meter _
    dsimp only [Option.isNone_some]
    rw [if_neg Bool.false_ne_true, wp_bind]
    apply wp_keeping hkeeping (wp_structuredWake_owes (fun _ => checked env.toEnv w) haccepts)
    . intro outcome w1 hends hmeter1
      have hbill1 : w1.bill = w.bill := congrArg Prod.fst hmeter1
      cases outcome with
      | inl structured' => exact ⟨trivial, _, rfl, .idle hbalanced hbill1 hends⟩
      | inr returned =>
        obtain ⟨result, plan⟩ := returned
        obtain ⟨rfl, husage, hlost⟩ := hends
        rw [hlost, ← husage]
        apply wp_mono (wp_commitPlan_meter hw hat hlive hvalid hbalanced)
        . rintro pc w2 ⟨hchecked, rfl, hcharged⟩
          refine ⟨trivial, 0, (Pi.single_zero _).symm, result.usage, hcharged, ?_⟩
          rw [if_pos hchecked, add_zero, add_zero]
        . rintro exn w2 ⟨hchecked, hbill2⟩
          apply Cleared.idle hbalanced hbill2
          rw [hchecked, if_neg Bool.false_ne_true, zero_add]
    . intro exn w1 hlost hmeter1
      apply Cleared.idle hbalanced (congrArg Prod.fst hmeter1)
      rw [hlost, zero_add]

end Nodes

section Step

-- The usage that the provider reports with a step, and the part of what is known that the step loses.
def reported : Label → Node → TokenUsage
  | .generatorWake answer => Pi.single .generator (reportedEvent answer)
  | .reviewerWake role answer => Pi.single role.node (reportedResult answer)
  | .optimizerWake answer => Pi.single .optimizer (reportedResult answer)
  | _ => 0

def lostByReviewer (env : WorkflowEnv) (w : World) (role : ReviewRole)
    (answer : Answer ProviderStructuredResult) : ReviewerPc → TokenUsage
  | .suspended _ structured =>
    lostByCall env.roleReview (storesReview env.toEnv w role) w answer structured
  | _ => 0

-- The failure of one reviewer ends the others where they are.
def lost (env : WorkflowEnv) (c : Config) : Label → Node → TokenUsage
  | .generatorWake answer =>
    match c.pc with
    | .generating frame => Pi.single .generator (lostByAttempt env.toEnv c.world frame answer)
    | _ => 0
  | .reviewerWake role answer =>
    match c.pc with
    | .reviewing reviewers =>
      Pi.single role.node (lostByReviewer env c.world role answer (reviewers role))
    | _ => 0
  | .reviewersFail _ => c.pc.owed
  | .optimizerWake answer =>
    match c.pc with
    | .optimizing frame structured =>
      Pi.single .optimizer (lostByPlan env c.world frame structured answer)
    | _ => 0
  | _ => 0

-- What has been reported and is not lost.
def known (c : Config) : Node → TokenUsage :=
  c.world.bill.tokens + c.pc.owed

structure Accounted (env : WorkflowEnv) (c : Config) : Prop where
  inv : Inv c
  balanced : Balanced env.execution c.world.bill
  recorded : c.pc.Recorded c.world

-- What a step of the account leaves.
structure Posts (execution : RunExecution) (before : Node → TokenUsage) (inflow outflow : Node → TokenUsage)
    (c : Config) : Prop where
  balanced : Balanced execution c.world.bill
  recorded : c.pc.Recorded c.world
  known : known c + outflow = before + inflow

variable {env : WorkflowEnv} {w : World} {node : Node} {due gone : TokenUsage}
  {program : Prog World Exn Pc}

theorem Cleared.single {execution : RunExecution} {bill : Bill} {owes : TokenUsage}
    (h : Cleared execution bill node due owes gone w) :
    w.bill.tokens + Pi.single node owes + Pi.single node gone
      =
    bill.tokens + Pi.single node due := by
  obtain ⟨paid, hcharged, hdue⟩ := h
  rw [hcharged.tokens, add_assoc, add_assoc, ← Pi.single_add, ← Pi.single_add, ← add_assoc paid, hdue]

theorem Cleared.balanced {execution : RunExecution} {bill : Bill} {owes : TokenUsage}
    (h : Cleared execution bill node due owes gone w) : Balanced execution w.bill := by
  obtain ⟨paid, hcharged, _⟩ := h
  exact hcharged.balanced

theorem posts_runTask {env : Env} {pc : Pc} {owes inflow : TokenUsage}
    (howes : pc.owed = Pi.single node owes)
    (h : wp program w (fun pc w' => Rests env.execution w.bill node (owes + inflow) gone w' pc)
      fun _ w' => Cleared env.execution w.bill node (owes + inflow) 0 gone w') :
    Posts env.execution (known { world := w, pc }) (Pi.single node inflow) (Pi.single node gone)
      (runTask env program w) := by
  unfold known
  dsimp only
  rw [howes]
  rcases runTask_cases World.bill h with ⟨hrecorded, owes', howed, hcleared⟩ | hfailed
  . refine { balanced := hcleared.balanced, recorded := hrecorded, known := ?_ }
    unfold Workflow.known
    rw [howed, hcleared.single, Pi.single_add, add_assoc]
  . obtain ⟨w1, exn, hcleared, hbill, hpc⟩ := hfailed
    replace hcleared := hcleared.congr hbill
    refine { balanced := hcleared.balanced, recorded := ?_, known := ?_ }
    . rw [hpc]
      trivial
    . unfold Workflow.known
      rw [hpc]
      have hsingle := hcleared.single
      rw [Pi.single_zero, Pi.single_add, ← add_assoc] at hsingle
      exact hsingle

-- The nodes and the parts of nodes that bill nothing.
def Quiet (pc : Pc) : Prop :=
  pc.owed = 0 ∧ ∀ w, pc.Recorded w

theorem quiet_of_place {pc : Pc}
    (h : place pc ≠ .generating ∧ place pc ≠ .reviewing ∧ place pc ≠ .optimizing) : Quiet pc := by
  cases pc with
  | generating frame => exact absurd rfl h.1
  | reviewing reviewers => exact absurd rfl h.2.1
  | optimizing frame structured => exact absurd rfl h.2.2
  | _ => exact ⟨rfl, fun _ => trivial⟩

theorem Goes.quiet {places : List Place} (h : Goes places program)
    (hplaces : ∀ p ∈ places, p ≠ .generating ∧ p ≠ .reviewing ∧ p ≠ .optimizing) :
    Returns Quiet program :=
  Returns.mono h fun _ hpc => quiet_of_place (hplaces _ hpc)

theorem posts_quiet {env : Env} {pc : Pc} (howed : pc.owed = 0)
    (hkeeping : Keeping World.bill program) (hquiet : Returns Quiet program)
    (hbalanced : Balanced env.execution w.bill) :
    Posts env.execution (known { world := w, pc }) 0 0 (runTask env program w) := by
  have hnone : pc.owed = Pi.single .aggregator 0 := by
    rw [howed, Pi.single_zero]
  have hrests : wp program w
      (fun pc w' => Rests env.execution w.bill .aggregator (0 + 0) 0 w' pc)
      fun _ w' => Cleared env.execution w.bill .aggregator (0 + 0) 0 0 w' := by
    apply wp_keeping hkeeping (hquiet w)
    . rintro pc w1 ⟨howed, hrecorded⟩ hbill
      refine ⟨hrecorded w1, 0, ?_, .idle hbalanced hbill rfl⟩
      rw [Pi.single_zero]
      exact howed
    . intro _ w1 _ hbill
      exact .idle hbalanced hbill rfl
  have hposts := posts_runTask hnone hrests
  rw [Pi.single_zero] at hposts
  exact hposts

theorem quiet_startOptimizer {env : Env} : Returns Quiet (startOptimizer env) := by
  unfold startOptimizer
  apply Returns.bind
  intro started
  apply Returns.bind
  intro _
  apply Returns.bind
  intro w
  split
  . exact .throw _
  . intro w1
    rw [wp_bind]
    apply wp_mono (returns_structuredCall w1)
    . intro structured w2 howes
      refine ⟨?_, fun _ => trivial⟩
      change (Pi.single Node.optimizer structured.owes : Node → TokenUsage) = 0
      rw [howes, Pi.single_zero]
    . intro _ _ _
      trivial

theorem quiet_parked {staged : Bool} : Quiet (.optimizerParked staged) :=
  ⟨rfl, fun _ => trivial⟩

theorem quiet_stageOptimizer {env : Env} : Returns Quiet (stageOptimizer env) := by
  unfold stageOptimizer
  apply Returns.bind
  intro stage
  split
  . apply Returns.bind
    intro _
    exact .pure quiet_parked
  . exact quiet_startOptimizer

theorem quiet_optimizerNode {env : Env} : Returns Quiet (optimizerNode env) := by
  unfold optimizerNode
  apply Returns.bind
  intro _
  apply Returns.bind
  intro w
  split
  . apply Returns.bind
    intro _
    exact .pure quiet_parked
  . exact quiet_stageOptimizer

theorem quiet_optimizerUnpark {env : Env} {staged : Bool} :
    Returns Quiet (optimizerUnpark env staged) := by
  unfold optimizerUnpark
  apply Returns.bind
  intro _
  split
  . apply Returns.bind
    intro _
    exact quiet_startOptimizer
  . exact quiet_stageOptimizer

theorem reviewersOwe_node {reviewers : ReviewRole → ReviewerPc} (role : ReviewRole) :
    reviewersOwe reviewers role.node = (reviewers role).owes := by
  cases role <;> rfl

theorem reviewersOwe_update {reviewers : ReviewRole → ReviewerPc} {role : ReviewRole}
    {pc : ReviewerPc} (hne : node ≠ role.node) :
    reviewersOwe (Function.update reviewers role pc) node = reviewersOwe reviewers node := by
  cases role <;> cases node <;> first | contradiction | rfl

theorem posts_runReviewer {env : Env} {reviewers : ReviewRole → ReviewerPc} {role : ReviewRole}
    {program : Prog World Exn ReviewerPc} {inflow outflow : TokenUsage}
    (h : wp program w
      (fun pc w' =>
        Cleared env.execution w.bill role.node ((reviewers role).owes + inflow) pc.owes outflow w')
      fun _ w' =>
        Cleared env.execution w.bill role.node ((reviewers role).owes + inflow) 0 outflow w') :
    Posts env.execution (known { world := w, pc := .reviewing reviewers })
      (Pi.single role.node inflow) (Pi.single role.node outflow)
      (runReviewer role reviewers program w) := by
  have hpc : ∀ pc w', Cleared env.execution w.bill role.node ((reviewers role).owes + inflow)
      pc.owes outflow w' →
        Posts env.execution (known { world := w, pc := .reviewing reviewers })
          (Pi.single role.node inflow) (Pi.single role.node outflow)
          { world := w', pc := .reviewing (Function.update reviewers role pc) } := by
    intro pc w' hcleared
    refine { balanced := hcleared.balanced, recorded := trivial, known := ?_ }
    funext node
    have hsingle := congrFun hcleared.single node
    unfold known Pc.owed
    simp only [Pi.add_apply] at hsingle ⊢
    by_cases hnode : node = role.node
    . subst hnode
      simp only [Pi.single_eq_same] at hsingle ⊢
      rw [reviewersOwe_node, reviewersOwe_node, Function.update_self, hsingle, add_assoc]
    . simp only [Pi.single_eq_of_ne hnode, add_zero] at hsingle ⊢
      rw [reviewersOwe_update hnode, hsingle]
  unfold runReviewer
  unfold wp at h
  split
  . next heq =>
    rw [heq] at h
    exact hpc _ _ h
  . next exn _ heq =>
    rw [heq] at h
    exact hpc (.raised exn) _ h

theorem posts_stepReviewer {reviewers : ReviewRole → ReviewerPc} {label : Label} {c' : Config}
    (h : Accounted env { world := w, pc := .reviewing reviewers })
    (hstep : stepReviewer env w reviewers label = some c') :
    Posts env.execution (known { world := w, pc := .reviewing reviewers }) (reported label)
      (lost env { world := w, pc := .reviewing reviewers } label) c' := by
  have hw : Sound w w := h.inv.sound
  have hbalanced : Balanced env.execution w.bill := h.balanced
  obtain ⟨hat, hlive, hreviewers⟩ := h.inv.pc
  cases label with
  | reviewerEnter role =>
    dsimp only [stepReviewer] at hstep
    split at hstep
    . next hready =>
      cases hstep
      have hkeeping : Keeping World.bill (reviewerNode env.toEnv role) :=
        keeping_reviewerNode fun _ _ => rfl
      have hnone : Returns (fun pc : ReviewerPc => pc.owes = 0) (reviewerNode env.toEnv role) := by
        unfold reviewerNode
        apply Returns.bind
        intro _
        apply Returns.bind
        intro started
        apply Returns.bind
        intro _
        apply Returns.bind
        intro w1 w2
        rw [wp_bind]
        apply wp_mono (returns_structuredCall w2)
        . intro structured _ howes
          exact howes
        . intro _ _ _
          trivial
      have hposts : Posts env.execution (known { world := w, pc := .reviewing reviewers })
          (Pi.single role.node 0) (Pi.single role.node 0)
          (runReviewer role reviewers (reviewerNode env.toEnv role) w) := by
        apply posts_runReviewer
        rw [hready]
        apply wp_keeping hkeeping (hnone w)
        . intro pc w1 howes hbill
          rw [howes]
          exact .idle hbalanced hbill rfl
        . intro _ w1 _ hbill
          exact .idle hbalanced hbill rfl
      rw [Pi.single_zero] at hposts
      exact hposts
    . contradiction
  | reviewerWake role answer =>
    dsimp only [stepReviewer] at hstep
    split at hstep
    . next frame structured hsuspended =>
      split at hstep
      . next haccepts =>
        cases hstep
        have hinv := hreviewers role
        rw [hsuspended] at hinv
        unfold reported lost
        dsimp only
        apply posts_runReviewer
        rw [hsuspended]
        exact wp_reviewerWake_cleared hw hat hlive hinv haccepts hbalanced
      . contradiction
    . contradiction
  | reviewersJoin =>
    dsimp only [stepReviewer] at hstep
    split at hstep
    . next hdone =>
      cases hstep
      have hnone : reviewersOwe reviewers = 0 := by
        apply reviewersOwe_eq_zero
        intro role
        simp only [Bool.and_eq_true] at hdone
        have hrole : (reviewers role).isDone = true := by
          cases role with
          | tech => exact hdone.1.1
          | ux => exact hdone.1.2
          | biz => exact hdone.2
        cases hpc : reviewers role with
        | done => rfl
        | _ =>
          rw [hpc] at hrole
          contradiction
      refine { balanced := hbalanced, recorded := trivial, known := ?_ }
      unfold known Pc.owed
      dsimp only
      rw [hnone]
      rfl
    . contradiction
  | reviewersFail role =>
    dsimp only [stepReviewer] at hstep
    split at hstep
    . next exn _ =>
      cases hstep
      have hnone : (Pc.finished none).owed = 0 := rfl
      have hposts := posts_quiet hnone (.throw exn) (.throw exn) hbalanced
      have hknown := hposts.known
      unfold known at hknown
      dsimp only at hknown
      rw [hnone, add_zero, add_zero, add_zero] at hknown
      refine { hposts with known := ?_ }
      unfold known reported
      rw [hknown]
      exact (add_zero _).symm
    . contradiction
  | _ => contradiction

theorem keeping_resumeRun_meter {env : Env} {userOverride : Option String} :
    Keeping World.meter (resumeRun env userOverride) := by
  have hmutation : Keeping RunSnapshot.bill (resumeMutation userOverride) :=
    keeping_resumeMutation fun _ => rfl
  unfold resumeRun
  apply Keeping.bind .get
  intro w
  split
  . apply Keeping.bind
    . unfold popPaused
      apply Keeping.bind .get
      intro w1
      split
      . exact .pure _
      . apply Keeping.bind keeping_monotonic
        intro now
        exact .modify fun _ => rfl
    . intro _
      dsimp only
      apply Keeping.bind (keeping_commit_meter hmutation)
      intro result
      apply Keeping.bind
      . exact .modify fun _ => rfl
      . intro _
        exact .pure _
  . exact .throw _

theorem step_request_meter {c c' : Config} {label : Label} (hlabel : label.isRequest = true)
    (hstep : step env c label = some c') : c'.world.meter = c.world.meter := by
  cases label with
  | requestPause =>
    cases hstep
    exact keeping_requestPause.run c.world
  | cancelRun =>
    cases hstep
    exact keeping_cancelRun.run c.world
  | resumeRun userOverride =>
    cases hstep
    exact keeping_resumeRun_meter.run c.world
  | _ => contradiction

theorem posts_request {c c' : Config} {label : Label} (h : Accounted env c)
    (hlabel : label.isRequest = true) (hstep : step env c label = some c') :
    Posts env.execution (known c) (reported label) (lost env c label) c' := by
  obtain ⟨hbill, hrecord⟩ := Prod.ext_iff.mp (step_request_meter hlabel hstep)
  dsimp only [World.meter] at hbill hrecord
  have hpc := step_request hlabel hstep
  have hnone : reported label = 0 ∧ lost env c label = 0 := by
    cases label with
    | requestPause | cancelRun | resumeRun => exact ⟨rfl, rfl⟩
    | _ => contradiction
  rw [hnone.1, hnone.2]
  exact {
    balanced := by
      rw [hbill]
      exact h.balanced
    recorded := by
      have hrecorded := h.recorded
      rw [hpc]
      cases hc : c.pc with
      | generating frame =>
        rw [hc] at hrecorded
        exact hrecord.trans hrecorded
      | _ => trivial
    known := by
      unfold known
      rw [hbill, hpc]
  }

theorem posts_stepTask {c c' : Config} {label : Label} (h : Accounted env c)
    (hstep : stepTask env c.world c.pc label = some c') :
    Posts env.execution (known c) (reported label) (lost env c label) c' := by
  obtain ⟨w, pc⟩ := c
  have hbalanced : Balanced env.execution w.bill := h.balanced
  have hsuspended : Suspended w pc w := h.inv
  have haggregate : ∀ evaluation bestScore bestVersion payload, Keeping World.bill
      (commit env.toEnv .none (modify (aggregate evaluation bestScore bestVersion))
        (some .scoresUpdated) payload) := by
    intro evaluation bestScore bestVersion payload
    exact keeping_bill (keeping_commit_withCalls aside_bill.toStampless (.modify fun _ => rfl))
  dsimp only at hstep
  unfold stepTask at hstep
  split at hstep
  . cases hstep
    exact posts_quiet rfl keeping_begin (goes_begin.quiet (by simp)) hbalanced
  . cases hstep
    have hnone : Pc.toGenerator.owed = Pi.single .generator 0 := (Pi.single_zero _).symm
    have hmeters : Meters env.toEnv w.bill (0 + 0) 0 (generatorNode env.toEnv) w := by
      rw [add_zero]
      exact meters_generatorNode hsuspended hbalanced
    have hposts := posts_runTask hnone hmeters
    rw [Pi.single_zero] at hposts
    exact hposts
  . split at hstep
    . next haccepts =>
      cases hstep
      apply posts_runTask rfl
      exact meters_generatorWake hsuspended haccepts hbalanced h.recorded
    . contradiction
  . exact posts_stepReviewer h hstep
  . cases hstep
    exact posts_quiet rfl (keeping_aggregatorNode haggregate) (goes_aggregatorNode.quiet (by simp))
      hbalanced
  . split at hstep
    . cases hstep
      exact posts_quiet rfl keeping_aggregatorWake (goes_aggregatorWake.quiet (by simp)) hbalanced
    . contradiction
  . cases hstep
    exact posts_quiet rfl keeping_routeAfterAggregate (goes_routeAfterAggregate.quiet (by simp))
      hbalanced
  . cases hstep
    exact posts_quiet rfl (keeping_optimizerNode fun _ _ _ => rfl) quiet_optimizerNode hbalanced
  . split at hstep
    . cases hstep
      exact posts_quiet rfl (keeping_optimizerUnpark fun _ _ _ => rfl) quiet_optimizerUnpark hbalanced
    . contradiction
  . split at hstep
    . next haccepts =>
      cases hstep
      apply posts_runTask rfl
      exact wp_optimizerWake_cleared hsuspended haccepts hbalanced
    . contradiction
  . contradiction

-- One step conserves what the provider has reported.
theorem Accounted.step {c c' : Config} {label : Label} (h : Accounted env c)
    (hstep : Workflow.step env c label = some c') :
    Accounted env c' ∧ known c' + lost env c label = known c + reported label := by
  have hposts : Posts env.execution (known c) (reported label) (lost env c label) c' := by
    cases hlabel : label.isRequest with
    | true => exact posts_request h hlabel hstep
    | false => exact posts_stepTask h (step_stepTask hlabel hstep)
  exact ⟨⟨(Keeps.step h.inv hstep).inv, hposts.balanced, hposts.recorded⟩, hposts.known⟩

end Step

section Run

-- What a step is told of the usage, and what it loses of it.
structure Flow where
  reported : Node → TokenUsage
  lost : Node → TokenUsage

def flow (env : WorkflowEnv) (c : Config) (label : Label) (_ : Config) : List Flow :=
  [{ reported := reported label, lost := lost env c label }]

variable {env : WorkflowEnv} {runId : RunId} {request : CreateRunRequest} {outputLanguage : String}
  {bufferSize : Nat} {c : Config} {flows : List Flow}

theorem flow_sum (c : Config) (label : Label) (c' : Config) :
    ((flow env c label c').map Flow.reported).sum = reported label
      ∧ ((flow env c label c').map Flow.lost).sum = lost env c label := by
  constructor
  . exact List.sum_singleton
  . exact List.sum_singleton

theorem accounted_init : Accounted env (init env.toEnv runId request outputLanguage bufferSize) :=
  {
    inv := .init
    balanced := {
      total := rfl
      timed := rfl
      cost := .inl ⟨rfl, rfl⟩
      costAvailable := rfl
    }
    recorded := trivial
  }

theorem accounted_run {O : Type} {shows : Config → Label → Config → List O}
    {inflow outflow : O → Node → TokenUsage} {os : List O}
    (hrun : Traced (step env) always shows
      (init env.toEnv runId request outputLanguage bufferSize) os c)
    (hshows : ∀ c label c',
      ((shows c label c').map inflow).sum = reported label
        ∧ ((shows c label c').map outflow).sum = lost env c label) :
    Accounted env c ∧ known c + (os.map outflow).sum = (os.map inflow).sum := by
  have hboth : Accounted env c
      ∧ Conserves known inflow outflow (init env.toEnv runId request outputLanguage bufferSize) c os := by
    apply hrun.conserves accounted_init
    intro c1 label c2 h1 _ hstep
    obtain ⟨h2, hknown⟩ := h1.step hstep
    obtain ⟨hinflow, houtflow⟩ := hshows c1 label c2
    refine ⟨h2, ?_⟩
    unfold Conserves
    rw [hinflow, houtflow]
    exact hknown
  refine ⟨hboth.1, ?_⟩
  have hconserves := hboth.2
  have hnone : known (init env.toEnv runId request outputLanguage bufferSize) = 0 := rfl
  unfold Conserves at hconserves
  rw [hnone, zero_add] at hconserves
  exact hconserves

-- The usage of all nodes.
def overall : (Node → TokenUsage) →+ TokenUsage where
  toFun usage := (Node.all.map usage).sum
  map_zero' := rfl
  map_add' usage usage' := by
    unfold Node.all
    simp
    abel

theorem overall_eq_zero {usage : Node → TokenUsage} : overall usage = 0 ↔ usage = 0 := by
  change (Node.all.map usage).sum = 0 ↔ usage = 0
  rw [TokenUsage.sum_eq_zero, List.forall_mem_map]
  constructor
  . intro h
    funext node
    exact h node (Node.mem_all node)
  . intro h node _
    rw [h]
    rfl

-- The total has what has been reported, apart from what the tasks hold, if no step has lost any of it.
theorem Accounted.total_iff {O : Type} {inflow outflow : O → Node → TokenUsage} {os : List O}
    (h : Accounted env c) (hknown : known c + (os.map outflow).sum = (os.map inflow).sum) :
    c.world.snapshot.totalTokens + overall c.pc.owed = (os.map fun o => overall (inflow o)).sum
      ↔ ∀ o ∈ os, outflow o = 0 := by
  have hsum : ∀ g : O → Node → TokenUsage,
      overall (os.map g).sum = (os.map fun o => overall (g o)).sum := by
    intro g
    rw [map_list_sum, List.map_map]
    rfl
  have htotal : overall (known c) = c.world.snapshot.totalTokens + overall c.pc.owed := by
    unfold known
    rw [map_add]
    exact congrArg (· + overall c.pc.owed) h.balanced.total.symm
  have hoverall := congrArg overall hknown
  rw [map_add, hsum, hsum, htotal] at hoverall
  rw [← hoverall, eq_comm, TokenUsage.add_eq_left, TokenUsage.sum_eq_zero, List.forall_mem_map]
  simp only [overall_eq_zero]

/--
What the snapshot tells of the usage agrees in all its places, and what it does not tell of the
reports is either held by a task or lost by one of the steps.
-/
structure Billed (env : WorkflowEnv) (flows : List Flow) (c : Config) : Prop where
  balanced : Balanced env.execution c.world.snapshot.bill
  reports :
    ∀ node, c.world.snapshot.bill.tokens node + c.pc.owed node
        + (flows.map fun flow => flow.lost node).sum
      = (flows.map fun flow => flow.reported node).sum
  complete :
    (∃ exn, c.pc = .finished exn) →
      (c.world.snapshot.totalTokens = (flows.map fun flow => overall flow.reported).sum
        ↔ ∀ flow ∈ flows, flow.lost = 0)

theorem billing
    (hrun : Traced (step env) always (flow env)
      (init env.toEnv runId request outputLanguage bufferSize) flows c) :
    Billed env flows c := by
  obtain ⟨hc, hknown⟩ := accounted_run hrun flow_sum
  exact {
    balanced := hc.balanced
    reports := by
      intro node
      have hnode := congrArg (Pi.evalAddMonoidHom (fun _ => TokenUsage) node) hknown
      rw [map_add, map_list_sum, map_list_sum, List.map_map, List.map_map] at hnode
      exact hnode
    complete := by
      rintro ⟨exn, hpc⟩
      have hnone : overall c.pc.owed = 0 := by
        rw [hpc]
        rfl
      rw [← hc.total_iff hknown, hnone, add_zero]
  }

-- A reviewer whose answer has to be repaired, and whose repaired answer cannot be read either.
def repairedInVain : List Label :=
  [
    .begin,
    .enterGenerator,
    .generatorWake (.returned (some {
      delta := "# PRD\n<!-- PRD_COMPLETE -->\n"
      usage := some (.ofTokens 10 20)
      finishReason := some "stop"
    })),
    .generatorWake (.returned none),
    .reviewerEnter .tech,
    .reviewerWake .tech (.returned { value := .null, usage := .ofTokens 3 4 }),
    .reviewerWake .tech (.returned { value := .null, usage := .ofTokens 5 6 }),
    .reviewersFail .tech
  ]

theorem billing_repairedInVain :
    ∃ flows c,
      trace (step answeringWorkflow) (flow answeringWorkflow) [] answeringInit repairedInVain
          = some (flows, c)
        ∧ c.world.snapshot.totalTokens = .ofTokens 10 20
        ∧ (flows.map fun flow => overall flow.lost).sum = .ofTokens 8 10
        ∧ Billed answeringWorkflow flows c := by
  have hshown :
      (trace (step answeringWorkflow) (flow answeringWorkflow) [] answeringInit repairedInVain).map
          (fun shown =>
            (shown.2.world.snapshot.totalTokens, (shown.1.map fun flow => overall flow.lost).sum))
        = some (.ofTokens 10 20, .ofTokens 8 10) := by decide +kernel
  obtain ⟨⟨flows, c⟩, htrace, hboth⟩ := Option.map_eq_some_iff.mp hshown
  obtain ⟨htotal, hlost⟩ := Prod.ext_iff.mp hboth
  exact ⟨flows, c, htrace, htotal, hlost, billing (Traced.of_trace .refl (allowed_always _) htrace)⟩

end Run

end Workflow

end AgenticPrd
