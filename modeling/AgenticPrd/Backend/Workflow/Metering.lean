import AgenticPrd.Backend.Workflow.Bill
import AgenticPrd.Backend.Workflow.Cancellation

/-!
What the generator bills of the usage that the provider reports to it. The record of an attempt
carries the last report to whichever place bills it; what the loop does not catch is not billed.
-/

namespace AgenticPrd

def GeneratorFrame.spent (frame : GeneratorFrame) : TokenUsage :=
  frame.usage.getD 0

def ProviderTextEvent.spent (event : ProviderTextEvent) : TokenUsage :=
  event.usage.getD 0

-- The report that an attempt leaves unbilled where it raises.
def GeneratorFrame.unbilled (frame : GeneratorFrame) (exn : Exn) : TokenUsage :=
  if exn.isRetried then 0 else frame.spent

-- The report that a structured call holds while its answer is being repaired.
def StructuredPc.owes : StructuredPc → TokenUsage
  | .calling _ _ => 0
  | .repairing result _ => result.usage

def ReviewerPc.owes : ReviewerPc → TokenUsage
  | .suspended _ structured => structured.owes
  | _ => 0

-- The record has what the frame of the attempt has.
def Pc.Recorded (w : World) : Pc → Prop
  | .generating frame => w.record.usage = frame.usage
  | _ => True

def reviewersOwe (reviewers : ReviewRole → ReviewerPc) : Node → TokenUsage
  | .techReviewer => (reviewers .tech).owes
  | .uxReviewer => (reviewers .ux).owes
  | .bizReviewer => (reviewers .biz).owes
  | _ => 0

-- The reports that the tasks hold and have not come to billing.
def Pc.owed : Pc → Node → TokenUsage
  | .generating frame => Pi.single .generator frame.spent
  | .reviewing reviewers => reviewersOwe reviewers
  | .optimizing _ structured => Pi.single .optimizer structured.owes
  | _ => 0

theorem reviewersOwe_eq_zero {reviewers : ReviewRole → ReviewerPc}
    (h : ∀ role, (reviewers role).owes = 0) : reviewersOwe reviewers = 0 := by
  funext node
  cases node with
  | techReviewer => exact h .tech
  | uxReviewer => exact h .ux
  | bizReviewer => exact h .biz
  | _ => rfl

namespace Workflow

open RunManager Prog

-- Whether the cancel check lets the node go on.
def checked (env : Env) (w : World) : Bool :=
  match (checkCancel env).run w with
  | (.ok _, _) => true
  | (.error _, _) => false

def reportedEvent : Answer (Option ProviderTextEvent) → TokenUsage
  | .returned (some event) => event.spent
  | _ => 0

-- The flush of a text comes before the report that arrives with it, and a report replaces the one
-- before it.
def lostByEvent (env : Env) (w : World) (frame : GeneratorFrame) (event : ProviderTextEvent) :
    TokenUsage :=
  match (flush env (received frame event) (env.clock w.ticks)).run w.tick with
  | (.error exn, _) => frame.unbilled exn + event.spent
  | (.ok _, _) => if event.usage.isSome then frame.spent else 0

-- The check before the version is stored stands outside the loop.
def lostByEnd (env : Env) (w : World) (frame : GeneratorFrame) : TokenUsage :=
  match (endStream env frame).run w with
  | (.error exn, _) => frame.unbilled exn
  | (.ok _, w') => if checked env w' then 0 else frame.spent

-- What an attempt does not bill of the reports it has.
def lostByAttempt (env : Env) (w : World) (frame : GeneratorFrame)
    (answer : Answer (Option ProviderTextEvent)) : TokenUsage :=
  match (awaitResult frame.await answer).run w with
  | (.error exn, _) => frame.unbilled exn
  | (.ok none, _) => lostByEnd env w frame
  | (.ok (some event), _) => lostByEvent env w frame event

/--
A node has cleared what it had to account for: it has billed some of it, it still owes some, and some
is lost.
-/
def Cleared (execution : RunExecution) (bill : Bill) (node : Node) (due owes lost : TokenUsage)
    (w : World) : Prop :=
  ∃ paid, Charged execution bill node paid w.bill ∧ paid + owes + lost = due

variable {env : Env} {origin w : World} {state : RunSnapshot} {plan : Option RevisionPlan}
  {attempt : Nat} {bill : Bill} {node : Node} {due owes lost : TokenUsage}

theorem Cleared.congr {execution : RunExecution} {w' : World}
    (h : Cleared execution bill node due owes lost w) (hbill : w'.bill = w.bill) :
    Cleared execution bill node due owes lost w' := by
  unfold Cleared
  rw [hbill]
  exact h

theorem Cleared.idle {execution : RunExecution} (h : Balanced execution bill)
    (hbill : w.bill = bill) (hdue : owes + lost = due) :
    Cleared execution bill node due owes lost w := by
  refine ⟨0, ?_, ?_⟩
  . rw [hbill]
    exact .refl h
  . rw [zero_add, hdue]

theorem wp_checked (env : Env) (w : World) :
    wp (checkCancel env) w (fun _ _ => checked env w = true) fun _ _ => checked env w = false := by
  unfold wp checked
  split
  . next heq => rw [heq]
  . next heq => rw [heq]

theorem wp_checkCancel_meter {Q : Unit → World → Prop} {E : Exn → World → Prop}
    (hw : Sound origin w) (hsteady : Steady w.view)
    (hE : ∀ exn w', Raised origin exn w' → w'.view = w.view → w'.meter = w.meter →
      checked env w = false → E exn w')
    (hQ : checked env w = true → w.cancelSignal = false → ∀ w', Sound origin w' →
      w'.view = w.view → w'.meter = w.meter → Q () w') :
    wp (checkCancel env) w Q E := by
  have hsound : wp (checkCancel env) w
      (fun _ w' => w.cancelSignal = false ∧ Sound origin w' ∧ w'.view = w.view)
      fun exn w' => Raised origin exn w' ∧ w'.view = w.view := by
    apply wp_checkCancel_sound hw hsteady
    . intro exn w' hraised hview
      exact ⟨hraised, hview⟩
    . intro hcancel w' hw' hview
      exact ⟨hcancel, hw', hview⟩
  have hmeter : Keeping World.meter (checkCancel env) := keeping_checkCancel
  apply wp_keeping hmeter (wp_and hsound (wp_checked env w))
  . rintro _ w' ⟨⟨hcancel, hw', hview⟩, hchecked⟩ hmeter'
    exact hQ hchecked hcancel w' hw' hview hmeter'
  . rintro exn w' ⟨⟨hraised, hview⟩, hchecked⟩ hmeter'
    exact hE exn w' hraised hview hmeter' hchecked

-- A wait that the check does not let begin settles later.
theorem wp_beginAwait_returns {call : Option ProviderCall} {Q : Await → World → Prop}
    {E : Exn → World → Prop} (hQ : ∀ await w', Q await w') : wp (beginAwait env call) w Q E := by
  unfold beginAwait
  rw [wp_tryCatch]
  apply wp_mono (wp_trivial _)
  . intro await w' _
    exact hQ await w'
  . intro _ w' _
    exact hQ _ w'

section Stream

variable {frame : GeneratorFrame}

theorem returns_flush_usage {now : ℚ} :
    Returns (fun flushed => flushed.usage = frame.usage) (flush env frame now) := by
  unfold flush
  intro w
  rw [wp_ite]
  split
  . apply Returns.bind
    intro _
    exact .pure rfl
  . rfl

theorem returns_endStream_usage :
    Returns (fun result => frame.usage = some result.2) (endStream env frame) := by
  unfold endStream
  intro w
  dsimp only
  cases frame.usage with
  | none =>
    rw [wp_ite]
    split
    . apply Returns.bind
      intro _
      apply Returns.bind
      intro validated
      exact .throw _
    . apply Returns.bind
      intro validated
      exact .throw _
  | some usage =>
    rw [wp_ite]
    split
    . apply Returns.bind
      intro _
      apply Returns.bind
      intro validated
      exact .pure rfl
    . apply Returns.bind
      intro validated
      exact .pure rfl

theorem wp_flush_lost {event : ProviderTextEvent} :
    wp (flush env (received frame event) (env.clock w.ticks)) w.tick
      (fun _ _ => lostByEvent env w frame event = if event.usage.isSome then frame.spent else 0)
      fun exn _ => lostByEvent env w frame event = frame.unbilled exn + event.spent := by
  unfold wp lostByEvent
  split
  . next heq => rw [heq]
  . next heq => rw [heq]

theorem wp_endStream_lost :
    wp (endStream env frame) w
      (fun _ w' => lostByEnd env w frame = if checked env w' then 0 else frame.spent)
      fun exn _ => lostByEnd env w frame = frame.unbilled exn := by
  unfold wp lostByEnd
  split
  . next heq => rw [heq]
  . next heq => rw [heq]

-- The record of the attempt has what the frame has.
theorem wp_noteUsage_meter {usage : Option TokenUsage} {E : Exn → World → Prop}
    (hw : Sound origin w) (hmeter : w.meter = (bill, frame.usage)) :
    wp (noteUsage usage frame) w
      (fun frame' w' =>
        Sound origin w' ∧ w'.view = w.view
          ∧ w'.meter = (bill, frame'.usage)
          ∧ frame'.spent + (if usage.isSome then frame.spent else 0)
            = frame.spent + usage.getD 0) E := by
  cases usage with
  | none => exact ⟨hw, rfl, hmeter, rfl⟩
  | some usage =>
    have hbill : w.bill = bill := congrArg Prod.fst hmeter
    refine ⟨?_, rfl, ?_, ?_⟩
    . exact hw.congr rfl rfl rfl rfl rfl rfl
    . exact congrArg (fun bill => (bill, some usage)) hbill
    . exact add_comm usage frame.spent

theorem wp_consumeEvent_meter {event : ProviderTextEvent} (hw : Sound origin w)
    (h : Generating w.view frame.state frame.attempt) (hattempt : 1 ≤ frame.attempt)
    (hmeter : w.meter = (bill, frame.usage)) :
    wp (consumeEvent env frame event) w
      (fun frame' w' =>
        Sound origin w' ∧ w'.view = w.view
          ∧ w'.meter = (bill, frame'.usage)
          ∧ frame'.spent + lostByEvent env w frame event = frame.spent + event.spent)
      fun exn w' =>
        Raised origin exn w' ∧ w'.view = w.view ∧ w'.meter = (bill, frame.usage)
          ∧ lostByEvent env w frame event = frame.unbilled exn + event.spent := by
  have htick : Sound origin w.tick := hw.congr rfl rfl rfl rfl rfl rfl
  have hreceived :
      Generating w.tick.view (received frame event).state (received frame event).attempt := h
  have hflush : wp (flush env (received frame event) (env.clock w.ticks)) w.tick
      (fun _ w' => Sound origin w' ∧ w'.view = w.view)
      fun exn w' => Raised origin exn w' ∧ w'.view = w.view := by
    apply wp_flush_sound htick hreceived hattempt
    . intro exn w' hraised hview
      exact ⟨hraised, hview⟩
    . intro _ w' _ hw' hview
      exact ⟨hw', hview⟩
  have hkeeping : Keeping World.meter (flush env (received frame event) (env.clock w.ticks)) :=
    keeping_flush
  unfold consumeEvent
  dsimp only
  rw [wp_bind, wp_monotonic, wp_bind]
  apply wp_keeping hkeeping (wp_and (wp_and hflush wp_flush_lost) (returns_flush_usage w.tick))
  . rintro flushed w1 ⟨⟨⟨hw1, hview1⟩, hlost⟩, husage⟩ hmeter1
    replace hmeter1 : w1.meter = (bill, flushed.usage) := by
      rw [hmeter1, husage]
      exact hmeter
    have hspent : flushed.spent = frame.spent := congrArg (fun usage => usage.getD 0) husage
    rw [wp_bind]
    apply wp_mono (wp_noteUsage_meter hw1 hmeter1)
    . rintro noted w2 ⟨hw2, hview2, hmeter2, hspent2⟩
      have hview := hview2.trans hview1
      rw [hlost]
      rw [hspent] at hspent2
      cases event.finishReason with
      | none => exact ⟨hw2, hview, hmeter2, hspent2⟩
      | some reason =>
        dsimp only
        rw [wp_ite]
        split
        . exact ⟨hw2, hview, hmeter2, hspent2⟩
        . exact ⟨hw2, hview, hmeter2, hspent2⟩
    . intro exn w2 hnever
      exact hnever
  . rintro exn w1 ⟨⟨⟨hraised, hview1⟩, hlost⟩, _⟩ hmeter1
    exact ⟨hraised, hview1, hmeter1.trans hmeter, hlost⟩

theorem wp_awaitEvent_retried :
    wp (awaitEvent env frame) w (fun _ _ => True) fun exn _ => exn.isRetried = true := by
  unfold awaitEvent
  rw [wp_bind, wp_monotonic]
  split
  . rfl
  . rw [wp_bind]
    apply wp_beginAwait_returns
    intro _ _
    trivial

-- What an attempt has noted where it suspends again or ends.
def Noticed (env : Env) (bill : Bill) (due lost : TokenUsage) :
    GeneratorFrame ⊕ (String × TokenUsage) → World → Prop
  | .inl frame, w => w.meter = (bill, frame.usage) ∧ frame.spent + lost = due
  | .inr (_, usage), w =>
    w.bill = bill ∧ (if checked env w then usage else 0) + lost = due

-- What is left of it where it raises: the loop bills the record, if it catches the exception.
def Broken (bill : Bill) (due lost : TokenUsage) (exn : Exn) (w : World) : Prop :=
  ∃ usage, w.meter = (bill, usage) ∧ (if exn.isRetried then usage.getD 0 else 0) + lost = due

theorem Broken.of_unbilled {exn : Exn} {more : TokenUsage} (hmeter : w.meter = (bill, frame.usage)) :
    Broken bill (frame.spent + more) (frame.unbilled exn + more) exn w := by
  refine ⟨frame.usage, hmeter, ?_⟩
  rw [← add_assoc]
  unfold GeneratorFrame.unbilled
  split
  . rw [add_zero]
    rfl
  . rw [zero_add]

theorem wp_endStream_meter (hw : Sound origin w)
    (h : Generating w.view frame.state frame.attempt) (hattempt : 1 ≤ frame.attempt)
    (hmeter : w.meter = (bill, frame.usage)) :
    wp (endStream env frame) w
      (fun result w' =>
        Sound origin w' ∧ w'.view = w.view
          ∧ Noticed env bill frame.spent (lostByEnd env w frame) (.inr result) w')
      fun exn w' =>
        Raised origin exn w' ∧ w'.view = w.view
          ∧ Broken bill frame.spent (lostByEnd env w frame) exn w' := by
  have hsound : wp (endStream env frame) w (fun _ w' => Sound origin w' ∧ w'.view = w.view)
      fun exn w' => Raised origin exn w' ∧ w'.view = w.view := by
    apply wp_endStream_sound hw h hattempt
    . intro exn w' hraised hview
      exact ⟨hraised, hview⟩
    . intro _ w' hw' hview
      exact ⟨hw', hview⟩
  have hkeeping : Keeping World.meter (endStream env frame) := keeping_endStream
  apply wp_keeping hkeeping (wp_and (wp_and hsound wp_endStream_lost) (returns_endStream_usage w))
  . rintro ⟨content, usage⟩ w1 ⟨⟨⟨hw1, hview1⟩, hlost⟩, husage⟩ hmeter1
    refine ⟨hw1, hview1, ?_, ?_⟩
    . exact congrArg Prod.fst (hmeter1.trans hmeter)
    . have hspent : frame.spent = usage := by
        unfold GeneratorFrame.spent
        rw [husage]
        rfl
      rw [hlost, hspent]
      split
      . rw [add_zero]
      . rw [zero_add]
  . rintro exn w1 ⟨⟨⟨hraised, hview1⟩, hlost⟩, _⟩ hmeter1
    refine ⟨hraised, hview1, ?_⟩
    rw [hlost, ← add_zero frame.spent, ← add_zero (frame.unbilled exn)]
    exact .of_unbilled (hmeter1.trans hmeter)

theorem wp_resumeStream_meter {answer : Answer (Option ProviderTextEvent)} (hw : Sound origin w)
    (h : Generating w.view frame.state frame.attempt) (hattempt : 1 ≤ frame.attempt)
    (hawait : AwaitInv w.view frame.await) (haccepts : frame.await.accepts w answer = true)
    (hmeter : w.meter = (bill, frame.usage)) :
    wp (resumeStream env frame answer) w
      (fun result w' =>
        Sound origin w' ∧ w'.view = w.view
          ∧ Noticed env bill (frame.spent + reportedEvent answer) (lostByAttempt env w frame answer)
            result w')
      fun exn w' =>
        Raised origin exn w' ∧ w'.view = w.view
          ∧ Broken bill (frame.spent + reportedEvent answer) (lostByAttempt env w frame answer)
            exn w' := by
  -- A wait that raises has been given no report.
  have hraise : ∀ exn, Raised origin exn w → reportedEvent answer = 0 →
      Raised origin exn w ∧ w.view = w.view
        ∧ Broken bill (frame.spent + reportedEvent answer) (frame.unbilled exn) exn w := by
    intro exn hraised hnone
    refine ⟨hraised, rfl, ?_⟩
    rw [hnone, ← add_zero (frame.unbilled exn)]
    exact .of_unbilled hmeter
  have hwait : wp (awaitResult frame.await answer) w (fun _ w' => w' = w)
      fun exn w' => Raised origin exn w' := by
    apply wp_awaitResult_sound hw h.steady _ hawait haccepts
    . intro _
      rfl
    . intro exn w' hraised _
      exact hraised
  unfold resumeStream lostByAttempt
  rw [wp_bind]
  cases hawaited : frame.await with
  | settling exn =>
    rw [hawaited] at haccepts hwait
    apply hraise exn hwait
    cases answer with
    | settled => rfl
    | _ => contradiction
  | waiting =>
    rw [hawaited] at haccepts hwait
    cases answer with
    | returned event =>
      cases event with
      | none =>
        change wp (endStream env frame >>= _) w _ _
        rw [wp_bind]
        have hdue : frame.spent + reportedEvent (.returned none) = frame.spent := add_zero _
        rw [hdue]
        apply wp_mono (wp_endStream_meter hw h hattempt hmeter)
        . rintro result w1 ⟨hw1, hview1, hnoted⟩
          exact ⟨hw1, hview1, hnoted⟩
        . intro exn w1 hbroken
          exact hbroken
      | some event =>
        change wp (consumeEvent env frame event >>= _) w _ _
        rw [wp_bind]
        apply wp_mono (wp_consumeEvent_meter hw h hattempt hmeter)
        . rintro consumed w1 ⟨hw1, hview1, hmeter1, hspent⟩
          have hsound : wp (awaitEvent env consumed) w1
              (fun frame' w' =>
                (∃ await, frame' = { consumed with await }) ∧ Sound origin w' ∧ w'.view = w1.view)
              fun exn w' => Raised origin exn w' ∧ w'.view = w1.view := by
            apply wp_awaitEvent_sound hw1
            . rw [hview1]
              exact h.steady
            . intro exn w' hraised hview
              exact ⟨hraised, hview⟩
            . intro await w' hw' hview _
              exact ⟨⟨await, rfl⟩, hw', hview⟩
          have hkeeping : Keeping World.meter (awaitEvent env consumed) := keeping_awaitEvent
          rw [wp_bind]
          apply wp_keeping hkeeping (wp_and hsound wp_awaitEvent_retried)
          . rintro _ w2 ⟨⟨⟨await, rfl⟩, hw2, hview2⟩, _⟩ hmeter2
            exact ⟨hw2, hview2.trans hview1, hmeter2.trans hmeter1, hspent⟩
          . rintro exn w2 ⟨⟨hraised, hview2⟩, hretried⟩ hmeter2
            refine ⟨hraised, hview2.trans hview1, consumed.usage, hmeter2.trans hmeter1, ?_⟩
            rw [if_pos hretried]
            exact hspent
        . rintro exn w1 ⟨hraised, hview1, hmeter1, hlost⟩
          refine ⟨hraised, hview1, ?_⟩
          change Broken bill _ (lostByEvent env w frame event) exn w1
          rw [hlost]
          exact .of_unbilled hmeter1
    | raised exn => exact hraise _ hwait rfl
    | timedOut => exact hraise _ hwait rfl
    | cancelled => exact hraise _ hwait rfl
    | settled => contradiction

end Stream

section Attempt

-- The reports of an attempt that the loop catches are billed, with the time it took.
theorem wp_attemptFailed_meter {exn : Exn} {usage : Option TokenUsage}
    (hfailing : Failing origin state attempt exn w) (hattempt : 1 ≤ attempt)
    (hbalanced : Balanced env.execution bill) (hmeter : w.meter = (bill, usage)) :
    wp (attemptFailed env state attempt exn) w
      (fun _ w' =>
        attempt < 2 ∧ Sound origin w' ∧ Generating w'.view state attempt
          ∧ Charged env.execution bill .generator (usage.getD 0) w'.bill)
      fun _ w' => Charged env.execution bill .generator (usage.getD 0) w'.bill := by
  have hw := hfailing.1.sound
  have hgenerating := hfailing.2
  obtain ⟨hbill, husage⟩ := Prod.ext_iff.mp hmeter
  dsimp only [World.meter] at hbill husage
  have hrest : ∀ w', Sound origin w' → w'.view = w.view →
      Charged env.execution bill .generator (usage.getD 0) w'.bill →
        wp (if 2 ≤ attempt then throw exn else pure () : Prog World Exn Unit) w'
          (fun _ w' =>
            attempt < 2 ∧ Sound origin w' ∧ Generating w'.view state attempt
              ∧ Charged env.execution bill .generator (usage.getD 0) w'.bill)
          fun _ w' => Charged env.execution bill .generator (usage.getD 0) w'.bill := by
    intro w' hw' hview hcharged
    rw [wp_ite]
    split
    . exact hcharged
    . refine ⟨by omega, hw', ?_, hcharged⟩
      rw [hview]
      exact hgenerating
  have htick : Sound origin w.tick := hw.congr rfl rfl rfl rfl rfl rfl
  unfold attemptFailed recordSeconds
  rw [wp_bind, wp_bind, wp_get, wp_bind, wp_monotonic, wp_pure, wp_bind, wp_get, wp_bind]
  apply wp_recordTiming_meter htick (hgenerating.validIteration hw) hattempt
  intro w1 hw1 hview1 hmeter1
  have htimed : w1.meter = (billTiming .generator (usage.getD 0) bill, usage) := by
    rw [hmeter1, ← husage, ← hbill]
    rfl
  obtain ⟨hbill1, husage1⟩ := Prod.ext_iff.mp htimed
  dsimp only [World.meter] at hbill1 husage1
  rw [wp_bind, wp_get]
  dsimp only
  rw [husage1]
  cases usage with
  | none =>
    apply hrest w1 hw1 hview1
    rw [hbill1, Option.getD_none, billTiming_zero]
    exact .refl hbalanced
  | some usage =>
    dsimp only
    rw [wp_bind]
    apply wp_recordUsage_meter hw1
    intro w2 hw2 hview2 hmeter2
    apply hrest w2 hw2 (hview2.trans hview1)
    have hbill2 : w2.bill
        = billUsage env.execution .generator usage w1.bill := congrArg Prod.fst hmeter2
    rw [hbill2, hbill1, Option.getD_some, ← billTiming_billUsage]
    exact hbalanced.charge .generator usage

theorem wp_commitVersion_meter {content : String} {usage : TokenUsage} (hw : Sound origin w)
    (h : Generating w.view state attempt) (hplan : plan = state.pendingRevisionPlan)
    (hattempt : 1 ≤ attempt) (hbalanced : Balanced env.execution w.bill) :
    wp (commitVersion env state plan attempt content usage) w
      (fun pc w' =>
        checked env w = true ∧ pc = .reviewing (fun _ => .ready)
          ∧ Charged env.execution w.bill .generator usage w'.bill)
      fun _ w' => checked env w = false ∧ w'.bill = w.bill := by
  have hvalid := h.validIteration hw
  unfold commitVersion recordSeconds
  rw [wp_bind]
  apply wp_checkCancel_meter hw h.steady
  . intro exn w' _ _ hmeter hchecked
    exact ⟨hchecked, congrArg Prod.fst hmeter⟩
  intro hchecked hcancel w1 hw1 hview1 hmeter1
  rw [wp_bind, wp_bind, wp_get, wp_bind, wp_monotonic, wp_pure, wp_bind, wp_utcNow]
  have hw2 : Sound origin w1.tick.tick := hw1.congr rfl rfl rfl rfl rfl rfl
  have hview2 : w1.tick.tick.view = w.view := hview1
  have hmeter2 : w1.tick.tick.meter = w.meter := hmeter1
  have hcancel2 : w1.tick.tick.cancelSignal = false := by
    rw [← hcancel]
    exact congrArg View.cancelSignal hview2
  have hgenerating : Generating w1.tick.tick.view state attempt := by
    rw [hview2]
    exact h
  obtain ⟨version, hsome, hversion, hcontent, hevaluation, hrevisionPlan⟩ :=
    PRDVersion.validate?_eq_some hvalid content (env.utc w1.tick.ticks) plan usage
  rw [hsome]
  dsimp only
  rw [wp_bind, wp_get, wp_bind]
  have hkeeping : ∀ cancelled, Keeping RunSnapshot.bill
      (finishGeneration cancelled version content attempt) := by
    intro cancelled
    unfold finishGeneration
    split
    . exact .throw _
    . exact .modify fun _ => rfl
  apply wp_keeping (Q := fun _ w' => Sound origin w' ∧ w'.view = addVersion version w.view)
    (E := fun _ _ => False) (keeping_commit_meter (hkeeping _))
  . apply wp_commit_generated hw2 hgenerating hattempt hcancel2 hversion hcontent hevaluation
    . rw [hrevisionPlan, hplan]
    . intro w' hw' hview'
      rw [hview2] at hview'
      exact ⟨hw', hview'⟩
  . rintro _ w3 ⟨hw3, hview3⟩ hmeter3
    have hbill3 : w3.bill = w.bill :=
      congrArg Prod.fst (hmeter3.trans hmeter2)
    rw [wp_bind]
    apply wp_recordUsage_meter hw3
    intro w4 hw4 hview4 hmeter4
    rw [wp_bind]
    apply wp_recordTiming_meter hw4 _ hattempt
    . intro w5 hw5 hview5 hmeter5
      rw [hbill3] at hmeter4
      have hcharged := hbalanced.charged hmeter4 hmeter5
      have hview5' : w5.view = addVersion version w.view := by rw [hview5, hview4, hview3]
      have hat : At w5.view .fresh := by
        rw [hview5']
        apply h.stage.addVersion
        . rw [hversion]
          exact h.iteration
        . exact hevaluation
      have hlive : Live [.generating, .pauseRequested] w5.view := by
        rw [hview5']
        exact h.live
      have hcancel5 : w5.cancelSignal = false := by
        rw [← hcancel]
        exact congrArg View.cancelSignal hview5'
      rw [wp_bind]
      apply wp_keeping (Q := fun _ _ => True) (E := fun _ _ => False)
        (keeping_setStage : Keeping World.meter _)
      . apply wp_setStage_live hw5 hat hlive hcancel5 (by decide) rfl (by decide)
        intro _ _ _ _ _ _
        trivial
      . intro _ w6 _ hmeter6
        have hbill6 : w6.bill = w5.bill := congrArg Prod.fst hmeter6
        rw [wp_pure]
        refine ⟨hchecked, rfl, ?_⟩
        rw [hbill6]
        exact hcharged
      . intro _ _ hfalse _
        contradiction
    . rw [hversion]
      exact hvalid
  . intro _ _ hfalse _
    contradiction

-- Where a program of a node comes to rest, and what the node still owes there.
def Rests (execution : RunExecution) (bill : Bill) (node : Node) (due lost : TokenUsage) (w : World)
    (pc : Pc) : Prop :=
  pc.Recorded w
    ∧ ∃ owes, pc.owed = Pi.single node owes ∧ Cleared execution bill node due owes lost w

theorem Cleared.after {execution : RunExecution} {bill' : Bill} {paid : TokenUsage}
    (h : Cleared execution bill' node 0 owes 0 w) (hcharged : Charged execution bill node paid bill')
    (hdue : paid + lost = due) : Cleared execution bill node due owes lost w := by
  obtain ⟨paid', hcharged', hnone⟩ := h
  refine ⟨paid + paid', hcharged.trans hcharged', ?_⟩
  rw [add_zero] at hnone
  rw [add_assoc paid, hnone, add_zero, hdue]

theorem Rests.after {execution : RunExecution} {bill' : Bill} {paid : TokenUsage} {pc : Pc}
    (h : Rests execution bill' node 0 0 w pc) (hcharged : Charged execution bill node paid bill')
    (hdue : paid + lost = due) : Rests execution bill node due lost w pc := by
  obtain ⟨hrecorded, owes, howed, hcleared⟩ := h
  exact ⟨hrecorded, owes, howed, hcleared.after hcharged hdue⟩

def Meters (env : Env) (bill : Bill) (due lost : TokenUsage) (program : Prog World Exn Pc)
    (w : World) : Prop :=
  wp program w (fun pc w' => Rests env.execution bill .generator due lost w' pc)
    fun _ w' => Cleared env.execution bill .generator due 0 lost w'

theorem meters_runAttempt {body : Prog World Exn (GeneratorFrame ⊕ (String × TokenUsage))}
    {retry : Prog World Exn Pc} (hattempt : 1 ≤ attempt) (hplan : plan = state.pendingRevisionPlan)
    (hbalanced : Balanced env.execution bill)
    (hbody : wp body w
      (fun result w' =>
        Sound origin w' ∧ Generating w'.view state attempt ∧ Noticed env bill due lost result w')
      fun exn w' => Failing origin state attempt exn w' ∧ Broken bill due lost exn w')
    (hretry : attempt < 2 → ∀ w', Sound origin w' → Generating w'.view state attempt →
      Balanced env.execution w'.bill → Meters env w'.bill 0 0 retry w') :
    Meters env bill due lost (runAttempt env state plan attempt body retry) w := by
  unfold Meters runAttempt
  rw [wp_bind, wp_tryCatch, wp_bind]
  apply wp_mono hbody
  . rintro result w1 ⟨hw1, hgenerating, hnoted⟩
    rw [wp_pure]
    cases result with
    | inl frame =>
      obtain ⟨hmeter, hdue⟩ := hnoted
      obtain ⟨hbill, husage⟩ := Prod.ext_iff.mp hmeter
      exact ⟨husage, _, rfl, .idle hbalanced hbill hdue⟩
    | inr result =>
      obtain ⟨content, usage⟩ := result
      obtain ⟨hbill, hdue⟩ := hnoted
      have hbalanced1 : Balanced env.execution w1.bill := by
        rw [hbill]
        exact hbalanced
      apply wp_mono (wp_commitVersion_meter hw1 hgenerating hplan hattempt hbalanced1)
      . rintro pc w2 ⟨hchecked, rfl, hcharged⟩
        rw [hbill] at hcharged
        rw [if_pos hchecked] at hdue
        have hready : reviewersOwe (fun _ => .ready) = 0 := by
          apply reviewersOwe_eq_zero
          intro _
          rfl
        have howed : (Pc.reviewing fun _ => .ready).owed = Pi.single .generator 0 := by
          rw [Pi.single_zero]
          exact hready
        refine ⟨trivial, 0, howed, usage, hcharged, ?_⟩
        rw [add_zero, hdue]
      . rintro _ w2 ⟨hchecked, hbill2⟩
        rw [hchecked, if_neg Bool.false_ne_true] at hdue
        exact .idle hbalanced (hbill2.trans hbill) hdue
  . rintro exn w1 ⟨hfailing, usage, hmeter, hdue⟩
    rw [wp_ite]
    split
    . next hretried =>
      rw [if_pos hretried] at hdue
      rw [wp_bind]
      apply wp_mono (wp_attemptFailed_meter hfailing hattempt hbalanced hmeter)
      . rintro _ w2 ⟨hlast, hw2, hgenerating2, hcharged⟩
        apply wp_mono (hretry hlast w2 hw2 hgenerating2 hcharged.balanced)
        . intro pc w3 hrests
          exact hrests.after hcharged hdue
        . intro _ w3 hcleared
          exact hcleared.after hcharged hdue
      . intro _ w2 hcharged
        refine ⟨_, hcharged, ?_⟩
        rw [add_zero, hdue]
    . next hretried =>
      rw [if_neg hretried] at hdue
      exact .idle hbalanced (congrArg Prod.fst hmeter) hdue

theorem returns_openStream_usage :
    Returns (fun frame => frame.usage = none) (openStream env state plan attempt) := by
  unfold openStream
  apply Returns.bind
  intro _
  apply Returns.bind
  intro lastFlush
  apply Returns.bind
  intro now
  apply Returns.bind
  intro remaining
  unfold awaitEvent
  apply Returns.bind
  intro now w
  rw [wp_ite]
  split
  . trivial
  . apply Returns.bind
    intro await
    exact .pure rfl

theorem meters_startAttempt {retry : Prog World Exn Pc} {bound : Nat} (hw : Sound origin w)
    (h : Generating w.view state bound) (hplan : plan = state.pendingRevisionPlan)
    (hbound : bound + 1 ≤ 2) (hbalanced : Balanced env.execution w.bill)
    (hretry : bound + 1 < 2 → ∀ w', Sound origin w' → Generating w'.view state (bound + 1) →
      Balanced env.execution w'.bill → Meters env w'.bill 0 0 retry w') :
    Meters env w.bill 0 0 (startAttempt env state plan (bound + 1) retry) w := by
  unfold Meters startAttempt restartRecord
  rw [wp_bind, wp_bind, wp_monotonic, wp_modify, wp_bind]
  let w1 : World := { w.tick with record := { started := env.clock w.ticks, usage := none } }
  have hw1 : Sound origin w1 := hw.congr rfl rfl rfl rfl rfl rfl
  have hbegin : wp (commitBeginStream env state (bound + 1)) w1
      (fun _ w' =>
        Sound origin w' ∧ w'.view = beginAttempt (bound + 1) w.view
          ∧ (bound = 0 → w'.snapshot.text.prd = "" ∧ w'.snapshot.text.attempt = 1))
      fun _ _ => False := by
    apply wp_commitBeginStream_sound hw1 h
    intro _ w' hw' hview hbegun
    exact ⟨hw', hview, hbegun⟩
  apply wp_keeping (keeping_commitBeginStream : Keeping World.meter _) hbegin
  . rintro _ w2 ⟨hw2, hview2, hbegun⟩ hmeter2
    have hopen : wp (openStream env state plan (bound + 1)) w2
        (fun _ w' => Sound origin w' ∧ Generating w'.view state (bound + 1))
        (Failing origin state (bound + 1)) := by
      apply wp_openStream_sound hw2 h hbound hview2 hbegun
      intro frame w' _ hw' hgenerating _
      exact ⟨hw', hgenerating⟩
    have hkeeping : Keeping World.meter (openStream env state plan (bound + 1)) :=
      keeping_openStream (overlooks_meter _)
    apply meters_runAttempt (by omega) hplan hbalanced _ hretry
    rw [wp_bind]
    apply wp_keeping hkeeping (wp_and hopen (returns_openStream_usage w2))
    . rintro frame w3 ⟨⟨hw3, hgenerating⟩, husage⟩ hmeter3
      refine ⟨hw3, hgenerating, ?_, ?_⟩
      . rw [hmeter3, hmeter2, husage]
        rfl
      . unfold GeneratorFrame.spent
        rw [husage]
        rfl
    . rintro exn w3 ⟨hfailing, _⟩ hmeter3
      refine ⟨hfailing, none, hmeter3.trans hmeter2, ?_⟩
      rw [Option.getD_none, ite_self, add_zero]
  . intro _ _ hfalse _
    contradiction

-- The rest of the loop after a first attempt that failed.
theorem meters_retryAttempt (hattempt : 1 ≤ attempt) (hlast : attempt < 2) (hw : Sound origin w)
    (h : Generating w.view state attempt) (hplan : plan = state.pendingRevisionPlan)
    (hbalanced : Balanced env.execution w.bill) :
    Meters env w.bill 0 0 (retryAttempt env state plan attempt) w := by
  have hone : attempt = 1 := by omega
  subst hone
  unfold retryAttempt
  rw [if_pos hlast]
  apply meters_startAttempt hw h hplan (by omega) hbalanced
  omega

theorem meters_generatorNode (h : Suspended origin .toGenerator w)
    (hbalanced : Balanced env.execution w.bill) :
    Meters env w.bill 0 0 (generatorNode env) w := by
  have hw := h.sound
  obtain ⟨hat, hlive, hstreams⟩ := h.pc
  have hsteady : Steady w.view := Steady.of_live hat hlive (by simp) (by simp)
  unfold Meters generatorNode restartRecord
  rw [wp_bind]
  apply wp_checkCancel_meter hw hsteady
  . intro exn w' _ _ hmeter _
    exact .idle hbalanced (congrArg Prod.fst hmeter) (add_zero 0)
  intro _ hcancel w1 hw1 hview1 hmeter1
  have hcancel1 : w1.cancelSignal = false := by
    rw [← hcancel]
    exact congrArg View.cancelSignal hview1
  rw [← hview1] at hat hlive hstreams
  rw [wp_bind]
  apply wp_keeping
    (Q := fun snapshot w' =>
      snapshot = w'.snapshot ∧ Sound origin w' ∧ At w'.view .pending
        ∧ Live [.generating, .pauseRequested] w'.view
        ∧ w'.cancelSignal = false
        ∧ w'.view.loop = w1.view.loop)
    (E := fun _ _ => False) (keeping_setStage : Keeping World.meter _)
  . apply wp_setStage_live hw1 hat hlive hcancel1 (by decide) rfl (by decide)
    intro w' hw' hat' hlive' hcancel' hloop'
    exact ⟨rfl, hw', hat', hlive', hcancel', hloop'⟩
  . rintro snapshot w2 ⟨rfl, hw2, hat2, hlive2, hcancel2, hloop2⟩ hmeter2
    rw [← hloop2] at hstreams
    have hcalls : w2.snapshot.Calls .generator := hat2.facts.1
    rw [wp_bind]
    apply wp_keeping (Q := fun _ w' => Sound origin w' ∧ w'.view = w2.view)
      (E := fun _ _ => False) (keeping_markNode : Keeping World.meter _)
    . apply wp_markNode_sound hw2 (hlive2.open hcancel2 (by decide)) hcalls
      intro w' hw' hview' _
      exact ⟨hw', hview'⟩
    . rintro _ w3 ⟨hw3, hview3⟩ hmeter3
      dsimp only
      rw [wp_bind, wp_bind, wp_monotonic, wp_modify]
      have hbill : w3.bill = w.bill :=
        congrArg Prod.fst (hmeter3.trans (hmeter2.trans hmeter1))
      let w4 : World := { w3.tick with record := { started := env.clock w3.ticks, usage := none } }
      have hw4 : Sound origin w4 := hw3.congr rfl rfl rfl rfl rfl rfl
      have hgenerating : Generating w4.view w2.snapshot 0 := by
        change Generating w3.view w2.snapshot 0
        rw [hview3]
        exact {
          stage := hat2
          live := hlive2
          iteration := rfl
          streams := hstreams
          attempt := by simp
          plan := rfl
        }
      have hbalanced4 : Balanced env.execution w4.bill := by
        change Balanced env.execution w3.bill
        rw [hbill]
        exact hbalanced
      rw [← hbill]
      apply meters_startAttempt hw4 hgenerating rfl (by omega) hbalanced4
      intro hlast w5 hw5 hgenerating5 hbalanced5
      exact meters_retryAttempt (by omega) hlast hw5 hgenerating5 rfl hbalanced5
    . intro _ _ hfalse _
      contradiction
  . intro _ _ hfalse _
    contradiction

theorem meters_generatorWake {frame : GeneratorFrame}
    {answer : Answer (Option ProviderTextEvent)} (h : Suspended origin (.generating frame) w)
    (haccepts : frame.await.accepts w answer = true)
    (hbalanced : Balanced env.execution w.bill) (hrecord : w.record.usage = frame.usage) :
    Meters env w.bill (frame.spent + reportedEvent answer)
      (lostByAttempt env w frame answer) (generatorWake env frame answer) w := by
  have hw := h.sound
  obtain ⟨hgenerating, hplan, hattempt, hawait⟩ := h.pc
  have hmeter : w.meter = (w.bill, frame.usage) := by
    unfold World.meter
    rw [hrecord]
  unfold generatorWake
  apply meters_runAttempt hattempt.1 hplan hbalanced
  . apply wp_mono (wp_resumeStream_meter hw hgenerating hattempt.1 hawait haccepts hmeter)
    . rintro result w1 ⟨hw1, hview1, hnoted⟩
      refine ⟨hw1, ?_, hnoted⟩
      rw [hview1]
      exact hgenerating
    . rintro exn w1 ⟨hraised, hview1, hbroken⟩
      exact ⟨Failing.of_view hgenerating hraised hview1, hbroken⟩
  . intro hlast w1 hw1 hgenerating1 hbalanced1
    exact meters_retryAttempt hattempt.1 hlast hw1 hgenerating1 hplan hbalanced1

end Attempt

end Workflow

end AgenticPrd
