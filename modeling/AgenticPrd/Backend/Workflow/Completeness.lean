import AgenticPrd.Backend.Workflow.Billing
import AgenticPrd.Backend.Workflow.Blame
import AgenticPrd.Backend.Workflow.Clock
import AgenticPrd.Backend.Workflow.Safety

/-!
When all that the provider has reported to a run is in the total of its snapshot: a condition on what
each step is given and finds. A report is lost if the node that holds it raises past the place where
it is billed.
-/

namespace AgenticPrd

-- The answer of the provider is being repaired.
def StructuredPc.isRepair : StructuredPc → Bool
  | .calling _ _ => false
  | .repairing _ _ => true

namespace Workflow

open RunManager Prog Transition

variable {env : Env} {origin w : World}

section Limit

-- How often `active_elapsed` reads the clock, and what it makes of it from a reading on.
def readings (w : World) : Nat :=
  match w.activeStarted, w.pausedStarted with
  | none, _ => 0
  | some _, none => 1
  | some _, some _ => 2

def elapsedAt (env : Env) (w : World) (reading : Nat) : ℚ :=
  match w.activeStarted, w.pausedStarted with
  | none, _ => 0
  | some started, none => max 0 (env.clock reading - started - w.pausedTotal)
  | some started, some pausedAt =>
    max 0 (env.clock (reading + 1) - started - (w.pausedTotal + (env.clock reading - pausedAt)))

-- The limit of the run is not reached at a reading of the clock.
def TimeLeft (env : Env) (w : World) (reading : Nat) : Prop :=
  elapsedAt env w reading < env.settings.runTimeoutSeconds

instance (reading : Nat) : Decidable (TimeLeft env w reading) :=
  inferInstanceAs (Decidable (_ < _))

theorem activeElapsed_at (env : Env) (w : World) :
    (activeElapsed env).run w
      = (.ok (elapsedAt env w w.ticks), { w with ticks := w.ticks + readings w }) := by
  obtain ⟨snapshot, eventStore, runRow, cancelSignal, resumeSignal, activeStarted, pausedStarted,
    pausedTotal, record, ticks, journal, disk, calls⟩ := w
  cases activeStarted with
  | none => rfl
  | some started =>
    cases pausedStarted with
    | none => rfl
    | some pausedAt => rfl

theorem elapsedAt_congr {w' : World} (htimes : w'.times = w.times) (reading : Nat) :
    elapsedAt env w' reading = elapsedAt env w reading ∧ readings w' = readings w := by
  unfold World.times at htimes
  simp only [Prod.mk.injEq] at htimes
  obtain ⟨hactive, hpaused, htotal, _⟩ := htimes
  unfold elapsedAt readings
  rw [hactive, hpaused, htotal]
  exact ⟨rfl, rfl⟩

theorem timeLeft_congr {w' : World} (htimes : w'.times = w.times) {reading : Nat} :
    TimeLeft env w' reading ↔ TimeLeft env w reading := by
  unfold TimeLeft
  rw [(elapsedAt_congr htimes reading).1]

theorem remaining_nonpos {env : Env} {elapsed : ℚ} :
    max 0 ((env.settings.runTimeoutSeconds : ℚ) - elapsed) ≤ 0
      ↔ ¬elapsed < env.settings.runTimeoutSeconds := by
  rw [max_le_iff, sub_nonpos, not_lt]
  constructor
  . intro h
    exact h.2
  . intro h
    exact ⟨le_rfl, h⟩

-- The cancel check of a run that is not cancelled only looks at the limit.
theorem wp_checkCancel_clear {Q : Unit → World → Prop} {E : Exn → World → Prop}
    (hclear : w.cancelSignal = false)
    (hQ : TimeLeft env w w.ticks → Q () { w with ticks := w.ticks + readings w })
    (hE : ¬TimeLeft env w w.ticks → E .timeoutError { w with ticks := w.ticks + readings w }) :
    wp (checkCancel env) w Q E := by
  unfold checkCancel remainingRunSeconds
  rw [wp_bind, wp_get, hclear, if_neg Bool.false_ne_true, wp_bind, wp_bind,
    wp_of_run_ok (activeElapsed_at env w), wp_pure]
  split
  . next hover => exact hE (remaining_nonpos.mp hover)
  . next hover =>
    apply hQ
    rw [remaining_nonpos, not_not] at hover
    exact hover

theorem checked_iff (hclear : w.cancelSignal = false) :
    checked env w = true ↔ TimeLeft env w w.ticks := by
  have hcheck : wp (checkCancel env) w (fun _ _ => TimeLeft env w w.ticks)
      fun _ _ => ¬TimeLeft env w w.ticks := wp_checkCancel_clear hclear id id
  apply of_wp (wp_mono (wp_and (wp_checked env w) hcheck) _ _)
  . rintro _ _ ⟨hchecked, hleft⟩
    exact iff_of_true hchecked hleft
  . rintro _ _ ⟨hchecked, hover⟩
    apply iff_of_false _ hover
    rw [hchecked]
    exact Bool.false_ne_true

theorem stamped_ticks (env : Env) (w : World) : (stamped env w).ticks = w.ticks + 1 + readings w := by
  have hbind : (stamp env).run w
      = (Prog.bind (activeElapsed env) fun elapsed =>
          modify (World.mapSnapshot (RunSnapshot.withElapsed elapsed)))
        (w.tick.mapSnapshot (RunSnapshot.withUpdatedAt (env.utc w.ticks))) := rfl
  have helapsed := activeElapsed_at env
    (w.tick.mapSnapshot (RunSnapshot.withUpdatedAt (env.utc w.ticks)))
  unfold stamped
  rw [hbind]
  unfold run at helapsed
  unfold Prog.bind
  rw [helapsed]
  rfl

-- A commit with an event reads the clocks for its stamps and for the event.
theorem wp_commit_ticks {mutation : Prog RunSnapshot Exn Unit} {event : RunEventType}
    {payload : RunSnapshot → Payload} :
    wp (commit env .none mutation (some event) payload) w
      (fun _ w' => w'.ticks = w.ticks + (readings w + 2)) fun _ _ => True := by
  rw [wp_commit]
  apply wp_mono (wp_trivial mutation)
  . intro _ s _
    have hticks : (stamped env (w.withSnapshot s)).tick.ticks = w.ticks + (readings w + 2) := by
      have hstamped := stamped_ticks env (w.withSnapshot s)
      change (stamped env (w.withSnapshot s)).ticks + 1 = _
      rw [hstamped]
      change w.ticks + 1 + readings w + 1 = _
      omega
    have hpublished : ∀ e w1, (published e w1).ticks = w1.ticks := by
      intro e w1
      unfold published
      split <;> rfl
    rw [wp_publish]
    split
    . trivial
    . next e _ =>
      have hsame := (hpublished e (stamped env (w.withSnapshot s)).tick).trans hticks
      split
      . trivial
      . split
        . exact hsame
        . split
          . trivial
          . exact hsame
  . intro _ _ _
    trivial

end Limit

section Stream

variable {state : RunSnapshot} {attempt : Nat} {frame : GeneratorFrame}

-- What the text of a stream costs to commit: a check, and the readings of a commit.
theorem wp_commitDelta_clear {delta : String} (hw : Sound origin w)
    (h : Generating w.view state attempt) (hattempt : 1 ≤ attempt) (hclear : w.cancelSignal = false) :
    wp (commitDelta env state attempt delta) w
      (fun _ w' =>
        TimeLeft env w w.ticks ∧ w'.cancelSignal = false ∧ w'.times = w.times
          ∧ w'.ticks = w.ticks + (2 * readings w + 2))
      fun exn _ => ¬TimeLeft env w w.ticks ∧ exn = .timeoutError := by
  unfold commitDelta
  rw [wp_bind]
  apply wp_checkCancel_clear hclear
  . intro hleft
    let w1 : World := { w with ticks := w.ticks + readings w }
    have hw1 : Sound origin w1 := hw.congr rfl rfl rfl rfl rfl rfl
    have hcommit : wp (commit env .none (appendDelta w1.cancelSignal delta) (some .prdDelta) fun _ =>
        [
          ("version", .ofNat state.currentIteration),
          ("attempt", .ofNat attempt),
          ("delta", .str delta)
        ]) w1 (fun _ w' => w'.view = w.view) fun _ _ => False := by
      apply wp_commit_appendDelta hw1 h hattempt hclear
      intro _ w' _ hview
      exact hview
    rw [wp_bind, wp_get]
    apply wp_keeping keeping_commit_times (wp_and hcommit wp_commit_ticks)
    . rintro _ w2 ⟨hview2, hticks2⟩ htimes2
      refine ⟨hleft, ?_, htimes2, ?_⟩
      . rw [← hclear]
        exact congrArg View.cancelSignal hview2
      . rw [hticks2]
        change w.ticks + readings w + (readings w + 2) = _
        omega
    . rintro _ _ ⟨hfalse, _⟩ _
      contradiction
  . intro hover
    exact ⟨hover, rfl⟩

instance (frame : GeneratorFrame) (now : ℚ) : Decidable (FlushDue frame now) :=
  inferInstanceAs (Decidable (_ ∧ _))

-- A flush finds the limit reached before its report is noted, and a report replaces an earlier one.
def BillsEvent (env : Env) (w : World) (frame : GeneratorFrame) (event : ProviderTextEvent) : Prop :=
  if FlushDue (received frame event) (env.clock w.ticks) ∧ ¬TimeLeft env w (w.ticks + 1) then
    event.spent = 0
  else
    event.usage.isSome = true → frame.spent = 0

instance (frame : GeneratorFrame) (event : ProviderTextEvent) :
    Decidable (BillsEvent env w frame event) := by
  unfold BillsEvent
  infer_instance

-- The readings that the commit of the last text takes.
def lastReadings (w : World) (frame : GeneratorFrame) : Nat :=
  if frame.buffer = "" then 0 else 2 * readings w + 2

def LateText (env : Env) (w : World) (frame : GeneratorFrame) : Prop :=
  frame.buffer ≠ "" ∧ ¬TimeLeft env w w.ticks

instance (frame : GeneratorFrame) : Decidable (LateText env w frame) :=
  inferInstanceAs (Decidable (_ ∧ _))

-- The verdict on the document is one that is retried, or the limit is not reached at the check after.
def BillsVerdict (env : Env) (w : World) (frame : GeneratorFrame) : Prop :=
  match PrdDocument.validateGeneratedPrd frame.content frame.finishReason with
  | .error error => error.isRetryable = true
  | .ok _ => TimeLeft env w (w.ticks + lastReadings w frame)

instance (frame : GeneratorFrame) : Decidable (BillsVerdict env w frame) := by
  unfold BillsVerdict
  split <;> infer_instance

def BillsEnd (env : Env) (w : World) (frame : GeneratorFrame) : Prop :=
  frame.spent = 0 ∨ LateText env w frame ∨ BillsVerdict env w frame

instance (frame : GeneratorFrame) : Decidable (BillsEnd env w frame) :=
  inferInstanceAs (Decidable (_ ∨ _ ∨ _))

def BillsAttempt (env : Env) (w : World) (frame : GeneratorFrame) :
    Await → Answer (Option ProviderTextEvent) → Prop
  | .waiting, .returned none => BillsEnd env w frame
  | .waiting, .returned (some event) => BillsEvent env w frame event
  | .waiting, .raised exn => exn.toExn.isRetried = true ∨ frame.spent = 0
  | .waiting, .timedOut => True
  | .settling exn, _ => exn.isRetried = true ∨ frame.spent = 0
  | _, _ => frame.spent = 0

instance (frame : GeneratorFrame) (await : Await) (answer : Answer (Option ProviderTextEvent)) :
    Decidable (BillsAttempt env w frame await answer) := by
  unfold BillsAttempt
  split <;> infer_instance

theorem unbilled_eq_zero {exn : Exn} :
    frame.unbilled exn = 0 ↔ exn.isRetried = true ∨ frame.spent = 0 := by
  unfold GeneratorFrame.unbilled
  split
  . next hretried => exact iff_of_true rfl (.inl hretried)
  . next hretried =>
    rw [or_iff_right hretried]

theorem wp_flush_clear {now : ℚ} (hw : Sound origin w)
    (h : Generating w.view frame.state frame.attempt) (hattempt : 1 ≤ frame.attempt)
    (hclear : w.cancelSignal = false) :
    wp (flush env frame now) w
      (fun _ _ => ¬(FlushDue frame now ∧ ¬TimeLeft env w w.ticks))
      fun exn _ => (FlushDue frame now ∧ ¬TimeLeft env w w.ticks) ∧ exn = .timeoutError := by
  unfold flush
  rw [wp_ite]
  split
  . next hdue =>
    rw [wp_bind]
    apply wp_mono (wp_commitDelta_clear hw h hattempt hclear)
    . rintro _ _ ⟨hleft, _⟩ ⟨_, hover⟩
      exact hover hleft
    . rintro exn _ ⟨hover, hexn⟩
      exact ⟨⟨hdue, hover⟩, hexn⟩
  . next hdue =>
    rintro ⟨hflush, _⟩
    exact hdue hflush

theorem lostByEvent_eq_zero {event : ProviderTextEvent} (hw : Sound origin w)
    (h : Generating w.view frame.state frame.attempt) (hattempt : 1 ≤ frame.attempt)
    (hclear : w.cancelSignal = false) :
    lostByEvent env w frame event = 0 ↔ BillsEvent env w frame event := by
  have htick : Sound origin w.tick := hw.congr rfl rfl rfl rfl rfl rfl
  have hflush : wp (flush env (received frame event) (env.clock w.ticks)) w.tick
      (fun _ _ =>
        ¬(FlushDue (received frame event) (env.clock w.ticks) ∧ ¬TimeLeft env w (w.ticks + 1)))
      fun exn _ =>
        (FlushDue (received frame event) (env.clock w.ticks) ∧ ¬TimeLeft env w (w.ticks + 1))
          ∧ exn = .timeoutError :=
    wp_flush_clear htick h hattempt hclear
  unfold BillsEvent
  apply of_wp (wp_mono (wp_and hflush wp_flush_lost) _ _)
  . rintro _ _ ⟨hflushed, hlost⟩
    rw [if_neg hflushed, hlost]
    split
    . next hsome => exact ⟨fun hspent _ => hspent, fun hspent => hspent hsome⟩
    . next hsome => exact iff_of_true rfl fun hsome' => absurd hsome' hsome
  . rintro _ _ ⟨⟨hover, rfl⟩, hlost⟩
    have hretried : frame.unbilled .timeoutError = 0 := unbilled_eq_zero.mpr (.inl rfl)
    rw [if_pos hover, hlost, hretried, zero_add]

theorem wp_lastDelta_clear {rest : Prog World Exn (String × TokenUsage)}
    {Q : String × TokenUsage → World → Prop} {E : Exn → World → Prop} (hw : Sound origin w)
    (h : Generating w.view frame.state frame.attempt) (hattempt : 1 ≤ frame.attempt)
    (hclear : w.cancelSignal = false) (hE : LateText env w frame → ∀ w', E .timeoutError w')
    (hrest : ¬LateText env w frame → ∀ w', w'.cancelSignal = false → w'.times = w.times →
      w'.ticks = w.ticks + lastReadings w frame → wp rest w' Q E) :
    wp
      (if frame.buffer ≠ "" then do
        let _ ← commitDelta env frame.state frame.attempt frame.buffer
        rest
      else rest) w Q E := by
  unfold LateText at hE hrest
  unfold lastReadings at hrest
  rw [wp_ite]
  split
  . next hbuffer =>
    rw [if_neg hbuffer] at hrest
    rw [wp_bind]
    apply wp_mono (wp_commitDelta_clear hw h hattempt hclear)
    . rintro _ w1 ⟨hleft, hclear1, htimes1, hticks1⟩
      apply hrest _ w1 hclear1 htimes1 hticks1
      rintro ⟨_, hover⟩
      exact hover hleft
    . rintro exn w1 ⟨hover, rfl⟩
      exact hE ⟨hbuffer, hover⟩ w1
  . next hbuffer =>
    rw [not_not] at hbuffer
    apply hrest _ w hclear rfl
    . rw [if_pos hbuffer, add_zero]
    . rintro ⟨hsome, _⟩
      exact hsome hbuffer

theorem lostByEnd_eq_zero (hw : Sound origin w)
    (h : Generating w.view frame.state frame.attempt) (hattempt : 1 ≤ frame.attempt)
    (hclear : w.cancelSignal = false) : lostByEnd env w frame = 0 ↔ BillsEnd env w frame := by
  have hend : wp (endStream env frame) w
      (fun _ w' =>
        (if checked env w' then 0 else frame.spent) = 0 ↔ BillsEnd env w frame)
      fun exn _ => frame.unbilled exn = 0 ↔ BillsEnd env w frame := by
    unfold endStream
    dsimp only
    apply wp_lastDelta_clear hw h hattempt hclear
    . intro hlate _
      exact iff_of_true (unbilled_eq_zero.mpr (.inl rfl)) (.inr (.inl hlate))
    . intro hlate w1 hclear1 htimes1 hticks1
      have hbills : BillsEnd env w frame ↔ frame.spent = 0 ∨ BillsVerdict env w frame := by
        unfold BillsEnd
        rw [or_iff_right hlate]
      have hchecked : checked env w1 = true ↔ TimeLeft env w (w.ticks + lastReadings w frame) := by
        rw [checked_iff hclear1, timeLeft_congr htimes1, hticks1]
      rw [wp_bind]
      unfold validatedPrd
      unfold BillsVerdict at hbills
      cases hverdict : PrdDocument.validateGeneratedPrd frame.content frame.finishReason with
      | error error =>
        rw [hverdict] at hbills
        rw [hbills]
        exact unbilled_eq_zero.trans or_comm
      | ok validated =>
        rw [hverdict] at hbills
        dsimp only at hbills ⊢
        rw [wp_pure]
        cases husage : frame.usage with
        | none =>
          have hspent : frame.spent = 0 := by
            unfold GeneratorFrame.spent
            rw [husage]
            rfl
          exact iff_of_true (unbilled_eq_zero.mpr (.inr hspent)) (.inl hspent)
        | some usage =>
          rw [wp_pure, hbills, ← hchecked]
          split
          . next hok => exact iff_of_true rfl (.inr hok)
          . next hover => rw [or_iff_left hover]
  apply of_wp (wp_mono (wp_and hend wp_endStream_lost) _ _)
  . rintro _ _ ⟨hiff, hlost⟩
    rw [hlost]
    exact hiff
  . rintro _ _ ⟨hiff, hlost⟩
    rw [hlost]
    exact hiff

theorem lostByAttempt_eq_zero {answer : Answer (Option ProviderTextEvent)} (hw : Sound origin w)
    (h : Generating w.view frame.state frame.attempt) (hattempt : 1 ≤ frame.attempt)
    (hclear : w.cancelSignal = false) :
    lostByAttempt env w frame answer = 0 ↔ BillsAttempt env w frame frame.await answer := by
  unfold lostByAttempt
  cases frame.await with
  | settling exn => exact unbilled_eq_zero
  | waiting =>
    cases answer with
    | returned event =>
      cases event with
      | none => exact lostByEnd_eq_zero hw h hattempt hclear
      | some event => exact lostByEvent_eq_zero hw h hattempt hclear
    | raised exn => exact unbilled_eq_zero
    | timedOut => exact iff_of_true (unbilled_eq_zero.mpr (.inl rfl)) trivial
    | cancelled => exact unbilled_eq_zero.trans (or_iff_right Bool.false_ne_true)
    | settled => exact unbilled_eq_zero.trans (or_iff_right Bool.false_ne_true)

end Stream

section Structured

variable {T : Type} {model : Json → Option T} {stored : T → Bool} {stores : T → Prop}
  {answer : Answer ProviderStructuredResult} {structured : StructuredPc}

-- An answer that can be read is stored, the first that cannot is repaired, and a wait that raises holds
-- no report.
def BillsCall (model : Json → Option T) (stores : T → Prop) (structured : StructuredPc) :
    Answer ProviderStructuredResult → Prop
  | .returned result =>
    match model result.value with
    | some parsed => stores parsed ∨ structured.owes + result.usage = 0
    | none => structured.isRepair = true → structured.owes + result.usage = 0
  | _ => structured.owes = 0

instance [∀ parsed, Decidable (stores parsed)] :
    Decidable (BillsCall model stores structured answer) := by
  unfold BillsCall
  split
  . split <;> infer_instance
  . infer_instance

def StoresReview (env : Env) (w : World) (role : ReviewRole) (review : RoleReview) : Prop :=
  review.role = role ∧ TimeLeft env w w.ticks

instance (role : ReviewRole) (review : RoleReview) : Decidable (StoresReview env w role review) :=
  inferInstanceAs (Decidable (_ ∧ _))

theorem storesReview_iff {role : ReviewRole} {review : RoleReview} (hclear : w.cancelSignal = false) :
    storesReview env w role review = true ↔ StoresReview env w role review := by
  unfold storesReview StoresReview
  rw [Bool.and_eq_true, decide_eq_true_eq, checked_iff hclear]

theorem lostByCall_eq_zero (hstored : ∀ parsed, stored parsed = true ↔ stores parsed)
    (haccepts : structured.await.accepts w answer = true) :
    lostByCall model stored w answer structured = 0 ↔ BillsCall model stores structured answer := by
  have hread : ∀ {parsed : T} {due : TokenUsage},
      (if stored parsed then 0 else due) = 0 ↔ stores parsed ∨ due = 0 := by
    intro parsed due
    rw [← hstored]
    split
    . next hyes => exact iff_of_true rfl (.inl hyes)
    . next hno => rw [or_iff_right hno]
  cases structured with
  | calling attempt await =>
    have howes : (StructuredPc.calling attempt await).owes = 0 := rfl
    cases await with
    | settling exn =>
      cases answer with
      | settled => exact iff_of_true rfl rfl
      | _ => contradiction
    | waiting =>
      cases answer with
      | returned result =>
        have hrun : (awaitResult Await.waiting (.returned result)).run w = (.ok result, w) := rfl
        unfold lostByCall BillsCall
        dsimp only
        rw [hrun, howes, zero_add]
        dsimp only
        cases model result.value with
        | none => exact iff_of_true rfl fun hrepair => absurd hrepair Bool.false_ne_true
        | some parsed => exact hread
      | _ => exact iff_of_true rfl rfl
  | repairing first await =>
    have howes : (StructuredPc.repairing first await).owes = first.usage := rfl
    cases await with
    | settling exn =>
      cases answer with
      | settled => rfl
      | _ => contradiction
    | waiting =>
      cases answer with
      | returned result =>
        have hrun : (awaitResult Await.waiting (.returned result)).run w = (.ok result, w) := rfl
        unfold lostByCall BillsCall
        dsimp only
        rw [hrun, howes]
        dsimp only
        cases model result.value with
        | none => exact ⟨fun hnone _ => hnone, fun hnone => hnone rfl⟩
        | some parsed => exact hread
      | _ => rfl

end Structured

section Step

variable {env : WorkflowEnv} {c c' : Config} {label : Label}

def BillsReview (env : WorkflowEnv) (w : World) (role : ReviewRole)
    (answer : Answer ProviderStructuredResult) : ReviewerPc → Prop
  | .suspended _ structured =>
    BillsCall env.roleReview (StoresReview env.toEnv w role) structured answer
  | _ => True

instance (role : ReviewRole) (answer : Answer ProviderStructuredResult) (reviewer : ReviewerPc) :
    Decidable (BillsReview env w role answer reviewer) := by
  unfold BillsReview
  split <;> infer_instance

/--
The step bills what it is told of, or leaves it with a task that still can. A reviewer that has failed
takes the others with it, so that none of them may be in the middle of a repair.
-/
def Bills (env : WorkflowEnv) (c : Config) : Label → Prop
  | .generatorWake answer =>
    match c.pc with
    | .generating frame => BillsAttempt env.toEnv c.world frame frame.await answer
    | _ => True
  | .reviewerWake role answer =>
    match c.pc with
    | .reviewing reviewers => BillsReview env c.world role answer (reviewers role)
    | _ => True
  | .reviewersFail _ =>
    match c.pc with
    | .reviewing reviewers => ∀ role ∈ [ReviewRole.tech, .ux, .biz], (reviewers role).owes = 0
    | _ => True
  | .optimizerWake answer =>
    match c.pc with
    | .optimizing _ structured =>
      BillsCall env.revisionPlan (fun _ => TimeLeft env.toEnv c.world c.world.ticks) structured answer
    | _ => True
  | _ => True

instance (label : Label) : Decidable (Bills env c label) := by
  unfold Bills
  split
  . split <;> infer_instance
  . split <;> infer_instance
  . split <;> infer_instance
  . split <;> infer_instance
  . infer_instance

theorem single_eq_zero {node : Node} {usage : TokenUsage} :
    (Pi.single node usage : Node → TokenUsage) = 0 ↔ usage = 0 :=
  Pi.single_eq_zero_iff

-- What a step loses, told by what it is given.
theorem lost_eq_zero (h : Inv c) (hplanned : ∀ frame structured, c.pc = .optimizing frame structured →
      frame.state.latestEvaluation ≠ none)
    (hclear : c.world.cancelSignal = false) (hstep : step env c label = some c') :
    lost env c label = 0 ↔ Bills env c label := by
  obtain ⟨w, pc⟩ := c
  have hw : Sound w w := h.sound
  cases label with
  | generatorWake answer =>
    unfold lost Bills
    cases pc with
    | generating frame =>
      obtain ⟨hgenerating, _, hattempt, _⟩ := h.pc
      rw [single_eq_zero]
      exact lostByAttempt_eq_zero hw hgenerating hattempt.1 hclear
    | _ => exact iff_of_true rfl trivial
  | reviewerWake role answer =>
    unfold lost Bills
    cases pc with
    | reviewing reviewers =>
      rw [single_eq_zero]
      dsimp only
      unfold lostByReviewer BillsReview
      change stepReviewer env w reviewers (.reviewerWake role answer) = some c' at hstep
      dsimp only [stepReviewer] at hstep
      cases hreviewer : reviewers role with
      | suspended frame structured =>
        rw [hreviewer] at hstep
        dsimp only at hstep
        split at hstep
        . next haccepts =>
          apply lostByCall_eq_zero _ haccepts
          intro review
          exact storesReview_iff hclear
        . contradiction
      | _ => exact iff_of_true rfl trivial
    | _ => exact iff_of_true rfl trivial
  | reviewersFail role =>
    unfold lost Bills
    cases pc with
    | reviewing reviewers =>
      constructor
      . intro hnone other _
        rw [← reviewersOwe_node]
        exact congrFun hnone other.node
      . intro hnone
        apply reviewersOwe_eq_zero
        intro other
        apply hnone
        cases other <;> simp
    | _ => contradiction
  | optimizerWake answer =>
    unfold lost Bills
    cases pc with
    | optimizing frame structured =>
      rw [single_eq_zero]
      dsimp only
      unfold lostByPlan
      have hevaluated : ¬frame.state.latestEvaluation.isNone = true := by
        rw [Option.isNone_iff_eq_none]
        exact hplanned frame structured rfl
      rw [if_neg hevaluated]
      change (if _ then _ else _) = _ at hstep
      split at hstep
      . next haccepts =>
        apply lostByCall_eq_zero _ haccepts
        intro plan
        exact checked_iff hclear
      . contradiction
    | _ => exact iff_of_true rfl trivial
  | _ => exact iff_of_true rfl trivial

end Step

section Run

-- The steps of a run, each with the configuration that it has started from.
def taken (c : Config) (label : Label) (_ : Config) : List (Config × Label) :=
  [(c, label)]

/--
All that the provider has reported to a run is in its total or held by a task of it, at the end in the
total alone, and the rows of the timings of a node add up to its tokens.
-/
structure FullyBilled (steps : List (Config × Label)) (c : Config) : Prop where
  held :
    c.world.snapshot.totalTokens + overall c.pc.owed
      = (steps.map fun s => overall (reported s.2)).sum
  total :
    (∃ exn, c.pc = .finished exn) →
      c.world.snapshot.totalTokens = (steps.map fun s => overall (reported s.2)).sum
  timed :
    ∀ node,
      ((c.world.snapshot.nodeTimings.filter fun timing => timing.node = node).map
          NodeTiming.usage).sum
        = (c.world.snapshot.nodeTokens node).getD 0

variable {env : WorkflowEnv} {runId : RunId} {request : CreateRunRequest} {outputLanguage : String}
  {bufferSize : Nat} {c : Config} {steps : List (Config × Label)}

theorem taken_sum (c : Config) (label : Label) (c' : Config) :
    ((taken c label c').map fun s => reported s.2).sum = reported label
      ∧ ((taken c label c').map fun s => lost env s.1 s.2).sum = lost env c label := by
  constructor
  . exact List.sum_singleton
  . exact List.sum_singleton

-- What is known of a run by its steps.
structure Told (env : WorkflowEnv) (steps : List (Config × Label)) (c : Config) : Prop where
  accounted : Accounted env c
  answerable : ∃ log, Answerable log c
  losses :
    c.world.snapshot.status ≠ .cancelled → ∀ s ∈ steps, lost env s.1 s.2 = 0 ↔ Bills env s.1 s.2

theorem Told.step {label : Label} {c' : Config} (h : Told env steps c)
    (hstep : Workflow.step env c label = some c') : Told env (steps ++ taken c label c') c' := by
  obtain ⟨log, hanswerable⟩ := h.answerable
  have hinv := h.accounted.inv
  refine {
    accounted := (h.accounted.step hstep).1
    answerable := ⟨_, hanswerable.step hstep⟩
    losses := ?_
  }
  intro hopen' s hs
  have hopen : c.world.snapshot.status ≠ .cancelled := by
    intro hcancelled
    apply hopen'
    rw [Keeps.terminal hinv (Keeps.step hinv hstep), hcancelled]
    rw [hcancelled]
    rfl
  rw [List.mem_append] at hs
  cases hs with
  | inl hold => exact h.losses hopen s hold
  | inr hnew =>
    unfold taken at hnew
    rw [List.mem_singleton] at hnew
    subst hnew
    apply lost_eq_zero hinv _ (hinv.clear hopen) hstep
    intro frame structured hpc
    have hready := hanswerable.ready
    rw [hpc] at hready
    exact hready.1

theorem fully_billed_iff
    (hrun : Traced (step env) always taken (init env.toEnv runId request outputLanguage bufferSize)
      steps c)
    (hopen : c.world.snapshot.status ≠ .cancelled) :
    FullyBilled steps c ↔ ∀ s ∈ steps, Bills env s.1 s.2 := by
  have htold : Told env steps c := by
    apply hrun.invariant (I := Told env)
    . exact {
        accounted := accounted_init
        answerable := ⟨[], Answerable.init⟩
        losses := by simp
      }
    . intro steps c label c' h _ hstep
      exact h.step hstep
  obtain ⟨hc, hknown⟩ := accounted_run hrun taken_sum
  have hbills : (∀ s ∈ steps, lost env s.1 s.2 = 0) ↔ ∀ s ∈ steps, Bills env s.1 s.2 :=
    forall₂_congr (htold.losses hopen)
  rw [← hbills, ← hc.total_iff hknown]
  constructor
  . intro h
    exact h.held
  . intro hheld
    exact {
      held := hheld
      total := by
        rintro ⟨exn, hpc⟩
        have hnone : overall c.pc.owed = 0 := by
          rw [hpc]
          rfl
        rw [← hheld, hnone, add_zero]
      timed := by
        intro node
        exact congrFun hc.balanced.timed node
    }

-- The generator fails once before it writes a version, a review is repaired, and another one ends the
-- run.
def repairedOnce : List Label :=
  [
    .begin,
    .enterGenerator,
    .generatorWake (.returned (some {
      delta := "# PRD"
      usage := some (.ofTokens 10 20)
      finishReason := none
    })),
    .generatorWake .timedOut,
    .generatorWake (.returned (some {
      delta := "# PRD\n<!-- PRD_COMPLETE -->\n"
      usage := some (.ofTokens 1 2)
      finishReason := some "stop"
    })),
    .generatorWake (.returned none),
    .reviewerEnter .tech,
    .reviewerEnter .ux,
    .reviewerWake .tech (.returned { value := .null, usage := .ofTokens 3 4 }),
    .reviewerWake .tech (.returned { value := .str "tech", usage := .ofTokens 5 6 }),
    .reviewerWake .ux (.raised (.providerError .authentication)),
    .reviewersFail .ux
  ]

theorem fully_billed_repairedOnce :
    ∃ steps c,
      trace (step answeringWorkflow) taken [] answeringInit repairedOnce = some (steps, c)
        ∧ c.world.snapshot.status = .failed
        ∧ c.world.snapshot.totalTokens = .ofTokens 19 32
        ∧ FullyBilled steps c := by
  have hshown :
      (trace (step answeringWorkflow) taken [] answeringInit repairedOnce).map
          (fun shown =>
            (shown.2.world.snapshot.status, shown.2.world.snapshot.totalTokens,
              decide (∀ s ∈ shown.1, Bills answeringWorkflow s.1 s.2)))
        = some (.failed, .ofTokens 19 32, true) := by decide +kernel
  obtain ⟨⟨steps, c⟩, htrace, hall⟩ := Option.map_eq_some_iff.mp hshown
  simp only [Prod.mk.injEq, decide_eq_true_eq] at hall
  obtain ⟨hstatus, htotal, hbills⟩ := hall
  have hrun : Traced (step answeringWorkflow) always taken answeringInit steps c :=
    Traced.of_trace .refl (allowed_always _) htrace
  have hopen : c.world.snapshot.status ≠ .cancelled := by
    rw [hstatus]
    simp
  exact ⟨steps, c, htrace, hstatus, htotal, (fully_billed_iff hrun hopen).mpr hbills⟩

theorem not_fully_billed :
    ¬∀ steps c, Traced (step answeringWorkflow) always taken answeringInit steps c →
      (∃ exn, c.pc = .finished exn) → c.world.snapshot.status ≠ .cancelled →
        c.world.snapshot.totalTokens = (steps.map fun s => overall (reported s.2)).sum := by
  intro h
  have hshown :
      (trace (step answeringWorkflow) taken [] answeringInit repairedInVain).map
          (fun shown =>
            (shown.2.world.snapshot.status, shown.2.world.snapshot.totalTokens,
              (shown.1.map fun s => overall (reported s.2)).sum))
        = some (.failed, .ofTokens 10 20, .ofTokens 18 30) := by decide +kernel
  obtain ⟨⟨steps, c⟩, htrace, hall⟩ := Option.map_eq_some_iff.mp hshown
  simp only [Prod.mk.injEq] at hall
  obtain ⟨hstatus, htotal, hsum⟩ := hall
  have hrun : Traced (step answeringWorkflow) always taken answeringInit steps c :=
    Traced.of_trace .refl (allowed_always _) htrace
  have hinv : Inv c := Keeps.inv (Keeps.steps Inv.init hrun.steps)
  have hfinished := hinv.finished_of_failed hstatus
  have hall := h steps c hrun hfinished (by rw [hstatus]; simp)
  rw [htotal, hsum] at hall
  contradiction

end Run

end Workflow

end AgenticPrd
