import AgenticPrd.Backend.Workflow.Kept

/-!
What a step of a run does to the times it is measured by, when its readings of the clock agree: the
start of the run, the pause that is under way, the total of the pauses, and what the nodes record.
-/

namespace AgenticPrd

-- The starts that the suspended nodes have noted, to measure what they do by.
def ReviewerPc.starts : ReviewerPc → List ℚ
  | .suspended frame _ => [frame.started]
  | _ => []

def Pc.starts (w : World) : Pc → List ℚ
  | .generating _ => [w.record.started]
  | .reviewing reviewers => [ReviewRole.tech, .ux, .biz].flatMap fun role => (reviewers role).starts
  | .optimizing frame _ => [frame.started]
  | _ => []

namespace World

def pauseClock (w : World) : Option ℚ × Option ℚ × ℚ :=
  (w.activeStarted, w.pausedStarted, w.pausedTotal)

-- What is recorded of the times, and what they are measured by.
def gauge (w : World) : List NodeTiming × Option ℚ × Option ℚ × ℚ × ℚ :=
  (w.snapshot.nodeTimings, w.times)

end World

namespace Workflow

open RunManager Prog

variable {env : Env} {faults : Faults} {w w0 : World} {α : Type}

section Gauge

theorem times_stamped (env : Env) (w : World) : (stamped env w).times = w.times := by
  obtain ⟨now, elapsed, ticks, _, h⟩ := stamped_eq env w
  rw [h]
  rfl

theorem times_published (e : RunEvent) (w : World) : (published e w).times = w.times := by
  unfold published
  split <;> rfl

theorem wp_publish_times {durable : Bool} {event : Option RunEventType} {payload : Payload} :
    wp (publish env faults durable event payload) w
      (fun envelope w' => (journaled envelope w').times = w.times)
      (fun _ w' => w'.times = w.times) := by
  cases event with
  | none =>
    rw [wp_publish_none]
    split <;> rfl
  | some event =>
    rw [wp_publish]
    cases envelope? env w event payload with
    | none => rfl
    | some e =>
      have hpublished : (published e w.tick).times = w.times := times_published e _
      dsimp only
      split
      . rfl
      . split
        . exact hpublished
        . split
          . exact hpublished
          . exact hpublished

theorem keeping_commit_times {mutation : Prog RunSnapshot Exn Unit} {event : Option RunEventType}
    {payload : RunSnapshot → Payload} :
    Keeping World.times (commit env faults mutation event payload) := by
  intro w
  have hsame : ∀ s, (stamped env (w.withSnapshot s)).times = w.times := by
    intro s
    apply times_stamped
  rw [wp_commit]
  apply wp_mono (wp_trivial mutation)
  . intro _ s _
    rw [← hsame s]
    apply wp_publish_times
  . intro _ _ _
    rfl

theorem keeping_transition_times {target : RunStatus} {event : RunEventType} {payload : Payload} :
    Keeping World.times (transition env faults target event payload) := by
  intro w
  rw [wp_transition]
  split
  . have hmoved : (stamped env (moved env target w)).times = w.times := by
      rw [times_stamped]
      unfold moved
      split <;> rfl
    rw [← hmoved]
    apply wp_publish_times
  . rfl

theorem Keeping.gauge {x : Prog World Exn α} (hover : Keeping (withCalls RunSnapshot.nodeTimings) x)
    (htimes : Keeping World.times x) : Keeping World.gauge x :=
  (hover.prod htimes).comp fun both => (both.1.1, both.2)

theorem aside_nodeTimings : Aside RunSnapshot.nodeTimings :=
  {
    updatedAt := fun _ _ => rfl
    elapsed := fun _ _ => rfl
    sequence := fun _ _ => rfl
    status := fun _ _ => rfl
    ended := fun _ _ => rfl
    started := fun _ _ => rfl
    marked := fun _ _ _ => rfl
    failed := fun _ _ _ _ _ => rfl
    begun := fun _ _ => rfl
    streamed := fun _ _ => rfl
    reviewed := fun _ _ _ _ => rfl
  }

theorem gauge_ext {w' : World} (hover : withCalls RunSnapshot.nodeTimings w' = withCalls RunSnapshot.nodeTimings w)
    (htimes : w'.times = w.times) : w'.gauge = w.gauge := by
  have htimings : w'.snapshot.nodeTimings = w.snapshot.nodeTimings := congrArg Prod.fst hover
  unfold World.gauge
  rw [htimings, htimes]

theorem gauge_stamped (env : Env) (w : World) : (stamped env w).gauge = w.gauge := by
  apply gauge_ext
  . exact withCalls_stamped aside_nodeTimings.toStampless w
  . exact times_stamped env w

theorem wp_publish_gauge {durable : Bool} {event : Option RunEventType} {payload : Payload} :
    wp (publish env faults durable event payload) w
      (fun envelope w' => (journaled envelope w').gauge = w.gauge)
      (fun _ w' => w'.gauge = w.gauge) := by
  apply wp_mono (wp_and (wp_publish_withCalls aside_nodeTimings.toStampless) wp_publish_times)
  . rintro envelope w' ⟨hover, htimes⟩
    exact gauge_ext hover htimes
  . rintro _ w' ⟨hover, htimes⟩
    exact gauge_ext hover htimes

theorem keeping_commit_gauge {mutation : Prog RunSnapshot Exn Unit} {event : Option RunEventType}
    {payload : RunSnapshot → Payload} (hmutation : Keeping RunSnapshot.nodeTimings mutation) :
    Keeping World.gauge (commit env faults mutation event payload) :=
  Keeping.gauge (keeping_commit_withCalls aside_nodeTimings.toStampless hmutation) keeping_commit_times

instance : Ticking World.gauge :=
  {
    congr := by
      intro w w' hsnapshot _ _ _ htimes
      unfold World.gauge
      rw [hsnapshot, htimes]
  }

instance : Undrafted World.gauge :=
  {
    (inferInstance : Clocked World.gauge) with
    keeps_commit := fun hminor => keeping_commit_gauge (hminor.keeping aside_nodeTimings)
    keeps_transition := fun _ =>
      Keeping.gauge (keeping_transition_withCalls aside_nodeTimings.toStatusless) keeping_transition_times
    keeps_streaming := fun hstreaming =>
      keeping_commit_gauge (hstreaming.keeping aside_nodeTimings)
  }

theorem overlooks_gauge (call : ProviderCall) : Overlooks World.gauge call :=
  fun _ => rfl

theorem keeping_recordUsage_gauge {node : Node} {usage : TokenUsage} :
    Keeping World.gauge (recordUsage env node usage) := by
  apply keeping_commit_gauge
  exact .modify fun _ => rfl

end Gauge

-- The seconds from one of the starts to a reading of the clock.
def Elapsed (env : Env) (fresh : ℚ → Prop) (seconds : ℚ) : Prop :=
  ∃ started n, fresh started ∧ seconds = env.clock n - started

def Measured (env : Env) (fresh : ℚ → Prop) (timing : NodeTiming) : Prop :=
  ∃ seconds, Elapsed env fresh seconds ∧ timing.seconds = Rounding.round (max 0 seconds) 2

/--
What a step may make of the times of `w0` while it does not park: it records what it has measured.
-/
structure Tallied (env : Env) (fresh : ℚ → Prop) (w0 w : World) : Prop where
  clock : w.pauseClock = w0.pauseClock
  timings :
    ∃ new, w.snapshot.nodeTimings = w0.snapshot.nodeTimings ++ new
      ∧ ∀ timing ∈ new, Measured env fresh timing

-- The generator has noted when its attempt started.
structure Timed (env : Env) (fresh : ℚ → Prop) (w0 w : World) : Prop
    extends Tallied env fresh w0 w where
  record : fresh w.record.started

-- The task has gone on to a place where it is not parked.
structure Advanced (env : Env) (fresh : ℚ → Prop) (w0 : World) (pc : Pc) (w : World) : Prop
    extends Tallied env fresh w0 w where
  starts : ∀ started ∈ pc.starts w, fresh started
  awake : wake pc = none

-- A timing comes to the others, if the commit does not raise before.
def AddsTiming (seconds : ℚ) (w w' : World) : Prop :=
  w'.times = w.times
    ∧
  (
    w'.snapshot.nodeTimings = w.snapshot.nodeTimings
      ∨
    ∃ timing : NodeTiming, timing.seconds = Rounding.round (max 0 seconds) 2
      ∧ w'.snapshot.nodeTimings = w.snapshot.nodeTimings ++ [timing]
  )

section Tallied

variable {fresh : ℚ → Prop}

theorem Tallied.refl (w : World) : Tallied env fresh w w :=
  {
    clock := rfl
    timings := ⟨[], (List.append_nil _).symm, List.forall_mem_nil _⟩
  }

theorem Tallied.congr {w' : World} (h : Tallied env fresh w0 w) (hgauge : w'.gauge = w.gauge) :
    Tallied env fresh w0 w' := by
  unfold World.gauge World.times at hgauge
  simp only [Prod.mk.injEq] at hgauge
  obtain ⟨htimings, hactive, hpaused, htotal, _⟩ := hgauge
  constructor
  . rw [← h.clock]
    unfold World.pauseClock
    rw [hactive, hpaused, htotal]
  . rw [htimings]
    exact h.timings

theorem Timed.congr {w' : World} (h : Timed env fresh w0 w) (hgauge : w'.gauge = w.gauge) :
    Timed env fresh w0 w' := by
  refine { h.toTallied.congr hgauge with record := ?_ }
  have hrecord : w'.record.started = w.record.started :=
    congrArg (fun gauge => gauge.2.2.2.2) hgauge
  rw [hrecord]
  exact h.record

theorem Tallied.keeping {x : Prog World Exn α} (h : Tallied env fresh w0 w)
    (hx : Keeping World.gauge x) :
    wp x w (fun _ => Tallied env fresh w0) fun _ => Tallied env fresh w0 :=
  wp_mono (hx w) (fun _ _ => h.congr) fun _ _ => h.congr

theorem Timed.keeping {x : Prog World Exn α} (h : Timed env fresh w0 w)
    (hx : Keeping World.gauge x) :
    wp x w (fun _ => Timed env fresh w0) fun _ => Timed env fresh w0 :=
  wp_mono (hx w) (fun _ _ => h.congr) fun _ _ => h.congr

theorem seconds_of_validate? {node : Node} {version attempt inputTokens outputTokens : Nat}
    {seconds : ℚ} {succeeded : Bool} {timing : NodeTiming}
    (h : NodeTiming.validate? node version attempt seconds succeeded inputTokens outputTokens
      = some timing) : timing.seconds = seconds := by
  unfold NodeTiming.validate? at h
  split at h
  . cases h
    rfl
  . contradiction

theorem wp_recordTiming_adds {node : Node} {version attempt : Nat} {seconds : ℚ} {succeeded : Bool}
    {usage : Option TokenUsage} :
    wp (recordTiming env node version attempt seconds succeeded usage) w
      (fun _ => AddsTiming seconds w) fun _ => AddsTiming seconds w := by
  have hpublish : ∀ s : RunSnapshot, AddsTiming seconds w (w.withSnapshot s) →
      wp (publish env .none true none []) (stamped env (w.withSnapshot s))
        (fun envelope w' => AddsTiming seconds w (journaled envelope w'))
        fun _ => AddsTiming seconds w := by
    intro s hs
    have hsame : ∀ w' : World, w'.gauge = (stamped env (w.withSnapshot s)).gauge →
        AddsTiming seconds w w' := by
      intro w' hgauge
      rw [gauge_stamped] at hgauge
      obtain ⟨htimings, htimes⟩ := Prod.ext_iff.mp hgauge
      dsimp only [World.gauge] at htimings htimes
      unfold AddsTiming
      rw [htimings, htimes]
      exact hs
    exact wp_mono wp_publish_gauge (fun _ _ => hsame _) fun _ _ => hsame _
  unfold recordTiming
  rw [wp_commit]
  unfold timingMutation
  dsimp only
  split
  . exact ⟨rfl, .inl rfl⟩
  . next timing hvalid =>
    rw [wp_modify]
    apply hpublish
    exact ⟨rfl, .inr ⟨timing, seconds_of_validate? hvalid, rfl⟩⟩

theorem AddsTiming.tallied {w' : World} {seconds : ℚ} (h : AddsTiming seconds w w')
    (helapsed : Elapsed env fresh seconds) (hw : Tallied env fresh w0 w) :
    Tallied env fresh w0 w' := by
  obtain ⟨htimes, hadds⟩ := h
  have hclock : w'.pauseClock = w.pauseClock :=
    congrArg (fun times => (times.1, times.2.1, times.2.2.1)) htimes
  refine { clock := hclock.trans hw.clock, timings := ?_ }
  cases hadds with
  | inl hsame =>
    rw [hsame]
    exact hw.timings
  | inr hadded =>
    obtain ⟨timing, hseconds, htimings⟩ := hadded
    obtain ⟨new, hnew, hmeasured⟩ := hw.timings
    refine ⟨new ++ [timing], ?_, ?_⟩
    . rw [htimings, hnew, List.append_assoc]
    . simp only [List.mem_append, List.mem_singleton]
      rintro timing' (hold | rfl)
      . exact hmeasured timing' hold
      . exact ⟨seconds, helapsed, hseconds⟩

theorem Tallied.recordTiming {node : Node} {version attempt : Nat} {seconds : ℚ} {succeeded : Bool}
    {usage : Option TokenUsage} (h : Tallied env fresh w0 w) (helapsed : Elapsed env fresh seconds) :
    wp (recordTiming env node version attempt seconds succeeded usage) w
      (fun _ => Tallied env fresh w0) fun _ => Tallied env fresh w0 := by
  apply wp_mono wp_recordTiming_adds
  . intro _ _ hadds
    exact hadds.tallied helapsed h
  . intro _ _ hadds
    exact hadds.tallied helapsed h

theorem Timed.recordTiming {node : Node} {version attempt : Nat} {seconds : ℚ} {succeeded : Bool}
    {usage : Option TokenUsage} (h : Timed env fresh w0 w) (helapsed : Elapsed env fresh seconds) :
    wp (recordTiming env node version attempt seconds succeeded usage) w
      (fun _ => Timed env fresh w0) fun _ => Timed env fresh w0 := by
  have htimed : ∀ w', AddsTiming seconds w w' → Timed env fresh w0 w' := by
    intro w' hadds
    refine { hadds.tallied helapsed h.toTallied with record := ?_ }
    have hrecord : w'.record.started = w.record.started :=
      congrArg (fun times => times.2.2.2) hadds.1
    rw [hrecord]
    exact h.record
  exact wp_mono wp_recordTiming_adds (fun _ => htimed) fun _ => htimed

end Tallied

section Generator

variable {fresh : ℚ → Prop} {state : RunSnapshot} {plan : Option RevisionPlan} {attempt : Nat}

-- Where a program of the task goes on, and what is left if it raises.
def Advances (env : Env) (fresh : ℚ → Prop) (w0 : World) (program : Prog World Exn Pc) (w : World) :
    Prop :=
  wp program w (Advanced env fresh w0) fun _ => Tallied env fresh w0

theorem wp_recordSeconds_timed (h : Timed env fresh w0 w) :
    wp (recordSeconds env) w
      (fun seconds w' => Timed env fresh w0 w' ∧ Elapsed env fresh seconds)
      fun _ => Timed env fresh w0 := by
  unfold recordSeconds
  rw [wp_bind, wp_get, wp_bind, wp_monotonic, wp_pure]
  exact ⟨h.congr rfl, w.record.started, w.ticks, h.record, rfl⟩

theorem wp_attemptFailed_timed {exn : Exn} (h : Timed env fresh w0 w) :
    wp (attemptFailed env state attempt exn) w (fun _ => Timed env fresh w0)
      fun _ => Timed env fresh w0 := by
  have hrest : ∀ w', Timed env fresh w0 w' →
      wp (if 2 ≤ attempt then throw exn else pure () : Prog World Exn Unit) w'
        (fun _ => Timed env fresh w0) fun _ => Timed env fresh w0 := by
    intro w' h'
    split
    . exact h'
    . exact h'
  unfold attemptFailed
  rw [wp_bind]
  apply wp_mono (wp_recordSeconds_timed h)
  . rintro seconds w1 ⟨h1, helapsed⟩
    rw [wp_bind, wp_get, wp_bind]
    apply wp_mono (h1.recordTiming helapsed)
    . intro _ w2 h2
      rw [wp_bind, wp_get]
      dsimp only
      split
      . exact hrest w2 h2
      . rw [wp_bind]
        apply wp_mono (h2.keeping keeping_recordUsage_gauge)
        . intro _ w3 h3
          exact hrest w3 h3
        . intro _ w3 h3
          exact h3
    . intro _ w2 h2
      exact h2
  . intro _ w1 h1
    exact h1

theorem advances_commitVersion {content : String} {usage : TokenUsage}
    (h : Timed env fresh w0 w) :
    Advances env fresh w0 (commitVersion env state plan attempt content usage) w := by
  have hraised : ∀ (_ : Exn) w', Timed env fresh w0 w' → Tallied env fresh w0 w' :=
    fun _ _ h => h.toTallied
  have hfinish : ∀ cancelled version payload, Keeping World.gauge
      (commit env .none (finishGeneration cancelled version content attempt) (some .prdGenerated)
        payload) := by
    intro cancelled version payload
    apply keeping_commit_gauge
    unfold finishGeneration
    split
    . exact .throw _
    . exact .modify fun _ => rfl
  unfold Advances commitVersion
  rw [wp_bind]
  apply wp_mono (h.keeping keeping_checkCancel) _ hraised
  intro _ w1 h1
  rw [wp_bind]
  apply wp_mono (wp_recordSeconds_timed h1) _ hraised
  rintro elapsed w2 ⟨h2, helapsed⟩
  rw [wp_bind]
  apply wp_mono (h2.keeping keeping_utcNow) _ hraised
  intro now w3 h3
  split
  . exact h3.toTallied
  . rw [wp_bind, wp_get, wp_bind]
    apply wp_mono (h3.keeping (hfinish _ _ _)) _ hraised
    intro _ w4 h4
    rw [wp_bind]
    apply wp_mono (h4.keeping keeping_recordUsage_gauge) _ hraised
    intro _ w5 h5
    rw [wp_bind]
    apply wp_mono (h5.recordTiming helapsed) _ hraised
    intro _ w6 h6
    rw [wp_bind]
    apply wp_mono (h6.keeping keeping_setStage) _ hraised
    intro _ w7 h7
    rw [wp_pure]
    exact {
      h7.toTallied with
      starts := by simp [Pc.starts, ReviewerPc.starts]
      awake := rfl
    }

theorem advances_runAttempt {body : Prog World Exn (GeneratorFrame ⊕ (String × TokenUsage))}
    {retry : Prog World Exn Pc} (h : Timed env fresh w0 w) (hbody : Keeping World.gauge body)
    (hretry : ∀ w', Timed env fresh w0 w' → Advances env fresh w0 retry w') :
    Advances env fresh w0 (runAttempt env state plan attempt body retry) w := by
  unfold Advances runAttempt
  rw [wp_bind]
  have houtcome : wp
      (tryCatch
        (do
          let result ← body
          return some result)
        (fun exn => do
          if exn.isRetried then
            attemptFailed env state attempt exn
            return none
          else
            throw exn)) w
      (fun _ => Timed env fresh w0) fun _ => Timed env fresh w0 := by
    rw [wp_tryCatch, wp_bind]
    apply wp_mono (h.keeping hbody)
    . intro _ w1 h1
      exact h1
    . intro exn w1 h1
      rw [wp_ite]
      split
      . rw [wp_bind]
        exact wp_mono (wp_attemptFailed_timed h1) (fun _ _ h2 => h2) fun _ _ h2 => h2
      . exact h1
  apply wp_mono houtcome
  . intro outcome w1 h1
    split
    . exact hretry w1 h1
    . exact {
        h1.toTallied with
        starts := by
          intro started hstarted
          rw [List.mem_singleton.mp hstarted]
          exact h1.record
        awake := rfl
      }
    . exact advances_commitVersion h1
  . intro _ w1 h1
    exact h1.toTallied

theorem wp_restartRecord_timed (hreading : ∀ n, fresh (env.clock n)) (h : Tallied env fresh w0 w) :
    wp (restartRecord env) w (fun _ => Timed env fresh w0) fun _ => Tallied env fresh w0 := by
  unfold restartRecord
  rw [wp_bind, wp_monotonic, wp_modify]
  exact {
    clock := h.clock
    timings := h.timings
    record := hreading _
  }

theorem advances_startAttempt {retry : Prog World Exn Pc} (hreading : ∀ n, fresh (env.clock n))
    (h : Tallied env fresh w0 w)
    (hretry : ∀ w', Timed env fresh w0 w' → Advances env fresh w0 retry w') :
    Advances env fresh w0 (startAttempt env state plan attempt retry) w := by
  unfold Advances startAttempt
  rw [wp_bind]
  apply wp_mono (wp_restartRecord_timed hreading h)
  . intro _ w1 h1
    rw [wp_bind]
    apply wp_mono (h1.keeping keeping_commitBeginStream)
    . intro _ w2 h2
      apply advances_runAttempt h2 _ hretry
      apply Keeping.bind (keeping_openStream (overlooks_gauge _))
      intro frame
      exact .pure _
    . intro _ w2 h2
      exact h2.toTallied
  . intro _ w1 h1
    exact h1

theorem advances_retryAttempt (hreading : ∀ n, fresh (env.clock n)) (h : Tallied env fresh w0 w) :
    Advances env fresh w0 (retryAttempt env state plan attempt) w := by
  unfold retryAttempt
  split
  . apply advances_startAttempt hreading h
    intro w' h'
    exact h'.toTallied
  . exact h

theorem advances_generatorNode (hreading : ∀ n, fresh (env.clock n)) :
    Advances env fresh w (generatorNode env) w := by
  unfold Advances generatorNode
  rw [wp_bind]
  apply wp_mono ((Tallied.refl w).keeping keeping_checkCancel)
  . intro _ w1 h1
    rw [wp_bind]
    apply wp_mono (h1.keeping keeping_setStage)
    . intro state w2 h2
      rw [wp_bind]
      apply wp_mono (h2.keeping keeping_markNode)
      . intro _ w3 h3
        dsimp only
        rw [wp_bind]
        apply wp_mono (wp_restartRecord_timed hreading h3)
        . intro _ w4 h4
          apply advances_startAttempt hreading h4.toTallied
          intro w5 h5
          exact advances_retryAttempt hreading h5.toTallied
        . intro _ w4 h4
          exact h4
      . intro _ w3 h3
        exact h3
    . intro _ w2 h2
      exact h2
  . intro _ w1 h1
    exact h1

theorem advances_generatorWake {frame : GeneratorFrame}
    {answer : Answer (Option ProviderTextEvent)} (hreading : ∀ n, fresh (env.clock n))
    (hstarted : fresh w.record.started) :
    Advances env fresh w (generatorWake env frame answer) w := by
  have h : Timed env fresh w w := { Tallied.refl w with record := hstarted }
  apply advances_runAttempt h keeping_resumeStream
  intro w' h'
  exact advances_retryAttempt hreading h'.toTallied

end Generator

section Reviewer

variable {fresh : ℚ → Prop} {role : ReviewRole}

-- Where a reviewer goes on.
structure Reviewed (env : Env) (fresh : ℚ → Prop) (w0 : World) (reviewer : ReviewerPc) (w : World) :
    Prop extends Tallied env fresh w0 w where
  starts : ∀ started ∈ reviewer.starts, fresh started

theorem reviewed_reviewerNode (hreading : ∀ n, fresh (env.clock n)) :
    wp (reviewerNode env role) w (Reviewed env fresh w) fun _ => Tallied env fresh w := by
  have hraised : ∀ (_ : Exn) w', Tallied env fresh w w' → Tallied env fresh w w' :=
    fun _ _ h => h
  unfold reviewerNode
  rw [wp_bind]
  apply wp_mono ((Tallied.refl w).keeping keeping_checkCancel) _ hraised
  intro _ w1 h1
  rw [wp_bind, wp_monotonic, wp_bind]
  have htick : Tallied env fresh w w1.tick := h1.congr rfl
  apply wp_mono (htick.keeping keeping_markNode) _ hraised
  intro _ w2 h2
  rw [wp_bind, wp_get, wp_bind]
  apply wp_mono (h2.keeping (keeping_structuredCall (overlooks_gauge _))) _ hraised
  intro structured w3 h3
  rw [wp_pure]
  refine { h3 with starts := ?_ }
  intro started hstarted
  rw [List.mem_singleton.mp hstarted]
  apply hreading

theorem reviewed_commitReview {frame : NodeFrame} {result : ProviderStructuredResult}
    {review : RoleReview} (hstarted : fresh frame.started) (h : Tallied env fresh w0 w) :
    wp (commitReview env role frame result review) w (Reviewed env fresh w0)
      fun _ => Tallied env fresh w0 := by
  have hraised : ∀ (_ : Exn) w', Tallied env fresh w0 w' → Tallied env fresh w0 w' :=
    fun _ _ h => h
  unfold commitReview
  rw [wp_ite]
  split
  . rw [wp_bind]
    apply wp_mono (h.keeping keeping_checkCancel) _ hraised
    intro _ w1 h1
    rw [wp_bind, wp_get, wp_bind]
    apply wp_mono (h1.keeping (Unmarked.keeps_commit .reviewed)) _ hraised
    intro _ w2 h2
    rw [wp_bind]
    apply wp_mono (h2.keeping keeping_recordUsage_gauge) _ hraised
    intro _ w3 h3
    rw [wp_bind, wp_monotonic, wp_bind]
    have htick : Tallied env fresh w0 w3.tick := h3.congr rfl
    have helapsed : Elapsed env fresh (env.clock w3.ticks - frame.started) :=
      ⟨frame.started, w3.ticks, hstarted, rfl⟩
    apply wp_mono (htick.recordTiming helapsed) _ hraised
    intro _ w4 h4
    rw [wp_pure]
    exact { h4 with starts := List.forall_mem_nil _ }
  . exact h

theorem reviewed_reviewerWake {env : WorkflowEnv} {frame : NodeFrame} {structured : StructuredPc}
    {answer : Answer ProviderStructuredResult} (hstarted : fresh frame.started) :
    wp (reviewerWake env role frame structured answer) w (Reviewed env.toEnv fresh w)
      fun _ => Tallied env.toEnv fresh w := by
  unfold reviewerWake
  rw [wp_bind]
  apply wp_mono ((Tallied.refl w).keeping (keeping_structuredWake (overlooks_gauge _) fun _ =>
    overlooks_gauge _))
  . intro outcome w1 h1
    split
    . rw [wp_pure]
      refine { h1 with starts := ?_ }
      intro started hmem
      rw [List.mem_singleton.mp hmem]
      exact hstarted
    . exact reviewed_commitReview hstarted h1
  . intro _ w1 h1
    exact h1

end Reviewer

section Optimizer

variable {fresh : ℚ → Prop}

theorem advances_startOptimizer (hreading : ∀ n, fresh (env.clock n)) (h : Tallied env fresh w0 w) :
    Advances env fresh w0 (startOptimizer env) w := by
  have hraised : ∀ (_ : Exn) w', Tallied env fresh w0 w' → Tallied env fresh w0 w' :=
    fun _ _ h => h
  unfold Advances startOptimizer
  rw [wp_bind, wp_monotonic, wp_bind]
  have htick : Tallied env fresh w0 w.tick := h.congr rfl
  apply wp_mono (htick.keeping keeping_markNode) _ hraised
  intro _ w1 h1
  rw [wp_bind, wp_get]
  split
  . exact h1
  . rw [wp_bind]
    apply wp_mono (h1.keeping (keeping_structuredCall (overlooks_gauge _))) _ hraised
    intro structured w2 h2
    rw [wp_pure]
    refine { h2 with starts := ?_, awake := rfl }
    intro started hstarted
    rw [List.mem_singleton.mp hstarted]
    apply hreading

theorem advances_commitPlan {frame : NodeFrame} {result : ProviderStructuredResult}
    {plan : RevisionPlan} (hstarted : fresh frame.started) (h : Tallied env fresh w0 w) :
    Advances env fresh w0 (commitPlan env frame result plan) w := by
  have hraised : ∀ (_ : Exn) w', Tallied env fresh w0 w' → Tallied env fresh w0 w' :=
    fun _ _ h => h
  have hfinish : ∀ cancelled payload, Keeping World.gauge
      (commit env .none (finishOptimizer cancelled plan) (some .revisionPlanned) payload) := by
    intro cancelled payload
    apply keeping_commit_gauge
    unfold finishOptimizer
    split
    . exact .throw _
    . exact .modify fun _ => rfl
  unfold Advances commitPlan
  rw [wp_bind]
  apply wp_mono (h.keeping keeping_checkCancel) _ hraised
  intro _ w1 h1
  rw [wp_bind, wp_get, wp_bind]
  apply wp_mono (h1.keeping (hfinish _ _)) _ hraised
  intro _ w2 h2
  rw [wp_bind]
  apply wp_mono (h2.keeping keeping_recordUsage_gauge) _ hraised
  intro _ w3 h3
  rw [wp_bind, wp_monotonic, wp_bind]
  have htick : Tallied env fresh w0 w3.tick := h3.congr rfl
  have helapsed : Elapsed env fresh (env.clock w3.ticks - frame.started) :=
    ⟨frame.started, w3.ticks, hstarted, rfl⟩
  apply wp_mono (htick.recordTiming helapsed) _ hraised
  intro _ w4 h4
  rw [wp_bind]
  apply wp_mono (h4.keeping keeping_setStage) _ hraised
  intro _ w5 h5
  rw [wp_pure]
  exact { h5 with starts := List.forall_mem_nil _, awake := rfl }

theorem advances_optimizerWake {env : WorkflowEnv} {frame : NodeFrame} {structured : StructuredPc}
    {answer : Answer ProviderStructuredResult} (hstarted : fresh frame.started) :
    Advances env.toEnv fresh w (optimizerWake env frame structured answer) w := by
  unfold Advances optimizerWake
  split
  . exact Tallied.refl w
  . rw [wp_bind]
    apply wp_mono ((Tallied.refl w).keeping (keeping_structuredWake (overlooks_gauge _) fun _ =>
      overlooks_gauge _))
    . intro outcome w1 h1
      split
      . rw [wp_pure]
        refine { h1 with starts := ?_, awake := rfl }
        intro started hmem
        rw [List.mem_singleton.mp hmem]
        exact hstarted
      . exact advances_commitPlan hstarted h1
    . intro _ w1 h1
      exact h1

end Optimizer

end Workflow

end AgenticPrd
