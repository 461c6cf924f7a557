import AgenticPrd.Backend.Workflow.Parking
import AgenticPrd.Backend.Workflow.Pause

/-!
A run in time: what `active_elapsed` leaves out is what the run has spent PAUSED. A step of a task
may take time and reads the clock as it goes, and a request takes effect at one reading.
-/

namespace AgenticPrd

def WorkflowEnv.withClock (env : WorkflowEnv) (clock : Nat → ℚ) : WorkflowEnv :=
  { env with clock }

namespace Workflow

open RunManager Prog Transition

-- A run at a time, with the intervals that it has been PAUSED in.
structure Moment where
  config : Config
  created : ℚ
  now : ℚ
  pauses : List (ℚ × ℚ)

namespace Moment

def world (m : Moment) : World :=
  m.config.world

def status (m : Moment) : RunStatus :=
  m.world.snapshot.status

def starts (m : Moment) : List ℚ :=
  m.config.pc.starts m.world

def pausedTime (m : Moment) : ℚ :=
  (m.pauses.map fun pause => pause.2 - pause.1).sum

-- The time since the run was created, without the time that it has been PAUSED.
def activeTime (m : Moment) : ℚ :=
  m.now - m.created - m.pausedTime

-- `active_elapsed` and `remaining_run_seconds`, when they are read now.
def activeElapsed (env : WorkflowEnv) (m : Moment) : Except Exn ℚ :=
  ((RunManager.activeElapsed (env.withClock fun _ => m.now).toEnv).run m.world).1

def remainingRunSeconds (env : WorkflowEnv) (m : Moment) : Except Exn ℚ :=
  ((RunManager.remainingRunSeconds (env.withClock fun _ => m.now).toEnv).run m.world).1

def init (env : WorkflowEnv) (created : ℚ) (runId : RunId) (request : CreateRunRequest)
    (outputLanguage : String) (bufferSize : Nat) : Moment :=
  {
    config := Workflow.init (env.withClock fun _ => created).toEnv runId request outputLanguage
      bufferSize
    created
    now := created
    pauses := []
  }

end Moment

-- Time passes, or a step is taken, which ends at its last reading of the clock.
inductive Happening where
  | wait (finish : ℚ)
  | act (label : Label) (clock : Nat → ℚ) (finish : ℚ)

def happen (env : WorkflowEnv) (m : Moment) : Happening → Option Moment
  | .wait finish =>
    some {
      m with
      now := finish
      pauses := if m.status = .paused then m.pauses ++ [(m.now, finish)] else m.pauses
    }
  | .act label clock finish => do
    let config ← step (env.withClock clock) m.config label
    if clock (config.world.ticks - 1) = finish then
      some { m with config, now := finish }
    else
      none

-- Time does not go back, and a request takes none.
def InTime (m : Moment) : Happening → Prop
  | .wait finish => m.now ≤ finish
  | .act label clock finish =>
    (∀ n, m.now ≤ clock n ∧ clock n ≤ finish) ∧ (label.isRequest = true → finish = m.now)

def PausedInTime (m : Moment) (happening : Happening) : Prop :=
  InTime m happening ∧ m.status = .paused

def Moments (env : WorkflowEnv) (created : ℚ) (runId : RunId) (request : CreateRunRequest)
    (outputLanguage : String) (bufferSize : Nat) (m : Moment) : Prop :=
  Steps (happen env) InTime (Moment.init env created runId request outputLanguage bufferSize) m

/--
The seconds of a timing are those from a start, which a node had noted before or reads in the step,
to a later reading in the step, and every pause is over by that start.
-/
def Unpaused (m m' : Moment) (timing : NodeTiming) : Prop :=
  ∃ started reading,
    (started ∈ m.starts ∨ m.now ≤ started)
      ∧ (m.now ≤ reading ∧ reading ≤ m'.now)
      ∧ timing.seconds = Rounding.round (max 0 (reading - started)) 2
      ∧ ∀ pause ∈ m'.pauses, pause.2 ≤ started

structure ActiveTime (env : WorkflowEnv) (m : Moment) : Prop where
  elapsed : m.status.isTerminal = false → m.activeElapsed env = .ok m.activeTime
  nonneg : 0 ≤ m.activeTime
  grows : ∀ m', Steps (happen env) InTime m m' → m.activeTime ≤ m'.activeTime
  remaining :
    m.status = .paused →
      ∀ m', Steps (happen env) PausedInTime m m' → m'.status = .paused →
        m'.remainingRunSeconds env = m.remainingRunSeconds env
  timings :
    ∀ happening m', InTime m happening → happen env m happening = some m' →
      ∃ new, m'.world.snapshot.nodeTimings = m.world.snapshot.nodeTimings ++ new
        ∧ ∀ timing ∈ new, Unpaused m m' timing

/--
How the bookkeeping of the run stands to the pauses that there have been.
-/
structure Timely (m : Moment) : Prop where
  inv : Inv m.config
  created : m.world.activeStarted = some m.created
  past : ∀ pause ∈ m.pauses, pause.2 ≤ m.now
  bounded : 0 ≤ m.activeTime
  starts : ∀ started ∈ m.starts, ∀ pause ∈ m.pauses, pause.2 ≤ started
  paused :
    m.status = .paused →
      ∃ pausedAt, m.world.pausedStarted = some pausedAt
        ∧ m.pausedTime = m.world.pausedTotal + (m.now - pausedAt)
  running :
    m.status ≠ .paused → m.status.isTerminal = false →
      m.world.pausedStarted = none ∧ m.pausedTime = m.world.pausedTotal

variable {env : WorkflowEnv} {m m' : Moment} {happening : Happening}

theorem Timely.init {created : ℚ} {runId : RunId} {request : CreateRunRequest}
    {outputLanguage : String} {bufferSize : Nat} :
    Timely (Moment.init env created runId request outputLanguage bufferSize) :=
  {
    inv := Inv.init
    created := rfl
    past := List.forall_mem_nil _
    bounded := by simp [Moment.activeTime, Moment.pausedTime, Moment.init]
    starts := List.forall_mem_nil _
    paused := by
      intro hstatus
      contradiction
    running := fun _ _ => ⟨rfl, rfl⟩
  }

section Elapsed

theorem Moment.pausedTime_append {pauses : List (ℚ × ℚ)} {finish : ℚ} :
    ((pauses ++ [(m.now, finish)]).map fun pause => pause.2 - pause.1).sum
      =
    (pauses.map fun pause => pause.2 - pause.1).sum + (finish - m.now) := by
  simp

theorem Timely.wp_activeElapsed (h : Timely m) (hopen : m.status.isTerminal = false) :
    wp (activeElapsed (env.withClock fun _ => m.now).toEnv) m.world
      (fun elapsed _ => elapsed = m.activeTime) fun _ _ => False := by
  have hbounded := h.bounded
  unfold Moment.activeTime at hbounded ⊢
  unfold activeElapsed
  rw [wp_bind, wp_get]
  simp only [h.created]
  by_cases hpaused : m.status = .paused
  . obtain ⟨pausedAt, hpausedStarted, htotal⟩ := h.paused hpaused
    simp only [hpausedStarted]
    rw [wp_bind, wp_monotonic, wp_bind, wp_monotonic, wp_pure]
    dsimp only [WorkflowEnv.withClock]
    rw [← htotal]
    exact max_eq_right hbounded
  . obtain ⟨hpausedStarted, htotal⟩ := h.running hpaused hopen
    simp only [hpausedStarted]
    rw [wp_bind, wp_monotonic, wp_pure]
    dsimp only [WorkflowEnv.withClock]
    rw [← htotal]
    exact max_eq_right hbounded

theorem Timely.activeElapsed (h : Timely m) (hopen : m.status.isTerminal = false) :
    m.activeElapsed env = .ok m.activeTime :=
  run_eq_of_wp (h.wp_activeElapsed hopen)

theorem Timely.remainingRunSeconds (h : Timely m) (hopen : m.status.isTerminal = false) :
    m.remainingRunSeconds env
      = .ok (max 0 (env.settings.runTimeoutSeconds - m.activeTime)) := by
  apply run_eq_of_wp
  unfold RunManager.remainingRunSeconds
  rw [wp_bind]
  apply wp_mono (h.wp_activeElapsed hopen)
  . intro elapsed w helapsed
    rw [helapsed]
    rfl
  . intro _ _ hraised
    exact hraised

end Elapsed

section Requests

-- A step that leaves the times as they are, and that neither pauses the run nor resumes it.
theorem Timely.kept {config : Config} (h : Timely m) (hinv : Inv config)
    (hgauge : config.world.gauge = m.world.gauge) (hpc : config.pc = m.config.pc)
    (hpaused : config.world.snapshot.status = .paused → m.status = .paused)
    (hopen : config.world.snapshot.status ≠ .paused →
      config.world.snapshot.status.isTerminal = false →
        m.status ≠ .paused ∧ m.status.isTerminal = false) :
    Timely { m with config } := by
  unfold World.gauge World.times at hgauge
  simp only [Prod.mk.injEq] at hgauge
  obtain ⟨_, hactive, hpausedStarted, htotal, hrecord⟩ := hgauge
  exact {
    inv := hinv
    created := hactive.trans h.created
    past := h.past
    bounded := h.bounded
    starts := by
      have hstarts : config.pc.starts config.world = m.starts := by
        rw [hpc]
        unfold Moment.starts Pc.starts
        rw [hrecord]
      intro started hstarted
      apply h.starts
      rw [← hstarts]
      exact hstarted
    paused := by
      intro hstatus
      obtain ⟨pausedAt, hat, hsum⟩ := h.paused (hpaused hstatus)
      refine ⟨pausedAt, hpausedStarted.trans hat, ?_⟩
      change m.pausedTime = config.world.pausedTotal + (m.now - pausedAt)
      rw [htotal]
      exact hsum
    running := by
      intro hstatus hterminal
      obtain ⟨hne, hopen'⟩ := hopen hstatus hterminal
      obtain ⟨hnone, hsum⟩ := h.running hne hopen'
      exact ⟨hpausedStarted.trans hnone, hsum.trans htotal.symm⟩
  }

theorem Timely.requestPause {env : WorkflowEnv} (h : Timely m) :
    Timely { m with config := serve m.config (requestPause env.toEnv) } := by
  have hstep : step env m.config .requestPause
      = some (serve m.config (RunManager.requestPause env.toEnv)) := rfl
  have hstatus : (serve m.config (RunManager.requestPause env.toEnv)).world.snapshot.status = m.status
      ∨
    ((serve m.config (RunManager.requestPause env.toEnv)).world.snapshot.status = .pauseRequested
      ∧ m.status ∈ [RunStatus.generating, .reviewing, .aggregating, .optimizing]) := by
    apply serve_world (P := fun w' => w'.snapshot.status = m.status
      ∨ w'.snapshot.status = .pauseRequested
        ∧ m.status ∈ [RunStatus.generating, .reviewing, .aggregating, .optimizing])
    apply wp_requestPause_sound h.inv.sound (.inl rfl)
    intro hpausable w' _ hview
    right
    refine ⟨?_, hpausable⟩
    have hstatus' := congrArg View.status hview
    exact hstatus'
  apply h.kept (Keeps.step h.inv hstep).inv
  . exact keeping_requestPause.run m.world
  . rfl
  . intro hpaused
    rcases hstatus with hsame | ⟨hrequested, _⟩
    . rw [← hsame, hpaused]
    . rw [hrequested] at hpaused
      contradiction
  . intro hne hopen
    rcases hstatus with hsame | ⟨_, hpausable⟩
    . rw [← hsame]
      exact ⟨hne, hopen⟩
    . generalize m.status = status at hpausable
      revert hpausable
      cases status <;> simp [RunStatus.isTerminal]

theorem Timely.cancelRun {env : WorkflowEnv} (h : Timely m) :
    Timely { m with config := serve m.config (cancelRun env.toEnv) } := by
  have hstep : step env m.config .cancelRun
      = some (serve m.config (RunManager.cancelRun env.toEnv)) := rfl
  have hstatus : (serve m.config (RunManager.cancelRun env.toEnv)).world.snapshot.status = m.status
      ∨
    (serve m.config (RunManager.cancelRun env.toEnv)).world.snapshot.status = .cancelled := by
    apply serve_world (P := fun w' => w'.snapshot.status = m.status
      ∨ w'.snapshot.status = .cancelled)
    apply wp_cancelRun_sound h.inv.sound (fun _ => .inl rfl) (fun _ _ => .inl rfl)
    intro _ w' _ hview
    right
    exact congrArg View.status hview
  apply h.kept (Keeps.step h.inv hstep).inv
  . exact keeping_cancelRun.run m.world
  . rfl
  . intro hpaused
    rcases hstatus with hsame | hcancelled
    . rw [← hsame, hpaused]
    . rw [hcancelled] at hpaused
      contradiction
  . intro hne hopen
    rcases hstatus with hsame | hcancelled
    . rw [← hsame]
      exact ⟨hne, hopen⟩
    . rw [hcancelled] at hopen
      contradiction

-- A resume takes effect at the reading that it counts the pause by.
theorem Timely.resumeRun {env : WorkflowEnv} {userOverride : Option String} (h : Timely m)
    (hclock : ∀ n, env.clock n = m.now) :
    Timely { m with config := serve m.config (resumeRun env.toEnv userOverride) } := by
  have hstep : step env m.config (.resumeRun userOverride)
      = some (serve m.config (RunManager.resumeRun env.toEnv userOverride)) := rfl
  have hinv := (Keeps.step h.inv hstep).inv
  by_cases hpaused : m.status = .paused
  . obtain ⟨pausedAt, hat, hsum⟩ := h.paused hpaused
    have hunparked : Unparked env.toEnv pausedAt m.world
        (serve m.config (RunManager.resumeRun env.toEnv userOverride)).world := by
      apply serve_world (P := Unparked env.toEnv pausedAt m.world)
      exact wp_resumeRun_unparked hpaused hat
    have hstatus : (serve m.config (RunManager.resumeRun env.toEnv userOverride)).world.snapshot.status
        = .optimizing := by
      apply serve_world (P := fun w' => w'.snapshot.status = .optimizing)
      apply wp_resumeRun_sound h.inv.sound
      . intro hne
        exact absurd hpaused hne
      . intro _ w' _ hview
        exact congrArg View.status hview
    obtain ⟨_, n, htimes⟩ := hunparked
    unfold World.times at htimes
    simp only [Prod.mk.injEq] at htimes
    obtain ⟨hactive, hpausedStarted, htotal, hrecord⟩ := htimes
    rw [hclock n] at htotal
    exact {
      inv := hinv
      created := hactive.trans h.created
      past := h.past
      bounded := h.bounded
      starts := by
        intro started hstarted
        apply h.starts
        unfold Moment.starts Moment.world at hstarted ⊢
        have hpc : (serve m.config (RunManager.resumeRun env.toEnv userOverride)).pc = m.config.pc :=
          rfl
        dsimp only at hstarted
        unfold Pc.starts at hstarted ⊢
        rw [hpc, hrecord] at hstarted
        exact hstarted
      paused := by
        intro hstatus'
        have hcontra := hstatus.symm.trans hstatus'
        contradiction
      running := by
        intro _ _
        refine ⟨hpausedStarted, ?_⟩
        change m.pausedTime = _
        rw [hsum]
        exact htotal.symm
    }
  . have hsame : (serve m.config (RunManager.resumeRun env.toEnv userOverride)).world = m.world := by
      apply serve_world (P := fun w' => w' = m.world)
      exact wp_resumeRun_refused hpaused
    apply h.kept hinv
    . rw [hsame]
    . rfl
    . intro hstatus
      rw [hsame] at hstatus
      exact hstatus
    . intro hstatus hopen
      rw [hsame] at hstatus hopen
      exact ⟨hstatus, hopen⟩

end Requests

section Steps

theorem starts_of_wake {w : World} {pc : Pc} (hwake : wake pc ≠ none) : pc.starts w = [] := by
  cases pc with
  | aggregatorParked => rfl
  | optimizerParked staged => rfl
  | _ => contradiction

-- What the steps of a task may measure by: what had been noted before, and their own readings.
def Noted (env : Env) (m : Moment) (started : ℚ) : Prop :=
  started ∈ m.starts ∨ ∃ n, started = env.clock n

theorem Timely.stepTask {label : Label} {c' : Config} {finish : ℚ} (h : Timely m)
    (hrequest : label.isRequest = false) (hclock : ∀ n, m.now ≤ env.clock n ∧ env.clock n ≤ finish)
    (hstep : step env m.config label = some c') (hfinish : env.clock (c'.world.ticks - 1) = finish) :
    Timely { m with config := c', now := finish } := by
  have hkeeps := Keeps.step h.inv hstep
  have htask := step_stepTask hrequest hstep
  have hstepped : Stepped env.toEnv (Noted env.toEnv m) m.world c'.pc c'.world :=
    stepTask_stepped (fun n => .inr ⟨n, rfl⟩) (fun _ => .inl) htask
  have hnow : m.now ≤ finish := (hclock 0).1.trans (hclock 0).2
  have hne : m.status ≠ .paused := by
    intro hpaused
    rw [stepTask_paused h.inv hpaused] at htask
    contradiction
  have hopen : c'.world.snapshot.status.isTerminal = false → m.status.isTerminal = false := by
    intro hopen'
    by_contra hterminal
    have hsame := hkeeps.terminal h.inv (Bool.eq_true_of_not_eq_false hterminal)
    rw [hsame] at hopen'
    exact hterminal hopen'
  have hpast : ∀ pause ∈ m.pauses, pause.2 ≤ finish :=
    fun pause hpause => (h.past pause hpause).trans hnow
  have hbounded : 0 ≤ finish - m.created - m.pausedTime := by
    have hbefore := h.bounded
    unfold Moment.activeTime at hbefore
    linarith
  cases hstepped with
  | inl hadvanced =>
    obtain ⟨hactive, hpausedStarted, htotal⟩ := hadvanced.pauseClock
    exact {
      inv := hkeeps.inv
      created := hactive.trans h.created
      past := hpast
      bounded := hbounded
      starts := by
        intro started hstarted pause hpause
        rcases hadvanced.starts started hstarted with hold | ⟨n, hreading⟩
        . exact h.starts started hold pause hpause
        . rw [hreading]
          exact (h.past pause hpause).trans (hclock n).1
      paused := by
        intro hpaused
        obtain ⟨parked, hparked⟩ := hkeeps.inv.pc.parked hpaused
        rw [hadvanced.awake] at hparked
        contradiction
      running := by
        intro _ hopen'
        obtain ⟨hnone, hsum⟩ := h.running hne (hopen hopen')
        exact ⟨hpausedStarted.trans hnone, hsum.trans htotal.symm⟩
    }
  | inr hparks =>
    obtain ⟨n, hpauseClock, hticks⟩ := hparks.clock
    unfold World.pauseClock at hpauseClock
    simp only [Prod.mk.injEq] at hpauseClock
    obtain ⟨hactive, hpausedStarted, htotal⟩ := hpauseClock
    have hreading : env.clock n = finish := by
      rw [hticks] at hfinish
      exact hfinish
    exact {
      inv := hkeeps.inv
      created := hactive.trans h.created
      past := hpast
      bounded := hbounded
      starts := by
        have hnone : c'.pc.starts c'.world = [] := starts_of_wake hparks.parked
        unfold Moment.starts Moment.world
        dsimp only
        rw [hnone]
        exact List.forall_mem_nil _
      paused := by
        intro hpaused
        have hopen' : m.status.isTerminal = false := by
          apply hopen
          have hstatus : c'.world.snapshot.status = .paused := hpaused
          rw [hstatus]
          rfl
        obtain ⟨_, hsum⟩ := h.running hne hopen'
        refine ⟨env.clock n, hpausedStarted, ?_⟩
        change m.pausedTime = c'.world.pausedTotal + (finish - env.clock n)
        rw [hreading, sub_self, add_zero, htotal]
        exact hsum
      running := by
        intro hstatus hopen'
        obtain ⟨parked, hparked⟩ := Option.ne_none_iff_exists'.mp hparks.parked
        exact absurd (hkeeps.inv.paused_of_parked hparked hparks.resumeSignal hopen') hstatus
    }

theorem Timely.wait {finish : ℚ} (h : Timely m) (hfinish : m.now ≤ finish) :
    Timely {
      m with
      now := finish
      pauses := if m.status = .paused then m.pauses ++ [(m.now, finish)] else m.pauses
    } := by
  have hbounded := h.bounded
  unfold Moment.activeTime at hbounded
  split
  . next hpaused =>
    have hsum : ((m.pauses ++ [(m.now, finish)]).map fun pause => pause.2 - pause.1).sum
        = m.pausedTime + (finish - m.now) := Moment.pausedTime_append
    exact {
      inv := h.inv
      created := h.created
      past := by
        simp only [List.mem_append, List.mem_singleton]
        rintro pause (hpause | rfl)
        . exact (h.past pause hpause).trans hfinish
        . exact le_rfl
      bounded := by
        unfold Moment.activeTime Moment.pausedTime
        dsimp only
        rw [hsum]
        linarith
      starts := by
        obtain ⟨parked, hparked⟩ := h.inv.pc.parked hpaused
        have hnone : m.config.pc.starts m.config.world = [] := by
          apply starts_of_wake
          rw [hparked]
          simp
        unfold Moment.starts Moment.world
        dsimp only
        rw [hnone]
        exact List.forall_mem_nil _
      paused := by
        intro _
        obtain ⟨pausedAt, hat, htotal⟩ := h.paused hpaused
        refine ⟨pausedAt, hat, ?_⟩
        unfold Moment.pausedTime
        dsimp only
        rw [hsum, htotal]
        change _ = m.world.pausedTotal + (finish - pausedAt)
        ring
      running := fun hstatus => absurd hpaused hstatus
    }
  . next hpaused =>
    exact {
      inv := h.inv
      created := h.created
      past := fun pause hpause => (h.past pause hpause).trans hfinish
      bounded := by
        unfold Moment.activeTime
        change 0 ≤ finish - m.created - m.pausedTime
        linarith
      starts := h.starts
      paused := fun hstatus => absurd hstatus hpaused
      running := h.running
    }

theorem clock_request {label : Label} {clock : Nat → ℚ} {finish : ℚ}
    (hallowed : InTime m (.act label clock finish)) (hrequest : label.isRequest = true) (n : Nat) :
    clock n = m.now := by
  obtain ⟨hclock, hfinish⟩ := hallowed
  have hbounds := hclock n
  rw [hfinish hrequest] at hbounds
  exact le_antisymm hbounds.2 hbounds.1

theorem Timely.happen (h : Timely m) (hallowed : InTime m happening)
    (hhappen : happen env m happening = some m') : Timely m' := by
  cases happening with
  | wait finish =>
    cases hhappen
    exact h.wait hallowed
  | act label clock finish =>
    unfold Workflow.happen at hhappen
    simp only [Option.bind_eq_bind, Option.bind_eq_some_iff] at hhappen
    obtain ⟨config, hstep, hhappen⟩ := hhappen
    split at hhappen
    . next hfinish =>
      cases hhappen
      cases hrequest : label.isRequest with
      | false => exact h.stepTask hrequest hallowed.1 hstep hfinish
      | true =>
        have hnow : finish = m.now := hallowed.2 hrequest
        have hclock := clock_request hallowed hrequest
        subst hnow
        cases label with
        | requestPause =>
          cases hstep
          exact h.requestPause
        | resumeRun userOverride =>
          cases hstep
          exact h.resumeRun hclock
        | cancelRun =>
          cases hstep
          exact h.cancelRun
        | _ => contradiction
    . contradiction

theorem Timely.steps {ok : Moment → Happening → Prop} (h : Timely m)
    (hok : ∀ m happening, ok m happening → InTime m happening)
    (hrun : Steps (Workflow.happen env) ok m m') : Timely m' := by
  apply hrun.invariant h
  intro m1 happening m2 h1 hallowed hhappen
  exact h1.happen (hok _ _ hallowed) hhappen

end Steps

section ActiveTime

theorem activeTime_wait {finish : ℚ} {pauses : List (ℚ × ℚ)} :
    Moment.activeTime { m with now := finish, pauses := pauses ++ [(m.now, finish)] }
      =
    Moment.activeTime { m with pauses } := by
  unfold Moment.activeTime Moment.pausedTime
  rw [Moment.pausedTime_append]
  ring

theorem happen_grows (hallowed : InTime m happening) (hhappen : happen env m happening = some m') :
    m.activeTime ≤ m'.activeTime := by
  cases happening with
  | wait finish =>
    cases hhappen
    split
    . exact activeTime_wait.ge
    . have hfinish : m.now ≤ finish := hallowed
      change m.now - m.created - m.pausedTime ≤ finish - m.created - m.pausedTime
      linarith
  | act label clock finish =>
    have hfinish : m.now ≤ finish := (hallowed.1 0).1.trans (hallowed.1 0).2
    unfold happen at hhappen
    simp only [Option.bind_eq_bind, Option.bind_eq_some_iff] at hhappen
    obtain ⟨config, _, hhappen⟩ := hhappen
    split at hhappen
    . cases hhappen
      change m.now - m.created - m.pausedTime ≤ finish - m.created - m.pausedTime
      linarith
    . contradiction

-- While the run is PAUSED, the time that is left does not change.
theorem Timely.stands (h : Timely m) (hallowed : PausedInTime m happening)
    (hhappen : Workflow.happen env m happening = some m') : m'.activeTime = m.activeTime := by
  obtain ⟨hallowed, hpaused⟩ := hallowed
  cases happening with
  | wait finish =>
    cases hhappen
    split
    . exact activeTime_wait
    . contradiction
  | act label clock finish =>
    unfold Workflow.happen at hhappen
    simp only [Option.bind_eq_bind, Option.bind_eq_some_iff] at hhappen
    obtain ⟨config, hstep, hhappen⟩ := hhappen
    split at hhappen
    . cases hhappen
      cases hrequest : label.isRequest with
      | false =>
        have htask := step_stepTask hrequest hstep
        rw [stepTask_paused h.inv hpaused] at htask
        contradiction
      | true =>
        have hfinish := hallowed.2 hrequest
        subst hfinish
        rfl
    . contradiction

theorem Timely.stays {m1 : Moment} (h : Timely m)
    (hrun : Steps (Workflow.happen env) PausedInTime m m1) : m1.activeTime = m.activeTime := by
  have hinvariant : Timely m1 ∧ m1.activeTime = m.activeTime := by
    apply hrun.invariant (I := fun m1 => Timely m1 ∧ m1.activeTime = m.activeTime) ⟨h, rfl⟩
    rintro m1 happening m2 ⟨h1, hsame⟩ hallowed hhappen
    exact ⟨h1.happen hallowed.1 hhappen, (h1.stands hallowed hhappen).trans hsame⟩
  exact hinvariant.2

-- What a node measures lies after the last pause.
theorem Timely.unpaused {label : Label} {clock : Nat → ℚ} {finish : ℚ} {config : Config}
    {timing : NodeTiming} (h : Timely m) (hallowed : InTime m (.act label clock finish))
    (hmeasured : Measured (env.withClock clock).toEnv (Noted (env.withClock clock).toEnv m) timing) :
    Unpaused m { m with config, now := finish } timing := by
  obtain ⟨seconds, ⟨started, n, hstarted, hseconds⟩, htiming⟩ := hmeasured
  refine ⟨started, clock n, ?_, hallowed.1 n, ?_, ?_⟩
  . rcases hstarted with hold | ⟨n', hreading⟩
    . exact .inl hold
    . right
      rw [hreading]
      exact (hallowed.1 n').1
  . rw [htiming, hseconds]
    rfl
  . intro pause hpause
    rcases hstarted with hold | ⟨n', hreading⟩
    . exact h.starts started hold pause hpause
    . rw [hreading]
      exact (h.past pause hpause).trans (hallowed.1 n').1

theorem Timely.timings (h : Timely m) (hallowed : InTime m happening)
    (hhappen : Workflow.happen env m happening = some m') :
    ∃ new, m'.world.snapshot.nodeTimings = m.world.snapshot.nodeTimings ++ new
      ∧ ∀ timing ∈ new, Unpaused m m' timing := by
  cases happening with
  | wait finish =>
    cases hhappen
    exact ⟨[], (List.append_nil _).symm, List.forall_mem_nil _⟩
  | act label clock finish =>
    unfold Workflow.happen at hhappen
    simp only [Option.bind_eq_bind, Option.bind_eq_some_iff] at hhappen
    obtain ⟨config, hstep, hhappen⟩ := hhappen
    split at hhappen
    . cases hhappen
      cases hrequest : label.isRequest with
      | false =>
        have hstepped : Stepped (env.withClock clock).toEnv (Noted (env.withClock clock).toEnv m)
            m.world config.pc config.world :=
          stepTask_stepped (fun n => .inr ⟨n, rfl⟩) (fun _ => .inl) (step_stepTask hrequest hstep)
        cases hstepped with
        | inl hadvanced =>
          obtain ⟨new, hnew, hmeasured⟩ := hadvanced.timings
          exact ⟨new, hnew, fun timing hmem => h.unpaused hallowed (hmeasured timing hmem)⟩
        | inr hparks =>
          refine ⟨[], ?_, List.forall_mem_nil _⟩
          rw [List.append_nil]
          exact hparks.timings
      | true =>
        have hunmoved : Unmoved (withCalls RunSnapshot.nodeTimings) :=
          aside_nodeTimings.unstreamed.toUnmoved
        have hover : withCalls RunSnapshot.nodeTimings config.world
            = withCalls RunSnapshot.nodeTimings m.world := by
          apply step_request_keeps hrequest _ hstep
          intro userOverride payload
          apply keeping_commit_withCalls aside_nodeTimings.toStampless
          exact keeping_resumeMutation fun _ => rfl
        refine ⟨[], ?_, List.forall_mem_nil _⟩
        rw [List.append_nil]
        exact congrArg Prod.fst hover
    . contradiction

theorem active_time {created : ℚ} {runId : RunId} {request : CreateRunRequest}
    {outputLanguage : String} {bufferSize : Nat}
    (h : Moments env created runId request outputLanguage bufferSize m) : ActiveTime env m := by
  have htimely : Timely m := Timely.init.steps (fun _ _ hallowed => hallowed) h
  exact {
    elapsed := htimely.activeElapsed
    nonneg := htimely.bounded
    grows := by
      intro m' hrun
      apply hrun.invariant (I := fun m1 => m.activeTime ≤ m1.activeTime) le_rfl
      intro m1 happening m2 h1 hallowed hhappen
      exact h1.trans (happen_grows hallowed hhappen)
    remaining := by
      intro hpaused m' hrun hpaused'
      have htimely' : Timely m' := htimely.steps (fun _ _ hallowed => hallowed.1) hrun
      have hopen : m.status.isTerminal = false := by
        rw [hpaused]
        rfl
      have hopen' : m'.status.isTerminal = false := by
        rw [hpaused']
        rfl
      rw [htimely'.remainingRunSeconds hopen', htimely.remainingRunSeconds hopen, htimely.stays hrun]
    timings := fun _ _ => htimely.timings
  }

-- The steps of a run at given times, each at one reading of the clock.
def schedule (entries : List (ℚ × Label)) : List Happening :=
  entries.flatMap fun entry => [.wait entry.1, .act entry.2 (fun _ => entry.1) entry.1]

theorem allowed_schedule {entries : List (ℚ × Label)}
    (hsorted : (m.now :: entries.map Prod.fst).IsChain (· ≤ ·)) :
    Allowed (happen env) InTime m (schedule entries) := by
  induction entries generalizing m with
  | nil => trivial
  | cons entry entries ih =>
    rw [List.map_cons, List.isChain_cons_cons] at hsorted
    refine ⟨hsorted.1, ?_⟩
    intro m1 hwait
    cases hwait
    refine ⟨⟨fun _ => ⟨le_rfl, le_rfl⟩, fun _ => rfl⟩, ?_⟩
    intro m2 hact
    apply ih
    unfold happen at hact
    simp only [Option.bind_eq_bind, Option.mem_def, Option.bind_eq_some_iff] at hact
    obtain ⟨config, _, hact⟩ := hact
    split at hact
    . cases hact
      exact hsorted.2
    . contradiction

-- A pause of a minute, between half a minute before it and ten seconds after it.
def pausedMinute : List (ℚ × Label) :=
  [(0, .begin)] ++ answeredVersion.map (fun label => (10, label))
    ++ [(20, .requestPause), (30, .enterAggregator), (90, .resumeRun none), (100, .aggregatorWake)]

theorem active_time_pausedMinute :
    ∃ m,
      exec (happen answeringWorkflow)
          (.init answeringWorkflow 0 "run" mockRequest "English" 1000) (schedule pausedMinute)
        = some m
        ∧ m.pauses = [(30, 90)]
        ∧ m.activeTime = 40
        ∧ ActiveTime answeringWorkflow m := by
  have hsome :
      (exec (happen answeringWorkflow)
          (.init answeringWorkflow 0 "run" mockRequest "English" 1000) (schedule pausedMinute)).any
        (fun m => m.pauses = [(30, 90)] ∧ m.activeTime = 40) = true := by decide +kernel
  obtain ⟨m, hexec, hm⟩ := (Option.any_eq_true _ _).mp hsome
  obtain ⟨hpauses, htime⟩ := of_decide_eq_true hm
  refine ⟨m, hexec, hpauses, htime, ?_⟩
  apply active_time
  apply Steps.of_exec _ hexec
  apply allowed_schedule
  decide +kernel

end ActiveTime

end Workflow

end AgenticPrd
