import AgenticPrd.Backend.Workflow.Calls
import AgenticPrd.Backend.Workflow.Pause
import AgenticPrd.Lib.Descent

/-!
A run comes to its end. Only the events of a stream and the requests of clients are without a bound,
and nothing but a pause keeps the workflow from going on.
-/

namespace AgenticPrd

namespace Workflow

open RunManager Prog Transition

-- The stream of the generator has sent one more event.
def Label.isEvent : Label → Bool
  | .generatorWake (.returned (some _)) => true
  | _ => false

-- A step of a task, but for the events of a stream.
def Label.isMove (label : Label) : Bool :=
  !label.isRequest && !label.isEvent

def movesOf (_ : Config) (label : Label) (_ : Config) : List Label :=
  if label.isMove then [label] else []

-- The moves that are left to the run: those of the iterations to come, and of the current one.
def movesLeft (c : Config) : Nat :=
  25 * (c.world.snapshot.maxIterations - c.world.snapshot.currentIteration) + c.pc.moves

variable {env : WorkflowEnv} {runId : RunId} {request : CreateRunRequest} {outputLanguage : String}
  {bufferSize : Nat} {c c' : Config} {label : Label} {pc : Pc}

section Bound

theorem moves_pos (htried : pc.Tried) (hframe : ∀ frame, pc = .generating frame → frame.attempt ≤ 2)
    (hplace : place pc ≠ .finished) : 0 < pc.moves := by
  cases pc with
  | generating frame =>
    have hattempt := hframe frame rfl
    change 0 < 25 - frame.attempt
    omega
  | reviewing reviewers =>
    change 0 < 10 + (reviewers .tech).moves + (reviewers .ux).moves + (reviewers .biz).moves
    omega
  | optimizerParked staged => cases staged <;> decide
  | optimizing frame structured =>
    have hused : structured.used ≤ 3 := StructuredPc.Tried.used_le htried
    change 0 < 4 - structured.used
    omega
  | finished => exact absurd rfl hplace
  | _ => decide

theorem step_unfinished (hlabel : label.isRequest = false) (hstep : step env c label = some c') :
    place c.pc ≠ .finished := by
  intro hfinished
  have hplace := stepTask_place (step_stepTask hlabel hstep)
  rw [hfinished] at hplace
  simp [Place.next] at hplace

-- A move brings the run closer to its end, and nothing else takes it away from there.
theorem step_movesLeft (hinv : Inv c) (htried : c.pc.Tried) (hstep : step env c label = some c') :
    Pays movesLeft movesOf c label c' := by
  have hkeeps := Keeps.step hinv hstep
  have hmax : c'.world.snapshot.maxIterations = c.world.snapshot.maxIterations :=
    hkeeps.maxIterations
  have hgrown := hkeeps.iteration_le
  have hshown : (movesOf c label c').length ≤ 1 := by
    unfold movesOf
    split <;> simp
  unfold Pays movesLeft
  rw [hmax]
  cases hlabel : label.isRequest with
  | true =>
    have hnone : movesOf c label c' = [] := by
      unfold movesOf Label.isMove
      rw [hlabel]
      rfl
    rw [hnone, step_request hlabel hstep, step_request_iteration hlabel hstep]
    exact Nat.le_refl _
  | false =>
    have hunfinished := step_unfinished hlabel hstep
    have hpos := moves_pos htried hinv.frame_le hunfinished
    cases step_turning hinv htried hlabel hstep with
    | turns hturns =>
      have hmoves := hturns.moves
      omega
    | halts hpc' _ =>
      have hzero : c'.pc.moves = 0 := by
        rw [hpc']
        rfl
      rw [hzero]
      omega
    | planned hpc hpc' _ =>
      have hplace : place c.pc = .optimizing := by
        rw [hpc]
        rfl
      have hless := hinv.iteration_lt_max hplace
      have hstart : c'.pc.moves = 25 := by
        rw [hpc']
        rfl
      rw [hstart]
      cases step_iterates hlabel hstep with
      | same hnot => exact absurd hpc' (hnot hplace)
      | next _ _ hnext => omega
      | ended hended =>
        rw [hpc'] at hended
        contradiction
    | absorbs hpc hwake habsorbs =>
      obtain ⟨event, frame', hanswer, hpc', hattempt, _⟩ := habsorbs
      have hnone : movesOf c label c' = [] := by
        unfold movesOf Label.isMove
        rw [hwake, hanswer]
        rfl
      have hsame : c'.pc.moves = c.pc.moves := by
        rw [hpc', hpc]
        change 25 - frame'.attempt = 25 - _
        rw [hattempt]
      rw [hnone, hsame]
      change _ + 0 ≤ _
      omega

end Bound

section Progress

-- Some move can be made.
def CanMove (env : WorkflowEnv) (c : Config) : Prop :=
  ∃ label c', label.isMove = true ∧ step env c label = some c'

theorem CanMove.of_isSome (l : Label) (hmove : l.isMove = true) (h : (step env c l).isSome = true) :
    CanMove env c := by
  obtain ⟨c', hstep⟩ := Option.isSome_iff_exists.mp h
  exact ⟨l, c', hmove, hstep⟩

-- Every wait is limited, so that it can end without an answer.
def limit {α : Type} : Await → Answer α
  | .waiting => .timedOut
  | .settling _ => .settled

theorem accepts_limit {α : Type} (await : Await) (w : World) :
    await.accepts w (limit await : Answer α) = true := by
  cases await <;> rfl

theorem isEvent_limit (await : Await) : (Label.generatorWake (limit await)).isEvent = false := by
  cases await <;> rfl

theorem canMove_reviewing {reviewers : ReviewRole → ReviewerPc} (hpc : c.pc = .reviewing reviewers) :
    CanMove env c := by
  have hstep : ∀ label, label.isRequest = false →
      step env c label = stepTask env c.world (.reviewing reviewers) label := by
    intro label hlabel
    rw [← hpc]
    cases label with
    | requestPause | resumeRun | cancelRun => contradiction
    | _ => rfl
  by_cases hdone : ∀ role, (reviewers role).isDone = true
  . apply CanMove.of_isSome .reviewersJoin rfl
    rw [hstep _ rfl]
    dsimp only [stepTask, stepReviewer]
    rw [hdone, hdone, hdone]
    rfl
  . rw [not_forall] at hdone
    obtain ⟨role, hnot⟩ := hdone
    cases hrole : reviewers role with
    | ready =>
      apply CanMove.of_isSome (.reviewerEnter role) rfl
      rw [hstep _ rfl]
      dsimp only [stepTask, stepReviewer]
      rw [hrole]
      rfl
    | suspended frame structured =>
      apply CanMove.of_isSome (.reviewerWake role (limit structured.await)) rfl
      rw [hstep _ rfl]
      dsimp only [stepTask, stepReviewer]
      rw [hrole]
      dsimp only
      rw [accepts_limit]
      rfl
    | raised exn =>
      apply CanMove.of_isSome (.reviewersFail role) rfl
      rw [hstep _ rfl]
      dsimp only [stepTask, stepReviewer]
      rw [hrole]
      rfl
    | done =>
      rw [hrole] at hnot
      exact absurd rfl hnot

-- A parked workflow that is not released is paused.
theorem Inv.released_or_paused (h : Inv c) (hwake : wake c.pc = some label) :
    released c.world = true ∨ c.world.snapshot.status = .paused := by
  obtain ⟨_, hlive, hsignal⟩ := h.pc.of_wake hwake
  cases hlive with
  | inl hcancelled =>
    left
    unfold released
    rw [show c.world.cancelSignal = true from hcancelled.1]
    simp
  | inr hlive =>
    cases hresume : c.world.resumeSignal with
    | true =>
      left
      unfold released
      rw [hresume]
      rfl
    | false =>
      right
      exact (hsignal hlive.1).mpr hresume

theorem canMove_of_parked (h : Inv c) (hwake : wake c.pc = some label) (hmove : label.isMove = true) :
    CanMove env c ∨ c.world.snapshot.status = .paused := by
  cases h.released_or_paused hwake with
  | inl hreleased =>
    left
    apply CanMove.of_isSome _ hmove
    rw [step_wake hwake]
    exact hreleased
  | inr hpaused => exact .inr hpaused

-- The task goes on from wherever it stands, unless it is paused or over.
theorem Inv.canMove (h : Inv c) (hunfinished : place c.pc ≠ .finished) :
    CanMove env c ∨ c.world.snapshot.status = .paused := by
  have hstep : ∀ {pc : Pc}, c.pc = pc → ∀ label, label.isRequest = false →
      step env c label = stepTask env c.world pc label := by
    rintro _ rfl label hlabel
    cases label with
    | requestPause | resumeRun | cancelRun => contradiction
    | _ => rfl
  cases hpc : c.pc with
  | created =>
    left
    apply CanMove.of_isSome .begin rfl
    rw [hstep hpc _ rfl]
    rfl
  | toGenerator =>
    left
    apply CanMove.of_isSome .enterGenerator rfl
    rw [hstep hpc _ rfl]
    rfl
  | generating frame =>
    left
    apply CanMove.of_isSome (.generatorWake (limit frame.await))
    . unfold Label.isMove
      rw [isEvent_limit]
      rfl
    . rw [hstep hpc _ rfl]
      dsimp only [stepTask]
      rw [accepts_limit]
      rfl
  | reviewing reviewers => exact .inl (canMove_reviewing hpc)
  | toAggregator =>
    left
    apply CanMove.of_isSome .enterAggregator rfl
    rw [hstep hpc _ rfl]
    rfl
  | aggregatorParked =>
    have hwake : wake c.pc = some .aggregatorWake := by
      rw [hpc]
      rfl
    exact canMove_of_parked h hwake rfl
  | routing =>
    left
    apply CanMove.of_isSome .route rfl
    rw [hstep hpc _ rfl]
    rfl
  | toOptimizer =>
    left
    apply CanMove.of_isSome .enterOptimizer rfl
    rw [hstep hpc _ rfl]
    rfl
  | optimizerParked staged =>
    have hwake : wake c.pc = some .optimizerUnpark := by
      rw [hpc]
      rfl
    exact canMove_of_parked h hwake rfl
  | optimizing frame structured =>
    left
    apply CanMove.of_isSome (.optimizerWake (limit structured.await)) rfl
    rw [hstep hpc _ rfl]
    dsimp only [stepTask]
    rw [accepts_limit]
    rfl
  | finished exn =>
    rw [hpc] at hunfinished
    contradiction

end Progress

section Rest

-- A finished run has ended for its clients too.
theorem Inv.terminal (h : Inv c) (hfinished : place c.pc = .finished) :
    c.world.snapshot.status.isTerminal = true := by
  cases hpc : c.pc with
  | finished exn =>
    have hinv := h.pc
    rw [hpc] at hinv
    obtain ⟨_, hlive, _⟩ := hinv
    cases hlive with
    | inl hcancelled =>
      rw [World.view_status] at hcancelled
      rw [hcancelled.2]
      rfl
    | inr hlive =>
      have hmem := hlive.2
      rw [World.view_status] at hmem
      simp only [List.mem_cons, List.not_mem_nil, or_false] at hmem
      rcases hmem with h | h | h <;> rw [h] <;> rfl
  | _ =>
    rw [hpc] at hfinished
    contradiction

-- What lets a paused run go on sets the signal that its workflow waits for.
theorem Inv.released_of_releases (h : Inv c) (hpaused : c.world.snapshot.status = .paused)
    (hreleases : releases env c label = true) (hstep : step env c label = some c') :
    released c'.world = true := by
  cases label with
  | resumeRun userOverride =>
    cases hstep
    unfold released
    rw [serve_resumeRun h hpaused]
    rfl
  | cancelRun =>
    cases hstep
    apply serve_world (P := fun w' => released w' = true)
    apply wp_cancelRun_sound h.sound
    . intro hcancelled
      rw [World.view_status, hpaused] at hcancelled
      contradiction
    . intro hterminal
      rw [World.view_status, hpaused] at hterminal
      contradiction
    . intro _ w' _ hview
      have hcancel : w'.cancelSignal = true := congrArg View.cancelSignal hview
      unfold released
      rw [hcancel]
      simp
  | _ => contradiction

theorem Inv.canMove_of_releases (h : Inv c) (hpaused : c.world.snapshot.status = .paused)
    (hreleases : releases env c label = true) (hstep : step env c label = some c') :
    CanMove env c' := by
  obtain ⟨parked, hwake⟩ := h.pc.parked hpaused
  have hreleased := h.released_of_releases hpaused hreleases hstep
  have hpc : c'.pc = c.pc := by
    apply step_request _ hstep
    cases label with
    | resumeRun | cancelRun => rfl
    | _ => contradiction
  have hmove : parked.isMove = true := by
    unfold wake at hwake
    split at hwake <;> cases hwake <;> rfl
  apply CanMove.of_isSome parked hmove
  rw [← hpc] at hwake
  rw [step_wake hwake]
  exact hreleased

def AtRest (c : Config) : Prop :=
  place c.pc = .finished ∨ c.world.snapshot.status = .paused

/--
How far a run with the `moves` behind it still is from its end. Without the events of a stream, a run
takes a bounded number of steps; it can always go on until it is over, for its clients as well, or is
paused; and a pause ends with the request that releases it.
-/
structure Terminates (env : WorkflowEnv) (maxIterations : Nat) (moves : List Label) (c : Config) :
    Prop where
  bounded : moves.length ≤ 25 * maxIterations + 1
  ended : place c.pc = .finished → c.world.snapshot.status.isTerminal = true
  goesOn : AtRest c ∨ CanMove env c
  rests : ∃ c', Steps (step env) (fun _ label => label.isMove = true) c c' ∧ AtRest c'
  released :
    c.world.snapshot.status = .paused →
      ∀ label c', releases env c label = true → step env c label = some c' → CanMove env c'

theorem terminates {moves : List Label}
    (h : Traced (step env) always movesOf (init env.toEnv runId request outputLanguage bufferSize)
      moves c) : Terminates env request.maxIterations moves c := by
  have hreachable : Reachable env runId request outputLanguage bufferSize c := h.steps
  have hinv := hreachable.inv
  have hbudgeted := hreachable.budgeted
  have hkeeps : ∀ b label b', Inv b ∧ Budgeted b → step env b label = some b' →
      Inv b' ∧ Budgeted b' := by
    rintro b label b' ⟨hb, hspent⟩ hstep
    exact ⟨(Keeps.step hb hstep).inv, hspent.step hb hstep⟩
  have hgoesOn : ∀ b, Inv b → AtRest b ∨ CanMove env b := by
    intro b hb
    by_cases hfinished : place b.pc = .finished
    . exact .inl (.inl hfinished)
    . cases hb.canMove hfinished with
      | inl hmove => exact .inr hmove
      | inr hpaused => exact .inl (.inr hpaused)
  exact {
    bounded := by
      have hranked := h.ranked (I := fun b => Inv b ∧ Budgeted b)
        ⟨Inv.init, budgeted_init⟩ fun b label b' hb _ hstep =>
          ⟨hkeeps b label b' hb hstep, step_movesLeft hb.1 hb.2.tried hstep⟩
      have hinit : movesLeft (init env.toEnv runId request outputLanguage bufferSize)
          = 25 * (request.maxIterations - 1) + 26 := rfl
      have hpos := request.iterations_range.1
      omega
    ended := hinv.terminal
    goesOn := hgoesOn c hinv
    rests := by
      apply exists_rest movesLeft (I := fun b => Inv b ∧ Budgeted b) ⟨hinv, hbudgeted⟩
      rintro b ⟨hb, hspent⟩
      cases hgoesOn b hb with
      | inl hrest => exact .inl hrest
      | inr hmove =>
        obtain ⟨label, b', hlabel, hstep⟩ := hmove
        have hpays := step_movesLeft hb hspent.tried hstep
        have hshown : (movesOf b label b').length = 1 := by
          unfold movesOf
          rw [if_pos hlabel]
          rfl
        unfold Pays at hpays
        exact .inr ⟨label, b', hlabel, hstep, hkeeps b label b' ⟨hb, hspent⟩ hstep, by omega⟩
    released := by
      intro hpaused label c' hreleases hstep
      exact hinv.canMove_of_releases hpaused hreleases hstep
  }

theorem terminates_paused :
    ∃ moves c,
      trace (step answeringWorkflow) movesOf [] answeringInit pausedReview = some (moves, c)
        ∧ moves.length = 11
        ∧ c.world.snapshot.status = .paused
        ∧ Terminates answeringWorkflow 3 moves c := by
  have hsome :
      (trace (step answeringWorkflow) movesOf [] answeringInit pausedReview).any
        (fun both => both.1.length = 11 ∧ both.2.world.snapshot.status = .paused) = true := by
    decide +kernel
  obtain ⟨⟨moves, c⟩, htrace, hboth⟩ := (Option.any_eq_true _ _).mp hsome
  have hboth' : moves.length = 11 ∧ c.world.snapshot.status = .paused := by
    simpa using hboth
  have hrun : Traced (step answeringWorkflow) always movesOf answeringInit moves c :=
    .of_trace .refl (allowed_always _) htrace
  exact ⟨moves, c, htrace, hboth'.1, hboth'.2, terminates hrun⟩

end Rest

end Workflow

end AgenticPrd
