import AgenticPrd.Backend.Workflow.Safety

/-!
The pause of a run: where the workflow may stand while the run is paused, and that it goes on after
every resume.
-/

namespace AgenticPrd

-- Between the start of a provider call and its end.
def ReviewerPc.inFlight : ReviewerPc → Bool
  | .suspended _ _ => true
  | _ => false

def Pc.inFlight : Pc → Bool
  | .generating _ => true
  | .reviewing reviewers =>
    (reviewers .tech).inFlight || (reviewers .ux).inFlight || (reviewers .biz).inFlight
  | .optimizing _ _ => true
  | _ => false

namespace Workflow

open RunManager Prog Transition

-- Whether a request is answered by a snapshot and not by an error.
def accepts (request : Prog World Exn RunSnapshot) (w : World) : Bool :=
  (request.run w).1.isOk

-- The requests that let a parked workflow go on.
def releases (env : WorkflowEnv) (c : Config) : Label → Bool
  | .resumeRun userOverride => accepts (resumeRun env.toEnv userOverride) c.world
  | .cancelRun => accepts (cancelRun env.toEnv) c.world
  | _ => false

theorem accepts_of_wp {request : Prog World Exn RunSnapshot} {w : World}
    (h : wp request w (fun _ _ => True) (fun _ _ => False)) : accepts request w = true := by
  unfold accepts
  unfold wp at h
  split at h
  . next heq =>
    rw [heq]
    rfl
  . contradiction

variable {env : WorkflowEnv} {runId : RunId} {request : CreateRunRequest} {outputLanguage : String}
  {bufferSize : Nat} {c c' : Config} {label : Label}

theorem wp_resumeRun_refused {env : Env} {userOverride : Option String} {w : World}
    (hstatus : w.snapshot.status ≠ .paused) :
    wp (resumeRun env userOverride) w (fun _ w' => w' = w) (fun _ w' => w' = w) := by
  unfold resumeRun
  rw [wp_bind, wp_get]
  split
  . contradiction
  . rfl

section Parked

theorem PcInv.of_wake {v : View} {pc : Pc} (h : PcInv v pc) (hwake : wake pc = some label) :
    At v .judged ∧ Parked v := by
  cases pc with
  | aggregatorParked => exact h
  | optimizerParked staged => exact h
  | _ => contradiction

theorem not_inFlight_of_wake {pc : Pc} (hwake : wake pc = some label) : pc.inFlight = false := by
  cases pc with
  | aggregatorParked => rfl
  | optimizerParked staged => rfl
  | _ => contradiction

theorem stepTask_wake {w : World} {pc : Pc} (hwake : wake pc = some label) :
    (stepTask env w pc label).isSome = released w := by
  cases pc with
  | aggregatorParked =>
    cases hwake
    dsimp only [stepTask]
    cases released w <;> rfl
  | optimizerParked staged =>
    cases hwake
    dsimp only [stepTask]
    cases released w <;> rfl
  | _ => contradiction

theorem step_wake (hwake : wake c.pc = some label) :
    (step env c label).isSome = released c.world := by
  rw [← @stepTask_wake env _ _ _ hwake]
  cases label with
  | requestPause | resumeRun | cancelRun =>
    unfold wake at hwake
    split at hwake <;> cases hwake
  | _ => rfl

-- A parked workflow goes on with no other step of a task.
theorem stepTask_parked {w : World} {pc : Pc} {parked : Label} (hwake : wake pc = some parked)
    (hother : label ≠ parked) : stepTask env w pc label = none := by
  cases pc with
  | aggregatorParked =>
    cases hwake
    cases label with
    | aggregatorWake => contradiction
    | _ => rfl
  | optimizerParked staged =>
    cases hwake
    cases label with
    | optimizerUnpark => contradiction
    | _ => rfl
  | _ => contradiction

end Parked

section Paused

theorem Inv.not_released (h : Inv c) (hstatus : c.world.snapshot.status = .paused) :
    released c.world = false := by
  obtain ⟨parked, hwake⟩ := h.pc.parked hstatus
  obtain ⟨_, hlive, hsignal⟩ := h.pc.of_wake hwake
  have hcancel : c.world.cancelSignal = false := by
    cases hlive with
    | inl hcancelled =>
      rw [World.view_status, hstatus] at hcancelled
      simp at hcancelled
    | inr hlive => exact hlive.1
  have hresume : c.world.resumeSignal = false := (hsignal hcancel).mp hstatus
  unfold released
  rw [hresume, hcancel]
  rfl

-- A parked task that has not been resumed is PAUSED, unless the run has ended.
theorem Inv.paused_of_parked (h : Inv c) (hwake : wake c.pc = some label)
    (hresume : c.world.resumeSignal = false)
    (hopen : c.world.snapshot.status.isTerminal = false) : c.world.snapshot.status = .paused := by
  obtain ⟨_, hlive, hsignal⟩ := h.pc.of_wake hwake
  cases hlive with
  | inl hcancelled =>
    rw [World.view_status] at hcancelled
    rw [hcancelled.2] at hopen
    contradiction
  | inr hlive => exact (hsignal hlive.1).mpr hresume

theorem stepTask_paused (h : Inv c) (hstatus : c.world.snapshot.status = .paused) :
    stepTask env c.world c.pc label = none := by
  obtain ⟨parked, hwake⟩ := h.pc.parked hstatus
  by_cases hparked : label = parked
  . rw [hparked, ← Option.not_isSome_iff_eq_none, stepTask_wake hwake, h.not_released hstatus]
    simp
  . exact stepTask_parked hwake hparked

theorem requestPause_paused {env : Env} {w : World} (hstatus : w.snapshot.status = .paused) :
    (requestPause env).run w = (.ok w.snapshot, w) := by
  have h : wp (requestPause env) w (fun s w' => s = w.snapshot ∧ w' = w) (fun _ _ => False) := by
    unfold requestPause
    rw [wp_bind, wp_get, hstatus]
    exact ⟨rfl, rfl⟩
  unfold wp at h
  split at h
  . next heq => rw [heq, h.1, h.2]
  . contradiction

theorem resumeRun_accepted {userOverride : Option String} (h : Inv c)
    (hstatus : c.world.snapshot.status = .paused) :
    accepts (resumeRun env.toEnv userOverride) c.world = true := by
  apply accepts_of_wp
  apply wp_resumeRun_sound (P := fun _ => True) h.sound
  . intro hnot
    exact absurd hstatus hnot
  . intro _ _ _ _
    trivial

theorem cancelRun_accepted (h : Inv c) (hstatus : c.world.snapshot.status = .paused) :
    accepts (cancelRun env.toEnv) c.world = true := by
  apply accepts_of_wp
  apply wp_cancelRun_sound (P := fun _ => True) h.sound (fun _ => trivial)
  . intro hterminal
    rw [World.view_status, hstatus] at hterminal
    contradiction
  . intro _ _ _ _
    trivial

-- A paused run stays as it is until a request releases it.
theorem step_paused (h : Inv c) (hstatus : c.world.snapshot.status = .paused)
    (hreleases : releases env c label = false) (hstep : step env c label = some c') : c' = c := by
  cases label with
  | requestPause =>
    cases hstep
    unfold serve
    rw [requestPause_paused hstatus]
  | resumeRun userOverride =>
    rw [releases, resumeRun_accepted h hstatus] at hreleases
    contradiction
  | cancelRun =>
    rw [releases, cancelRun_accepted h hstatus] at hreleases
    contradiction
  | _ =>
    dsimp only [step] at hstep
    rw [stepTask_paused h hstatus] at hstep
    contradiction

theorem steps_paused (h : Inv c) (hstatus : c.world.snapshot.status = .paused)
    (hrun : Steps (step env) (fun c label => releases env c label = false) c c') : c' = c := by
  apply hrun.invariant (I := fun b => b = c) rfl
  intro b label b' hb hok hstep
  subst hb
  exact step_paused h hstatus hok hstep

end Paused

section Released

-- The resume signal is only cleared where the workflow parks.
theorem step_resumed (h : Inv c) (hwake : wake c.pc ≠ none) (hsignal : c.world.resumeSignal = true)
    (hother : wake c.pc ≠ some label) (hstep : step env c label = some c') :
    c'.pc = c.pc ∧ c'.world.resumeSignal = true := by
  have hsame : ∀ w' : World, w'.view.resumeSignal = true → w'.resumeSignal = true := by
    intro w' hw'
    exact hw'
  cases label with
  | requestPause =>
    cases hstep
    refine ⟨rfl, serve_world (P := fun w' => w'.resumeSignal = true) ?_⟩
    apply wp_requestPause_sound h.sound hsignal
    intro _ w' _ hview
    apply hsame
    rw [hview]
    exact hsignal
  | resumeRun userOverride =>
    cases hstep
    refine ⟨rfl, serve_world (P := fun w' => w'.resumeSignal = true) ?_⟩
    apply wp_resumeRun_sound h.sound (fun _ _ => hsignal)
    intro _ w' _ hview
    apply hsame
    rw [hview]
    rfl
  | cancelRun =>
    cases hstep
    refine ⟨rfl, serve_world (P := fun w' => w'.resumeSignal = true) ?_⟩
    apply wp_cancelRun_sound h.sound (fun _ => hsignal) (fun _ _ => hsignal)
    intro _ w' _ hview
    apply hsame
    rw [hview]
  | _ =>
    obtain ⟨parked, hparked⟩ := Option.ne_none_iff_exists'.mp hwake
    dsimp only [step] at hstep
    rw [stepTask_parked hparked] at hstep
    . contradiction
    . intro heq
      rw [heq] at hother
      exact hother hparked

theorem steps_resumed (h : Inv c) (hwake : wake c.pc ≠ none)
    (hsignal : c.world.resumeSignal = true)
    (hrun : Steps (step env) (fun c label => wake c.pc ≠ some label) c c') :
    c'.pc = c.pc ∧ c'.world.resumeSignal = true := by
  have hinvariant : Inv c' ∧ c'.pc = c.pc ∧ c'.world.resumeSignal = true := by
    apply hrun.invariant (I := fun b => Inv b ∧ b.pc = c.pc ∧ b.world.resumeSignal = true)
      ⟨h, rfl, hsignal⟩
    rintro b label b' ⟨hb, hpc, hresume⟩ hother hstep
    rw [← hpc] at hwake ⊢
    exact ⟨(Keeps.step hb hstep).inv, step_resumed hb hwake hresume hother hstep⟩
  exact hinvariant.2

theorem paused_of_accepts {userOverride : Option String} (h : Inv c)
    (haccepts : accepts (resumeRun env.toEnv userOverride) c.world = true) :
    c.world.snapshot.status = .paused := by
  by_contra hnot
  have hraises : wp (resumeRun env.toEnv userOverride) c.world (fun _ _ => False)
      (fun _ _ => True) := by
    apply wp_resumeRun_sound (P := fun _ => False) h.sound (fun _ _ => trivial)
    intro hpaused
    exact absurd hpaused hnot
  unfold accepts at haccepts
  unfold wp at hraises
  split at hraises
  . exact hraises
  . next heq =>
    rw [heq] at haccepts
    contradiction

theorem serve_resumeRun {userOverride : Option String} (h : Inv c)
    (hstatus : c.world.snapshot.status = .paused) :
    (serve c (resumeRun env.toEnv userOverride)).world.resumeSignal = true := by
  apply serve_world (P := fun w' => w'.resumeSignal = true)
  apply wp_resumeRun_sound h.sound
  . intro hnot
    exact absurd hstatus hnot
  . intro _ w' _ hview
    change w'.view.resumeSignal = true
    rw [hview]
    rfl

end Released

theorem Reachable.coherent (h : Reachable env runId request outputLanguage bufferSize c) :
    Coherent c.world.snapshot :=
  h.history.coherent (coherent_create _ _ _ _ _)

/--
Where the workflow stands while the run is paused: it has judged the last version, has no plan yet,
and waits for nothing but a request that releases it.
-/
structure SafePoint (env : WorkflowEnv) (c : Config) : Prop where
  judged :
    ∃ last ∈ c.world.snapshot.versions.getLast?, ∃ evaluation,
      last.evaluation = some evaluation
        ∧ c.world.snapshot.latestEvaluation = some evaluation
        ∧ last.version = c.world.snapshot.currentIteration
  plan : c.world.snapshot.pendingRevisionPlan = none
  idle : c.pc.inFlight = false
  silent :
    ∀ c', Steps (step env) (fun c label => releases env c label = false) c c' →
      c'.world.calls = c.world.calls

/--
A paused run is at a safe point, a resume that has been accepted lets the workflow go on until it
does, whatever is requested in between, and a run that is OPTIMIZING is not left waiting.
-/
structure PauseSafe (env : WorkflowEnv) (c : Config) : Prop where
  safe : c.world.snapshot.status = .paused → SafePoint env c
  kept :
    ∀ userOverride c1 c2, accepts (resumeRun env.toEnv userOverride) c.world = true →
      step env c (.resumeRun userOverride) = some c1 →
      Steps (step env) (fun c label => wake c.pc ≠ some label) c1 c2 →
      ∃ label ∈ wake c2.pc, (step env c2 label).isSome = true
  awake :
    ∀ label ∈ wake c.pc, c.world.snapshot.status = .optimizing → (step env c label).isSome = true

theorem Reachable.safePoint (h : Reachable env runId request outputLanguage bufferSize c)
    (hstatus : c.world.snapshot.status = .paused) : SafePoint env c := by
  have hinv := h.inv
  have hcoherent := h.coherent
  obtain ⟨parked, hwake⟩ := hinv.pc.parked hstatus
  obtain ⟨hat, _⟩ := hinv.pc.of_wake hwake
  obtain ⟨hiteration, _, hheld⟩ := hat.facts
  have hvalid := hinv.sound.iteration
  exact {
    judged := by
      have hne : c.world.snapshot.versions ≠ [] := by
        intro hnil
        change c.world.snapshot.currentIteration = c.world.snapshot.versions.length at hiteration
        rw [hnil] at hiteration
        have := hvalid.1
        simp only [List.length_nil] at hiteration
        omega
      have hlast := List.getLast?_eq_some_getLast hne
      obtain ⟨evaluation, hevaluation, _⟩ := hheld _ (List.mem_of_getLast? hlast)
      refine ⟨_, hlast, evaluation, hevaluation, ?_, ?_⟩
      . rw [hcoherent.evaluation _ hlast]
        . exact hevaluation
        . rw [hevaluation]
          simp
      . rw [hat.shape.last_version hlast]
        exact hiteration.symm
    plan := hcoherent.plan hiteration
    idle := not_inFlight_of_wake hwake
    silent := by
      intro c' hrun
      rw [steps_paused hinv hstatus hrun]
  }

theorem pause_safe (h : Reachable env runId request outputLanguage bufferSize c) :
    PauseSafe env c := by
  have hinv := h.inv
  exact {
    safe := h.safePoint
    kept := by
      intro userOverride c1 c2 haccepts hresume hrun
      have hstatus := paused_of_accepts hinv haccepts
      obtain ⟨parked, hwake⟩ := hinv.pc.parked hstatus
      have hinv1 := (Keeps.step hinv hresume).inv
      cases hresume
      have hwake1 : wake c.pc ≠ none := by
        rw [hwake]
        simp
      obtain ⟨hpc, hsignal⟩ := steps_resumed hinv1 hwake1 (serve_resumeRun hinv hstatus) hrun
      have hwake2 : wake c2.pc = some parked := by
        rw [hpc]
        exact hwake
      refine ⟨parked, hwake2, ?_⟩
      rw [step_wake hwake2, released, hsignal]
      rfl
    awake := by
      intro label hwake hstatus
      obtain ⟨_, hlive, hsignal⟩ := hinv.pc.of_wake hwake
      rw [step_wake hwake, released]
      cases hcancel : c.world.cancelSignal with
      | true => simp
      | false =>
        have hresume : c.world.resumeSignal ≠ false := by
          intro hclear
          have hpaused : c.world.snapshot.status = .paused := (hsignal hcancel).mpr hclear
          rw [hstatus] at hpaused
          contradiction
        simpa using hresume
  }

-- The pause is requested after the reviews.
def pausedReview : List Label :=
  [.begin] ++ answeredVersion ++ [.requestPause, .enterAggregator]

theorem pause_safe_review :
    ∃ c,
      exec (step answeringWorkflow) answeringInit pausedReview = some c
        ∧ c.world.snapshot.status = .paused
        ∧ PauseSafe answeringWorkflow c := by
  have hsome :
      (exec (step answeringWorkflow) answeringInit pausedReview).any
        (fun c => c.world.snapshot.status = .paused) = true := by decide +kernel
  obtain ⟨c, hexec, hstatus⟩ := (Option.any_eq_true _ _).mp hsome
  refine ⟨c, hexec, by simpa using hstatus, ?_⟩
  exact pause_safe (Reaches.of_exec hexec)

end Workflow

end AgenticPrd
