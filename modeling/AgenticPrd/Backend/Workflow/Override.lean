import AgenticPrd.Backend.Workflow.Pause
import AgenticPrd.Backend.Workflow.Rounds

/-!
The override that a user gives with a resume, on its way through `pending_user_override` to the
optimizer. A run shows every non-empty override that `resume_run` accepts, and every call for a
plan.
-/

namespace AgenticPrd

namespace Workflow

open RunManager Prog Transition

inductive Use where
  | given (text : String)
  | passed (iteration : Nat) (userOverride : Option String)
  deriving DecidableEq

def nonempty (userOverride : Option String) : Option String :=
  userOverride.filter fun text => text ≠ ""

def given (env : WorkflowEnv) (c : Config) : Label → List Use
  | .resumeRun userOverride =>
    if accepts (resumeRun env.toEnv userOverride) c.world then
      ((nonempty userOverride).map Use.given).toList
    else
      []
  | _ => []

def calls (c c' : Config) : List Use :=
  (c'.world.passed.drop c.world.passed.length).map fun call => .passed call.1 call.2

def uses (env : WorkflowEnv) (c : Config) (label : Label) (c' : Config) : List Use :=
  given env c label ++ calls c c'

/--
The next use after an override was given passes it, in a round that has made no call before; and a
call for a plan either repeats the one right before it, in the same round, or opens a round, which
passes no text but one that was given right before.
-/
structure UsedOnce (uses : List Use) : Prop where
  taken :
    ∀ before text next after, uses = before ++ .given text :: next :: after →
      ∃ iteration, next = .passed iteration (some text)
        ∧ ∀ userOverride, .passed iteration userOverride ∉ before
  round :
    ∀ before iteration userOverride after,
      uses = before ++ .passed iteration userOverride :: after →
        before.getLast? = some (.passed iteration userOverride)
          ∨
        (∀ other, .passed iteration other ∉ before)
          ∧ ∀ text ∈ userOverride, text ≠ "" → before.getLast? = some (.given text)

-- A resume that is accepted finds no override that waits for its round.
def Unclaimed (env : WorkflowEnv) (c : Config) : Label → Prop
  | .resumeRun userOverride =>
    accepts (resumeRun env.toEnv userOverride) c.world = true →
      ∀ text ∈ c.world.snapshot.pendingUserOverride, text = ""
  | _ => True

instance (env : WorkflowEnv) (c : Config) (label : Label) : Decidable (Unclaimed env c label) := by
  unfold Unclaimed
  split <;> infer_instance

section List

variable {α : Type} {l before after : List α} {x y : α}

-- Where an element of a list stands that one more element has been added to.
theorem concat_eq_append_cons (h : l ++ [x] = before ++ y :: after) :
    (after = [] ∧ l = before ∧ x = y) ∨ ∃ rest, after = rest ++ [x] ∧ l = before ++ y :: rest := by
  induction after using List.reverseRecOn with
  | nil =>
    have hparts := List.append_inj' h rfl
    exact .inl ⟨rfl, hparts.1, List.singleton_inj.mp hparts.2⟩
  | append_singleton rest z _ =>
    rw [← List.cons_append, ← List.append_assoc] at h
    have hparts := List.append_inj' h rfl
    rw [← List.singleton_inj.mp hparts.2]
    exact .inr ⟨rest, rfl, hparts.1⟩

end List

section UsedOnce

variable {us : List Use} {text : String} {iteration : Nat} {userOverride : Option String}

theorem UsedOnce.nil : UsedOnce [] :=
  {
    taken := by simp
    round := by simp
  }

theorem UsedOnce.given (h : UsedOnce us) (hlast : ∀ waiting, us.getLast? ≠ some (.given waiting)) :
    UsedOnce (us ++ [.given text]) := by
  constructor
  . intro before waiting next after heq
    rcases concat_eq_append_cons heq with ⟨hnil, _⟩ | ⟨rest, hafter, hus⟩
    . contradiction
    . cases rest with
      | nil =>
        exfalso
        apply hlast waiting
        rw [hus, List.getLast?_concat]
      | cons first rest =>
        cases hafter
        exact h.taken before waiting next rest hus
  . intro before i o after heq
    rcases concat_eq_append_cons heq with ⟨_, _, hne⟩ | ⟨rest, _, hus⟩
    . contradiction
    . exact h.round before i o rest hus

theorem UsedOnce.retry (h : UsedOnce us)
    (hlast : us.getLast? = some (.passed iteration userOverride)) :
    UsedOnce (us ++ [.passed iteration userOverride]) := by
  constructor
  . intro before waiting next after heq
    rcases concat_eq_append_cons heq with ⟨hnil, _⟩ | ⟨rest, hafter, hus⟩
    . contradiction
    . cases rest with
      | nil =>
        rw [hus, List.getLast?_concat] at hlast
        cases hlast
      | cons first rest =>
        cases hafter
        exact h.taken before waiting next rest hus
  . intro before i o after heq
    rcases concat_eq_append_cons heq with ⟨_, hbefore, heq⟩ | ⟨rest, _, hus⟩
    . rw [← hbefore, ← heq]
      exact .inl hlast
    . exact h.round before i o rest hus

-- The text that waits for the next round, after the uses so far.
def waiting (us : List Use) : Option String :=
  match us.getLast? with
  | some (.given text) => some text
  | _ => none

theorem waiting_of_given (h : us.getLast? = some (.given text)) : waiting us = some text := by
  unfold waiting
  rw [h]

theorem getLast?_of_waiting (h : waiting us = some text) : us.getLast? = some (.given text) := by
  unfold waiting at h
  split at h
  . next heq =>
    cases h
    exact heq
  . contradiction

theorem UsedOnce.passed (h : UsedOnce us) (hnew : ∀ other, .passed iteration other ∉ us)
    (hwaiting : waiting us = nonempty userOverride) :
    UsedOnce (us ++ [.passed iteration userOverride]) := by
  constructor
  . intro before given next after heq
    rcases concat_eq_append_cons heq with ⟨hnil, _⟩ | ⟨rest, hafter, hus⟩
    . contradiction
    . cases rest with
      | nil =>
        cases hafter
        have hgiven : us.getLast? = some (.given given) := by rw [hus, List.getLast?_concat]
        rw [waiting_of_given hgiven] at hwaiting
        have hsome := Option.eq_some_of_filter_eq_some hwaiting.symm
        refine ⟨iteration, by rw [hsome], ?_⟩
        intro other hmem
        apply hnew other
        rw [hus]
        exact List.mem_append_left _ hmem
      | cons first rest =>
        cases hafter
        exact h.taken before given next rest hus
  . intro before i o after heq
    rcases concat_eq_append_cons heq with ⟨_, hbefore, heq⟩ | ⟨rest, _, hus⟩
    . cases heq
      rw [← hbefore]
      refine .inr ⟨hnew, ?_⟩
      intro text htext hne
      apply getLast?_of_waiting
      rw [hwaiting]
      cases htext
      simp [nonempty, Option.filter, hne]
    . exact h.round before i o rest hus

end UsedOnce

section Phase

/--
Where a run stands between two rounds, by the uses so far: the override that waits is the pending
one, or the round has made its call, or the run is over.
-/
inductive Phase (us : List Use) (c : Config) : Prop where
  | before
    (hrounds : ∀ iteration userOverride, .passed iteration userOverride ∈ us →
      iteration < c.world.snapshot.currentIteration)
    (hwaiting : waiting us = nonempty c.world.snapshot.pendingUserOverride)
    (huncalled : ∀ frame structured, c.pc = .optimizing frame structured → Uncalled structured)
  | called
    (hrounds : ∀ iteration userOverride, .passed iteration userOverride ∈ us →
      iteration ≤ c.world.snapshot.currentIteration)
    (hlast : us.getLast? = some (.passed c.world.snapshot.currentIteration
      c.world.snapshot.pendingUserOverride))
    (hpc : ∃ frame structured, c.pc = .optimizing frame structured)
  | ended (hpc : ∃ exn, c.pc = .finished exn)

structure Tracked (us : List Use) (c : Config) : Prop where
  inv : Inv c
  once : UsedOnce us
  phase : Phase us c

variable {env : WorkflowEnv} {us : List Use} {c c' : Config} {label : Label}

theorem calls_of_passed (h : c'.world.passed = c.world.passed) : calls c c' = [] := by
  unfold calls
  rw [h, List.drop_length]
  rfl

theorem calls_of_concat {call : Nat × Option String}
    (h : c'.world.passed = c.world.passed ++ [call]) : calls c c' = [.passed call.1 call.2] := by
  unfold calls
  rw [h, List.drop_left]
  rfl

theorem given_of_isRound (hlabel : label.isRound = false) : given env c label = [] := by
  cases label with
  | resumeRun userOverride => contradiction
  | _ => rfl

-- A step that leaves the rounds alone.
theorem Phase.same (h : Phase us c) (hrounds : c'.world.rounds = c.world.rounds)
    (hpc : c'.pc = c.pc ∨ Elsewhere c'.pc)
    (hoptimizing : ∀ frame structured, c.pc = .optimizing frame structured → c'.pc = c.pc)
    (hfinished : ∀ exn, c.pc = .finished exn → c'.pc = c.pc) : Phase us c' := by
  have hiteration : c'.world.snapshot.currentIteration = c.world.snapshot.currentIteration :=
    congrArg (fun r => r.1.currentIteration) hrounds
  have hoverride : c'.world.snapshot.pendingUserOverride = c.world.snapshot.pendingUserOverride :=
    congrArg (fun r => r.1.pendingUserOverride) hrounds
  cases h with
  | before hless hwaiting huncalled =>
    rw [← hiteration] at hless
    rw [← hoverride] at hwaiting
    apply Phase.before hless hwaiting
    intro frame structured hpc'
    cases hpc with
    | inl hsame =>
      rw [hsame] at hpc'
      exact huncalled frame structured hpc'
    | inr helsewhere =>
      rw [hpc'] at helsewhere
      contradiction
  | called hle hlast hpc' =>
    obtain ⟨frame, structured, hpc'⟩ := hpc'
    rw [← hiteration] at hle
    rw [← hiteration, ← hoverride] at hlast
    apply Phase.called hle hlast
    rw [hoptimizing frame structured hpc']
    exact ⟨frame, structured, hpc'⟩
  | ended hpc' =>
    obtain ⟨exn, hpc'⟩ := hpc'
    apply Phase.ended
    rw [hfinished exn hpc']
    exact ⟨exn, hpc'⟩

theorem step_finished {exn : Option Exn} (hpc : c.pc = .finished exn)
    (hstep : step env c label = some c') : c'.pc = c.pc := by
  cases label with
  | requestPause =>
    cases hstep
    rfl
  | resumeRun userOverride =>
    cases hstep
    rfl
  | cancelRun =>
    cases hstep
    rfl
  | _ =>
    dsimp only [step] at hstep
    rw [hpc] at hstep
    contradiction

theorem Tracked.other (h : Tracked us c) (hlabel : label.isRound = false)
    (hstep : step env c label = some c') : Tracked (us ++ uses env c label c') c' := by
  have hrounds := step_rounds hlabel hstep
  have huses : uses env c label c' = [] := by
    unfold uses
    rw [given_of_isRound hlabel, calls_of_passed (congrArg (fun r => r.2.1) hrounds)]
    rfl
  rw [huses, List.append_nil]
  exact {
    inv := (Keeps.step h.inv hstep).inv
    once := h.once
    phase := by
      apply h.phase.same hrounds (step_elsewhere hlabel hstep)
      . intro frame structured hpc
        exact step_optimizing hpc hlabel hstep
      . intro exn hpc
        exact step_finished hpc hstep
  }

theorem Tracked.refused {userOverride : Option String} (h : Tracked us c)
    (hstatus : c.world.snapshot.status ≠ .paused) :
    Tracked (us ++ uses env c (.resumeRun userOverride) (serve c (resumeRun env.toEnv userOverride)))
      (serve c (resumeRun env.toEnv userOverride)) := by
  have hworld : (serve c (resumeRun env.toEnv userOverride)).world = c.world :=
    serve_world (wp_resumeRun_refused hstatus)
  have hserve : serve c (resumeRun env.toEnv userOverride) = c :=
    congrArg (fun world => { c with world }) hworld
  have hgiven : given env c (.resumeRun userOverride) = [] := by
    dsimp only [given]
    rw [if_neg]
    intro haccepts
    exact hstatus (paused_of_accepts h.inv haccepts)
  unfold uses
  rw [hserve, hgiven, calls_of_passed rfl, List.append_nil, List.append_nil]
  exact h

theorem serve_resumeRun_override {userOverride : Option String} (h : Inv c)
    (hstatus : c.world.snapshot.status = .paused) :
    (serve c (resumeRun env.toEnv userOverride)).world.snapshot.pendingUserOverride
      = userOverride := by
  apply serve_world (P := fun w' => w'.snapshot.pendingUserOverride = userOverride)
  apply wp_resumeRun_sound h.sound
  . intro hnot
    exact absurd hstatus hnot
  . intro _ w' _ hview
    exact congrArg (fun v => v.loop.pendingUserOverride) hview

theorem Tracked.resumed {userOverride : Option String} (h : Tracked us c)
    (hunclaimed : Unclaimed env c (.resumeRun userOverride))
    (hstatus : c.world.snapshot.status = .paused) :
    Tracked (us ++ uses env c (.resumeRun userOverride) (serve c (resumeRun env.toEnv userOverride)))
      (serve c (resumeRun env.toEnv userOverride)) := by
  have haccepts := @resumeRun_accepted env c userOverride h.inv hstatus
  have hkeeping : Keeping (World.seen RunSnapshot.currentIteration)
      (resumeRun env.toEnv userOverride) := keeping_resumeRun
  have hseen := hkeeping.run c.world
  have hiteration :
      (serve c (resumeRun env.toEnv userOverride)).world.snapshot.currentIteration
        = c.world.snapshot.currentIteration := congrArg Prod.fst hseen
  have hpassed : (serve c (resumeRun env.toEnv userOverride)).world.passed = c.world.passed :=
    congrArg (fun seen => seen.2.1) hseen
  have hoverride := @serve_resumeRun_override env c userOverride h.inv hstatus
  have hstep : step env c (.resumeRun userOverride)
      = some (serve c (resumeRun env.toEnv userOverride)) := rfl
  have hinv := (Keeps.step h.inv hstep).inv
  obtain ⟨parked, hwake⟩ := h.inv.pc.parked hstatus
  have huncalled : ∀ frame structured, c.pc ≠ .optimizing frame structured := by
    intro frame structured hpc
    rw [hpc] at hwake
    contradiction
  have hnext : ∀ us', UsedOnce us' → waiting us' = nonempty userOverride →
      (∀ iteration userOverride, .passed iteration userOverride ∈ us' →
        iteration < c.world.snapshot.currentIteration) →
      Tracked us' (serve c (resumeRun env.toEnv userOverride)) := by
    intro us' honce hwaiting hless
    refine { inv := hinv, once := honce, phase := .before ?_ ?_ ?_ }
    . rw [hiteration]
      exact hless
    . rw [hoverride]
      exact hwaiting
    . intro frame structured hpc
      exact absurd hpc (huncalled frame structured)
  unfold uses
  rw [calls_of_passed hpassed, List.append_nil]
  cases h.phase with
  | before hless hwaiting _ =>
    have hnone : nonempty c.world.snapshot.pendingUserOverride = none := by
      unfold nonempty
      rw [Option.filter_eq_none_iff]
      intro text htext
      simpa using hunclaimed haccepts text htext
    rw [hnone] at hwaiting
    dsimp only [given]
    rw [if_pos haccepts]
    cases htext : nonempty userOverride with
    | none =>
      rw [Option.map_none, Option.toList_none, List.append_nil]
      apply hnext us h.once _ hless
      rw [hwaiting, htext]
    | some text =>
      rw [Option.map_some, Option.toList_some]
      apply hnext
      . apply h.once.given
        intro other hlast
        rw [waiting_of_given hlast] at hwaiting
        contradiction
      . rw [waiting_of_given List.getLast?_concat, htext]
      . intro iteration other hmem
        rw [List.mem_append, List.mem_singleton] at hmem
        cases hmem with
        | inl hold => exact hless iteration other hold
        | inr heq => contradiction
  | called _ _ hpc =>
    obtain ⟨frame, structured, hpc⟩ := hpc
    exact absurd hpc (huncalled frame structured)
  | ended hpc =>
    obtain ⟨exn, hpc⟩ := hpc
    rw [hpc] at hwake
    contradiction

section Round

variable {state : RunSnapshot}

theorem offer_current (h : Current c.world.view state) :
    offer state
      = (c.world.snapshot.currentIteration, c.world.snapshot.pendingUserOverride) := by
  unfold offer
  rw [h.iteration, h.userOverride]
  rfl

-- One more call for a plan, by a round that has not called or that repeats its call.
theorem Tracked.called (h : Tracked us c) (hinv : Inv c')
    (hcalled : c'.world.rounds = (c.world.snapshot.round,
      c.world.passed ++ [(c.world.snapshot.currentIteration, c.world.snapshot.pendingUserOverride)],
      c.world.planned))
    (hpc' : ∃ frame structured, c'.pc = .optimizing frame structured)
    (hover : ∀ exn, c.pc ≠ .finished exn) : Tracked (us ++ calls c c') c' := by
  have hiteration : c'.world.snapshot.currentIteration = c.world.snapshot.currentIteration :=
    congrArg (fun r => r.1.currentIteration) hcalled
  have hoverride : c'.world.snapshot.pendingUserOverride = c.world.snapshot.pendingUserOverride :=
    congrArg (fun r => r.1.pendingUserOverride) hcalled
  have hpassed := congrArg (fun r => r.2.1) hcalled
  rw [calls_of_concat hpassed]
  have hphase : (∀ iteration userOverride, .passed iteration userOverride ∈ us →
      iteration ≤ c.world.snapshot.currentIteration) →
      Phase (us ++ [.passed c.world.snapshot.currentIteration c.world.snapshot.pendingUserOverride])
        c' := by
    intro hle
    refine .called ?_ ?_ hpc'
    . intro iteration userOverride hmem
      rw [hiteration]
      rw [List.mem_append, List.mem_singleton] at hmem
      cases hmem with
      | inl hold => exact hle iteration userOverride hold
      | inr heq =>
        cases heq
        exact le_rfl
    . rw [List.getLast?_concat, hiteration, hoverride]
  cases h.phase with
  | before hless hwaiting _ =>
    refine { inv := hinv, once := h.once.passed ?_ hwaiting, phase := hphase ?_ }
    . intro other hmem
      exact absurd (hless _ other hmem) (lt_irrefl _)
    . intro iteration userOverride hmem
      exact (hless iteration userOverride hmem).le
  | called hle hlast _ =>
    exact { inv := hinv, once := h.once.retry hlast, phase := hphase hle }
  | ended hpc =>
    obtain ⟨exn, hpc⟩ := hpc
    exact absurd hpc (hover exn)

-- A step of a round that makes no call and does not end it.
theorem Tracked.silent (h : Tracked us c) (hinv : Inv c')
    (hrounds : c'.world.rounds = c.world.rounds)
    (hphase : Phase us c → Phase us c') : Tracked (us ++ calls c c') c' := by
  rw [calls_of_passed (congrArg (fun r => r.2.1) hrounds), List.append_nil]
  exact { inv := hinv, once := h.once, phase := hphase h.phase }

theorem Phase.before_of_rounds {c' : Config} (hrounds : c'.world.rounds = c.world.rounds)
    (hless : ∀ iteration userOverride, .passed iteration userOverride ∈ us →
      iteration < c.world.snapshot.currentIteration)
    (hwaiting : waiting us = nonempty c.world.snapshot.pendingUserOverride)
    (huncalled : ∀ frame structured, c'.pc = .optimizing frame structured → Uncalled structured) :
    Phase us c' := by
  have hiteration : c'.world.snapshot.currentIteration = c.world.snapshot.currentIteration :=
    congrArg (fun r => r.1.currentIteration) hrounds
  have hoverride : c'.world.snapshot.pendingUserOverride = c.world.snapshot.pendingUserOverride :=
    congrArg (fun r => r.1.pendingUserOverride) hrounds
  rw [← hiteration] at hless
  rw [← hoverride] at hwaiting
  exact .before hless hwaiting huncalled

theorem Phase.called_of_rounds {c' : Config} (hrounds : c'.world.rounds = c.world.rounds)
    (hle : ∀ iteration userOverride, .passed iteration userOverride ∈ us →
      iteration ≤ c.world.snapshot.currentIteration)
    (hlast : us.getLast? = some (.passed c.world.snapshot.currentIteration
      c.world.snapshot.pendingUserOverride))
    (hpc' : ∃ frame structured, c'.pc = .optimizing frame structured) : Phase us c' := by
  have hiteration : c'.world.snapshot.currentIteration = c.world.snapshot.currentIteration :=
    congrArg (fun r => r.1.currentIteration) hrounds
  have hoverride : c'.world.snapshot.pendingUserOverride = c.world.snapshot.pendingUserOverride :=
    congrArg (fun r => r.1.pendingUserOverride) hrounds
  rw [← hiteration] at hle
  rw [← hiteration, ← hoverride] at hlast
  exact .called hle hlast hpc'

theorem step_enters (hlabel : label = .enterOptimizer ∨ label = .optimizerUnpark)
    (hstep : step env c label = some c') :
    (∀ frame structured, c.pc ≠ .optimizing frame structured) ∧ ∀ exn, c.pc ≠ .finished exn := by
  constructor
  . intro frame structured hpc
    rcases hlabel with rfl | rfl <;>
    . dsimp only [step] at hstep
      rw [hpc] at hstep
      contradiction
  . intro exn hpc
    rcases hlabel with rfl | rfl <;>
    . dsimp only [step] at hstep
      rw [hpc] at hstep
      contradiction

theorem Tracked.starts (h : Tracked us c)
    (hlabel : label = .enterOptimizer ∨ label = .optimizerUnpark)
    (hstep : step env c label = some c') : Tracked (us ++ uses env c label c') c' := by
  have hinv := (Keeps.step h.inv hstep).inv
  have henters := step_enters hlabel hstep
  have hgiven : given env c label = [] := by
    rcases hlabel with rfl | rfl <;> rfl
  unfold uses
  rw [hgiven, List.nil_append]
  cases step_starts hlabel hstep with
  | inl hsame =>
    apply h.silent hinv hsame.1
    rintro (⟨hless, hwaiting, _⟩ | ⟨_, _, frame, structured, hpc⟩ | ⟨exn, hpc⟩)
    . exact .before_of_rounds hsame.1 hless hwaiting hsame.2
    . exact absurd hpc (henters.1 frame structured)
    . exact absurd hpc (henters.2 exn)
  | inr hstarted => exact h.called hinv hstarted.2 hstarted.1 henters.2

theorem Tracked.wake {answer : Answer ProviderStructuredResult} (h : Tracked us c)
    (hstep : step env c (.optimizerWake answer) = some c') :
    Tracked (us ++ uses env c (.optimizerWake answer) c') c' := by
  have hinv := (Keeps.step h.inv hstep).inv
  obtain ⟨frame, structured, hpc, hends⟩ := step_optimizerWake hstep
  have hover : ∀ exn, c.pc ≠ .finished exn := by simp [hpc]
  have hcurrent : Current c.world.view frame.state := by
    have hpcInv := h.inv.pc
    rw [hpc] at hpcInv
    exact hpcInv.2.2.1
  change Tracked (us ++ ([] ++ calls c c')) c'
  rw [List.nil_append]
  cases hends with
  | inl hproceeds =>
    rcases hproceeds with ⟨next, hpc', hoffers | ⟨hsame, hcalled⟩⟩ | ⟨hpc', hcalled, _, _, e, _, hplans⟩
    . cases hoffers with
      | inl hsame =>
        apply h.silent hinv hsame.1
        rintro (⟨hless, hwaiting, _⟩ | ⟨hle, hlast, _⟩ | ⟨exn, hpc⟩)
        . apply Phase.before_of_rounds hsame.1 hless hwaiting
          intro frame' structured' heq
          rw [hpc'] at heq
          cases heq
          exact hsame.2
        . exact .called_of_rounds hsame.1 hle hlast ⟨frame, next, hpc'⟩
        . exact absurd hpc (hover exn)
      | inr hmade =>
        rw [offer_current hcurrent] at hmade
        exact h.called hinv hmade ⟨frame, next, hpc'⟩ hover
    . apply h.silent hinv hsame
      rintro (⟨_, _, huncalled⟩ | ⟨hle, hlast, _⟩ | ⟨exn, hpc⟩)
      . exact absurd (huncalled frame structured hpc) hcalled
      . exact .called_of_rounds hsame hle hlast ⟨frame, next, hpc'⟩
      . exact absurd hpc (hover exn)
    . have hpassed : c'.world.passed = c.world.passed := congrArg (fun r => r.2.1) hplans
      have hiteration : c'.world.snapshot.currentIteration = c.world.snapshot.currentIteration + 1 :=
        congrArg (fun r => r.1.currentIteration) hplans
      have hoverride : c'.world.snapshot.pendingUserOverride = none :=
        congrArg (fun r => r.1.pendingUserOverride) hplans
      rw [calls_of_passed hpassed, List.append_nil]
      refine { inv := hinv, once := h.once, phase := ?_ }
      rcases h.phase with ⟨_, _, huncalled⟩ | ⟨hle, hlast, _⟩ | ⟨exn, hpc⟩
      . exact absurd (huncalled frame structured hpc) hcalled
      . refine .before ?_ ?_ ?_
        . intro iteration userOverride hmem
          have := hle iteration userOverride hmem
          rw [hiteration]
          omega
        . unfold waiting
          rw [hlast, hoverride]
          rfl
        . intro _ _ heq
          rw [hpc'] at heq
          contradiction
      . exact absurd hpc (hover exn)
  | inr hstops =>
    obtain ⟨⟨exn, hpc'⟩, hstops⟩ := hstops
    have hpassed : c'.world.passed = c.world.passed := by
      cases hstops with
      | inl hsame => exact congrArg (fun r => r.2.1) hsame
      | inr hfails =>
        obtain ⟨_, _, hpassed, _⟩ := hfails
        exact hpassed
    rw [calls_of_passed hpassed, List.append_nil]
    exact { inv := hinv, once := h.once, phase := .ended ⟨some exn, hpc'⟩ }

end Round

theorem Tracked.step (h : Tracked us c) (hunclaimed : Unclaimed env c label)
    (hstep : step env c label = some c') : Tracked (us ++ uses env c label c') c' := by
  cases label with
  | resumeRun userOverride =>
    cases hstep
    by_cases hstatus : c.world.snapshot.status = .paused
    . exact h.resumed hunclaimed hstatus
    . exact h.refused hstatus
  | enterOptimizer => exact h.starts (.inl rfl) hstep
  | optimizerUnpark => exact h.starts (.inr rfl) hstep
  | optimizerWake answer => exact h.wake hstep
  | _ => exact h.other rfl hstep

end Phase

section Run

variable {env : WorkflowEnv} {runId : RunId} {request : CreateRunRequest} {outputLanguage : String}
  {bufferSize : Nat} {us : List Use} {c : Config}

/--
In every run in which no resume is accepted while an earlier override still waits for its round,
each override that was given is used in exactly one round.
-/
theorem override_used_once
    (hrun : Traced (step env) (Unclaimed env) (uses env)
      (init env.toEnv runId request outputLanguage bufferSize) us c) : UsedOnce us := by
  have htracked : Tracked us c := by
    apply hrun.invariant
    . refine { inv := Inv.init, once := .nil, phase := .before ?_ rfl ?_ }
      . simp
      . intro _ _ hpc
        contradiction
    . intro us c label c' h hunclaimed hstep
      exact h.step hunclaimed hstep
  exact htracked.once

/--
The run is resumed with an override, paused again before the optimizer reads it, and resumed
without one.
-/
def resumedTwice : List Label :=
  [.begin] ++ answeredVersion ++ [.requestPause, .enterAggregator, .resumeRun (some "Add refunds."),
    .requestPause, .aggregatorWake, .route, .enterOptimizer, .resumeRun none, .optimizerUnpark]

def traceOf (labels : List Label) : Option (List Use × Config) :=
  trace (step answeringWorkflow) (uses answeringWorkflow) [] answeringInit labels

def resumedReview : List Label :=
  pausedReview ++ [.resumeRun (some "Add refunds."), .aggregatorWake, .route, .enterOptimizer]

theorem override_used_once_review :
    ∃ us c,
      traceOf resumedReview = some (us, c)
        ∧ us = [.given "Add refunds.", .passed 1 (some "Add refunds.")]
        ∧ UsedOnce us := by
  have hshown : (traceOf resumedReview).map Prod.fst
      = some [.given "Add refunds.", .passed 1 (some "Add refunds.")] := by decide +kernel
  have hallowed : Allowed (step answeringWorkflow) (Unclaimed answeringWorkflow) answeringInit
      resumedReview := by decide +kernel
  obtain ⟨⟨us, c⟩, htrace, hus⟩ := Option.map_eq_some_iff.mp hshown
  exact ⟨us, c, htrace, hus, override_used_once (Traced.of_trace .refl hallowed htrace)⟩

theorem not_used_once :
    ¬∀ us c, Traced (step answeringWorkflow) always (uses answeringWorkflow) answeringInit us c →
      UsedOnce us := by
  intro hclaim
  have hshown : (traceOf resumedTwice).map Prod.fst
      = some [.given "Add refunds.", .passed 1 none] := by decide +kernel
  obtain ⟨⟨us, c⟩, htrace, hus⟩ := Option.map_eq_some_iff.mp hshown
  dsimp only at hus
  have honce := hclaim us c (Traced.of_trace .refl (allowed_always _) htrace)
  obtain ⟨iteration, heq, _⟩ := honce.taken [] _ _ [] hus
  cases heq

end Run

end Workflow

end AgenticPrd
