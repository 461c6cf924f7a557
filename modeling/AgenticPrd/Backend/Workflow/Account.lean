import AgenticPrd.Backend.Workflow.Kept

/-!
The rounds of the optimizer, and what the run has spent. Only the optimizer moves the first, and
only the nodes with a provider call move the second.
-/

namespace AgenticPrd

-- The iteration of a call for a plan and the override that it passes.
def ProviderCall.passed? : ProviderCall → Option (Nat × Option String)
  | generateRevisionPlan _ iteration userOverride _ => some (iteration, userOverride)
  | _ => none

def Commit.planned? (commit : Commit) : Option RunEvent :=
  commit.event.filter fun e => e.event = .revisionPlanned

structure Ledger where
  totalTokens : TokenUsage
  nodeTokens : Node → Option TokenUsage
  nodeTimings : List NodeTiming
  estimatedCostUsd : Option ℚ

structure Round where
  currentIteration : Nat
  pendingUserOverride : Option String

namespace RunSnapshot

def ledger (snapshot : RunSnapshot) : Ledger :=
  {
    totalTokens := snapshot.totalTokens
    nodeTokens := snapshot.nodeTokens
    nodeTimings := snapshot.nodeTimings
    estimatedCostUsd := snapshot.estimatedCostUsd
  }

def round (snapshot : RunSnapshot) : Round :=
  {
    currentIteration := snapshot.currentIteration
    pendingUserOverride := snapshot.pendingUserOverride
  }

end RunSnapshot

namespace World

def passed (w : World) : List (Nat × Option String) :=
  w.calls.filterMap ProviderCall.passed?

def planned (w : World) : List RunEvent :=
  w.journal.filterMap Commit.planned?

-- The optimizer's part of the world, seen with a part of the snapshot.
def seen {τ : Type} (view : RunSnapshot → τ) (w : World) :
    τ × List (Nat × Option String) × List RunEvent :=
  (view w.snapshot, w.passed, w.planned)

def rounds (w : World) : Round × List (Nat × Option String) × List RunEvent :=
  w.seen RunSnapshot.round

def account (w : World) : (Round × Ledger) × List (Nat × Option String) × List RunEvent :=
  w.seen fun snapshot => (snapshot.round, snapshot.ledger)

end World

namespace Workflow

open RunManager Prog

variable {env : Env} {faults : Faults} {α τ : Type} {view : RunSnapshot → τ}

section Commit

theorem seen_stamped (hview : Stampless view) (w : World) :
    (stamped env w).seen view = w.seen view := by
  obtain ⟨now, elapsed, ticks, _, h⟩ := stamped_eq env w
  rw [h]
  unfold World.seen
  rw [hview.elapsed, hview.updatedAt]
  rfl

theorem seen_published (hview : Stampless view) (e : RunEvent) (w : World) :
    (published e w).seen view = w.seen view := by
  unfold World.seen
  have hsnapshot : (published e w).snapshot = w.snapshot.withSequence e.sequence := by
    unfold published
    split <;> rfl
  have hpassed : (published e w).passed = w.passed := by
    unfold published
    split <;> rfl
  have hplanned : (published e w).planned = w.planned := by
    unfold published
    split <;> rfl
  rw [hsnapshot, hpassed, hplanned, hview.sequence]

theorem Keeping.seen {x : Prog World Exn α} (hover : Keeping (withCalls view) x)
    (hplanned : Keeping World.planned x) : Keeping (World.seen view) x :=
  (hover.prod hplanned).comp fun both =>
    (both.1.1, both.1.2.filterMap ProviderCall.passed?, both.2)

theorem keeping_commit (hview : Stampless view) {mutation : Prog RunSnapshot Exn Unit}
    {event : Option RunEventType} {payload : RunSnapshot → Payload}
    (hmutation : Keeping view mutation) (hevent : event ≠ some .revisionPlanned) :
    Keeping (World.seen view) (commit env faults mutation event payload) :=
  Keeping.seen (keeping_commit_withCalls hview hmutation) (keeping_commit_announced hevent)

theorem still_seen : Still (World.seen view) :=
  ⟨by
    intro w w' hsnapshot hcalls hjournal
    unfold World.seen World.passed World.planned
    rw [hsnapshot, hcalls, hjournal]⟩

theorem Aside.seen (hview : Aside view) : Unstreamed (World.seen view) :=
  {
    still_seen with
    keeps_commit := fun hminor =>
      keeping_commit hview.toStampless (hminor.keeping hview) (hminor.ne rfl)
    keeps_transition := fun htransit =>
      Keeping.seen (keeping_transition_withCalls hview.toStatusless)
        (keeping_transition_announced (isTransit_ne htransit rfl))
    keeps_streaming := by
      intro _ _ _ _ _ hstreaming
      apply keeping_commit hview.toStampless (hstreaming.keeping hview)
      cases hstreaming <;> simp
  }

theorem aside_account :
    Aside fun snapshot : RunSnapshot => (snapshot.round, snapshot.ledger) :=
  {
    updatedAt := fun _ _ => rfl
    elapsed := fun _ _ => rfl
    sequence := fun _ _ => rfl
    status := fun _ _ => rfl
    ended := fun _ _ => rfl
    started := fun _ _ => rfl
    marked := fun _ _ _ => rfl
    failed := fun _ _ _ _ _ => rfl
    begun := fun _ _ => rfl
    streamed := fun _ _ => rfl
    reviewed := fun _ _ _ _ => rfl
  }

theorem apart_round : Apart RunSnapshot.round :=
  {
    updatedAt := fun _ _ => rfl
    elapsed := fun _ _ => rfl
    sequence := fun _ _ => rfl
    status := fun _ _ => rfl
    ended := fun _ _ => rfl
    started := fun _ _ => rfl
    marked := fun _ _ _ => rfl
    failed := fun _ _ _ _ _ => rfl
    begun := fun _ _ => rfl
    streamed := fun _ _ => rfl
    reviewed := fun _ _ _ _ => rfl
    timed := fun _ _ => rfl
    used := fun _ _ _ _ => rfl
  }

instance : Unstreamed World.account :=
  aside_account.seen

instance : Unstreamed World.rounds :=
  apart_round.toAside.seen

instance : Unbilled World.rounds :=
  {
    apart_round.toAside.seen.toUnmoved with
    keeps_billing := by
      intro _ _ _ _ _ hbilling
      apply keeping_commit apart_round.toStampless (hbilling.keeping apart_round)
      cases hbilling <;> simp
  }

theorem keeping_rounds {α : Type} {x : Prog World Exn α} (h : Keeping World.account x) :
    Keeping World.rounds x :=
  h.comp fun account => (account.1.1, account.2)

end Commit

theorem stampless_round : Stampless RunSnapshot.round :=
  apart_round.toStampless

theorem overlooks_account {call : ProviderCall} (hcall : call.passed? = none) :
    Overlooks World.account call := by
  intro w
  unfold World.account World.seen World.passed World.called
  simp [hcall]
  rfl

theorem overlooks_rounds {call : ProviderCall} (hcall : call.passed? = none) :
    Overlooks World.rounds call := by
  intro w
  exact congrArg (fun account => (account.1.1, account.2)) (overlooks_account hcall w)

-- A generation and an evaluation are not part of the account.
theorem account_finishGeneration {cancelled : Bool} {version : PRDVersion} {content : String}
    {attempt : Nat} {payload : RunSnapshot → Payload} :
    Keeping World.account
      (commit env faults (finishGeneration cancelled version content attempt) (some .prdGenerated)
        payload) := by
  apply keeping_commit aside_account.toStampless _ (by simp)
  unfold finishGeneration
  split
  . exact .throw _
  . exact .modify fun _ => rfl

theorem account_aggregate {evaluation : EvaluationResult} {bestScore : Option ℚ}
    {bestVersion : Option Nat} {payload : RunSnapshot → Payload} :
    Keeping World.account
      (commit env faults (modify (aggregate evaluation bestScore bestVersion)) (some .scoresUpdated)
        payload) :=
  keeping_commit aside_account.toStampless (.modify fun _ => rfl) (by simp)

-- A resume only moves the pending override.
theorem keeping_resumeRun {userOverride : Option String} :
    Keeping (World.seen RunSnapshot.currentIteration) (resumeRun env userOverride) := by
  have hmutation : Keeping RunSnapshot.currentIteration (resumeMutation userOverride) :=
    keeping_resumeMutation fun _ => rfl
  have hstill : Still (World.seen RunSnapshot.currentIteration) := still_seen
  apply keeping_resume
  intro payload
  exact keeping_commit ⟨fun _ _ => rfl, fun _ _ => rfl, fun _ _ => rfl⟩ hmutation (by simp)

end Workflow

end AgenticPrd
