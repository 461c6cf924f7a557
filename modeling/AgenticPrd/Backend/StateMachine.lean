import AgenticPrd.Backend.Errors
import AgenticPrd.Lib.Program

/-!
The run state machine (`state_machine.py`).
-/

namespace AgenticPrd

namespace RunStatus

def isTerminal : RunStatus → Bool
  | completed => true
  | maxIterationsReached => true
  | cancelled => true
  | failed => true
  | _ => false

def allowedTransitions : RunStatus → List RunStatus
  | queued => [generating, cancelRequested, failed]
  | generating => [reviewing, pauseRequested, cancelRequested, failed]
  | reviewing => [aggregating, pauseRequested, cancelRequested, failed]
  | aggregating =>
    [
      completed,
      maxIterationsReached,
      optimizing,
      pauseRequested,
      paused,
      cancelRequested,
      failed
    ]
  | optimizing => [generating, pauseRequested, cancelRequested, failed]
  | pauseRequested => [paused, completed, maxIterationsReached, cancelRequested, failed]
  | paused => [optimizing, cancelRequested, failed]
  | cancelRequested => [cancelled, failed]
  | completed => []
  | maxIterationsReached => []
  | cancelled => []
  | failed => []

def canTransition (current target : RunStatus) : Bool :=
  target ∈ current.allowedTransitions

theorem canTransition_failed {status : RunStatus} (h : status.isTerminal = false) :
    canTransition status .failed = true := by
  cases status <;> simp_all [isTerminal, canTransition, allowedTransitions]

theorem ne_of_canTransition {current target : RunStatus} (h : canTransition current target = true) :
    target ≠ current := by
  intro heq
  subst heq
  cases target <;> simp_all [canTransition, allowedTransitions]

theorem not_canTransition_of_isTerminal {status : RunStatus} (h : status.isTerminal = true)
    (target : RunStatus) : canTransition status target = false := by
  cases status <;> simp_all [isTerminal, canTransition, allowedTransitions]

theorem not_outcome {status : RunStatus} (h : status.isTerminal = false) :
    status ≠ .completed ∧ status ≠ .maxIterationsReached := by
  cases status <;> simp_all [isTerminal]

-- A status that a stage can be set from.
theorem open_of_canTransition {current target : RunStatus}
    (htarget : target.isTerminal = false) (h : canTransition current target = true) :
    current.isTerminal = false ∧ current ≠ .cancelRequested := by
  cases current <;> simp_all [isTerminal, canTransition, allowedTransitions]
  cases h with
  | inl h => simp [h] at htarget
  | inr h => simp [h] at htarget

end RunStatus

def requireTransition {σ : Type} (current target : RunStatus) : Prog σ Exn Unit :=
  if current.canTransition target then
    pure ()
  else
    throw (.illegalTransition current target)

@[simp]
theorem wp_requireTransition {σ : Type} {current target : RunStatus} {s : σ}
    {Q : Unit → σ → Prop} {E : Exn → σ → Prop} :
    Prog.wp (requireTransition current target) s Q E
      ↔
    if current.canTransition target then Q () s else E (.illegalTransition current target) s := by
  unfold requireTransition
  split <;> simp

end AgenticPrd
