import AgenticPrd.Lib.Transition
import Mathlib.Algebra.BigOperators.Group.List.Basic

/-!
Conservation along a run: what the system holds, and what its steps are shown to take in and to let
go of.
-/

namespace Transition

variable {C L O M : Type} [AddCommMonoid M] {step : C → L → Option C} {ok : C → L → Prop}
  {shows : C → L → C → List O} {a b : C} {os : List O}

def Conserves (stock : C → M) (inflow outflow : O → M) (c c' : C) (os : List O) : Prop :=
  stock c' + (os.map outflow).sum = stock c + (os.map inflow).sum

variable {stock : C → M} {inflow outflow : O → M}

theorem Conserves.refl (c : C) : Conserves stock inflow outflow c c [] :=
  rfl

theorem Conserves.trans {c c' c'' : C} {os os' : List O}
    (h : Conserves stock inflow outflow c c' os) (h' : Conserves stock inflow outflow c' c'' os') :
    Conserves stock inflow outflow c c'' (os ++ os') := by
  unfold Conserves at *
  rw [List.map_append, List.map_append, List.sum_append, List.sum_append]
  calc
    stock c'' + ((os.map outflow).sum + (os'.map outflow).sum)
      = (stock c'' + (os'.map outflow).sum) + (os.map outflow).sum := by
      rw [add_assoc, add_comm (os.map outflow).sum]
    _ = (stock c' + (os.map outflow).sum) + (os'.map inflow).sum := by
      rw [h', add_right_comm]
    _ = stock c + ((os.map inflow).sum + (os'.map inflow).sum) := by
      rw [h, add_assoc]

-- What every step conserves, while `I` holds, every run conserves.
theorem Traced.conserves {I : C → Prop} (hrun : Traced step ok shows a os b) (hinit : I a)
    (hpres : ∀ c l c', I c → ok c l → step c l = some c' →
      I c' ∧ Conserves stock inflow outflow c c' (shows c l c')) :
    I b ∧ Conserves stock inflow outflow a b os := by
  apply hrun.invariant (I := fun os c => I c ∧ Conserves stock inflow outflow a c os)
  . exact ⟨hinit, .refl a⟩
  . intro os c l c' hc hl hstep
    obtain ⟨hinv, hconserves⟩ := hpres c l c' hc.1 hl hstep
    exact ⟨hinv, hc.2.trans hconserves⟩

end Transition
