import AgenticPrd.Lib.Transition

/-!
Rankings of the states of a transition system. A run shows no more than its first state is ranked,
and where some step always goes down, one can go on to a state that rests.
-/

namespace Transition

variable {C L O : Type} {step : C → L → Option C} {ok : C → L → Prop} {shows : C → L → C → List O}
  {I Rest : C → Prop} {a b : C} {os : List O}

-- Each step pays for what it shows.
def Pays (rank : C → Nat) (shows : C → L → C → List O) (c : C) (l : L) (c' : C) : Prop :=
  rank c' + (shows c l c').length ≤ rank c

theorem Traced.ranked {rank : C → Nat} (hrun : Traced step ok shows a os b) (hinit : I a)
    (hpres : ∀ c l c', I c → ok c l → step c l = some c' → I c' ∧ Pays rank shows c l c') :
    rank b + os.length ≤ rank a := by
  have hboth : I b ∧ rank b + os.length ≤ rank a := by
    apply hrun.invariant (I := fun os c => I c ∧ rank c + os.length ≤ rank a) ⟨hinit, Nat.le_refl _⟩
    intro os c l c' hc hl hstep
    obtain ⟨hinv, hpays⟩ := hpres c l c' hc.1 hl hstep
    refine ⟨hinv, ?_⟩
    have hbefore := hc.2
    unfold Pays at hpays
    rw [List.length_append]
    omega
  exact hboth.2

-- The induction is on the rank of the state.
theorem exists_rest (rank : C → Nat) (hinit : I a)
    (hgoes : ∀ c, I c → Rest c ∨ ∃ l c', ok c l ∧ step c l = some c' ∧ I c' ∧ rank c' < rank c) :
    ∃ b, Steps step ok a b ∧ Rest b := by
  induction hrank : rank a using Nat.strongRecOn generalizing a with
  | ind n ih =>
    cases hgoes a hinit with
    | inl hrest => exact ⟨a, .refl, hrest⟩
    | inr hnext =>
      obtain ⟨l, c, hok, hstep, hc, hless⟩ := hnext
      rw [hrank] at hless
      obtain ⟨b, hrun, hrest⟩ := ih (rank c) hless hc rfl
      exact ⟨b, (Steps.single hok hstep).trans hrun, hrest⟩

end Transition
