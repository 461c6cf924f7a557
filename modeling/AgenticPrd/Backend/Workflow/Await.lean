import AgenticPrd.Backend.Workflow.Invariant

/-!
Rules for the parts that all nodes share: the cancel check, the wait for the provider, and the
validated structured call.
-/

namespace AgenticPrd

namespace Workflow

open RunManager Prog

variable {env : Env} {origin w : World}

theorem Raised.of_view {w' : World} {exn : Exn} (hw' : Sound origin w') (hview : w'.view = w.view)
    (hsteady : Steady w.view) (hlegal : NotIllegal exn)
    (hcancelled : exn = .workflowCancelled → w.cancelSignal = true) : Raised origin exn w' :=
  {
    sound := hw'
    steady := by
      rw [hview]
      exact hsteady
    legal := hlegal
    cancelled := by
      intro heq
      have hsignal : w'.cancelSignal = w.cancelSignal := congrArg View.cancelSignal hview
      rw [hsignal]
      exact hcancelled heq
  }

section Await

variable {E : Exn → World → Prop} (hw : Sound origin w) (hsteady : Steady w.view)
  (hE : ∀ exn w', Raised origin exn w' → w'.view = w.view → E exn w')

include hw hsteady hE

theorem wp_checkCancel_sound {Q : Unit → World → Prop}
    (hQ : w.cancelSignal = false → ∀ w', Sound origin w' → w'.view = w.view → Q () w') :
    wp (checkCancel env) w Q E := by
  unfold checkCancel
  rw [wp_bind, wp_get]
  split
  . next hcancel =>
    apply hE _ _ _ rfl
    apply Raised.of_view hw rfl hsteady
    . simp [NotIllegal]
    . intro _
      exact hcancel
  . next hcancel =>
    rw [wp_bind]
    apply wp_remainingRunSeconds_sound hw
    intro remaining w1 hw1 hview1
    split
    . apply hE _ _ _ hview1
      apply Raised.of_view hw1 hview1 hsteady
      . simp [NotIllegal]
      . simp
    . apply hQ
      . simpa using hcancel
      . exact hw1
      . exact hview1

theorem wp_awaitResult_sound {α : Type} {await : Await} {answer : Answer α}
    {Q : α → World → Prop} (hawait : AwaitInv w.view await)
    (haccepts : await.accepts w answer = true) (hQ : ∀ value, Q value w) :
    wp (awaitResult await answer) w Q E := by
  have hraise : ∀ exn, NotIllegal exn → (exn = .workflowCancelled → w.cancelSignal = true) →
      E exn w := by
    intro exn hlegal hcancelled
    exact hE exn w (Raised.of_view hw rfl hsteady hlegal hcancelled) rfl
  cases await with
  | settling exn => exact hraise exn hawait.1 hawait.2
  | waiting =>
    cases answer with
    | returned value => exact hQ value
    | raised exn =>
      apply hraise
      . cases exn <;> simp [NotIllegal, ProviderExn.toExn]
      . cases exn <;> simp [ProviderExn.toExn]
    | timedOut => exact hraise _ (by simp [NotIllegal]) (by simp)
    | cancelled => exact hraise _ (by simp [NotIllegal]) (fun _ => haccepts)
    | settled => contradiction

end Await

section Stage

variable {stage : Stage} {sources : List RunStatus} {target : RunStatus}

theorem staged_mem {status : RunStatus} (hne : status ≠ .cancelRequested) :
    staged status target ∈ [target, .pauseRequested] := by
  unfold staged
  by_cases hpause : status = .pauseRequested
  . simp [hpause]
  . simp [hpause, hne]

theorem source_open {status : RunStatus} (htarget : target.isTerminal = false)
    (hne : target ≠ .cancelRequested)
    (hlegal : status = .pauseRequested ∨ status = target ∨ status.canTransition target = true) :
    status.isTerminal = false ∧ status ≠ .cancelRequested := by
  rcases hlegal with hpause | hsame | hlegal
  . rw [hpause]
    simp [RunStatus.isTerminal]
  . rw [hsame]
    exact ⟨htarget, hne⟩
  . exact RunStatus.open_of_canTransition htarget hlegal

theorem wp_setStage_live {Q : RunSnapshot → World → Prop} {E : Exn → World → Prop} (hw : Sound origin w)
    (hat : At w.view stage) (hlive : Live sources w.view) (hcancel : w.cancelSignal = false)
    (hlegal : ∀ status ∈ sources,
      status = .pauseRequested ∨ status = target ∨ status.canTransition target = true)
    (htarget : target.isTerminal = false) (hne : target ≠ .cancelRequested)
    (hQ : ∀ w', Sound origin w' → At w'.view stage → Live [target, .pauseRequested] w'.view →
      w'.cancelSignal = false → w'.view.loop = w.view.loop → Q w'.snapshot w') :
    wp (setStage env target) w Q E := by
  have hmem := hlegal _ (hlive.mem hcancel)
  have hopen := source_open htarget hne hmem
  have hstaged : staged w.view.status target ∈ [target, .pauseRequested] := staged_mem hopen.2
  apply wp_setStage_sound hw hmem htarget
  intro w' hw' hview'
  have hcancel' : w'.cancelSignal = false := by
    rw [← hcancel]
    exact congrArg View.cancelSignal hview'
  have hstatus' : w'.view.status = staged w.view.status target := by
    rw [hview']
    rfl
  have hloop' : w'.view.loop = w.view.loop := by
    rw [hview']
    rfl
  have hnew : w'.view.status.isTerminal = false := by
    rw [hstatus']
    simp only [List.mem_cons, List.not_mem_nil, or_false] at hstaged
    cases hstaged with
    | inl h => rw [h, htarget]
    | inr h =>
      rw [h]
      rfl
  apply hQ w' hw' _ _ hcancel' hloop'
  . exact hat.withStatus hloop' (RunStatus.not_outcome hopen.1) (RunStatus.not_outcome hnew)
  . right
    rw [hstatus']
    exact ⟨hcancel', hstaged⟩

end Stage

-- A call other than a stream does not show in the view.
theorem called_view {call : ProviderCall} (hcall : ∀ i, call.isStreamOf i = false) :
    (w.called call).view = w.view := by
  unfold World.view World.called
  simp [hcall]

theorem wp_beginAwait_sound {call : Option ProviderCall} {Q : Await → World → Prop}
    {E : Exn → World → Prop} (hw : Sound origin w) (hsteady : Steady w.view)
    (hcall : ∀ c ∈ call, ∀ i, c.isStreamOf i = false)
    (hQ : ∀ await w', Sound origin w' → w'.view = w.view → AwaitInv w'.view await → Q await w') :
    wp (beginAwait env call) w Q E := by
  unfold beginAwait
  rw [wp_tryCatch, wp_bind]
  apply wp_checkCancel_sound hw hsteady
  . intro exn w1 hraised hview1
    exact hQ _ w1 hraised.sound hview1 ⟨hraised.legal, hraised.cancelled⟩
  . intro _ w1 hw1 hview1
    rw [wp_bind]
    apply wp_remainingRunSeconds_sound hw1
    intro remaining w2 hw2 hview2
    have hview : w2.view = w.view := by rw [hview2, hview1]
    cases call with
    | none => exact hQ .waiting w2 hw2 hview trivial
    | some call =>
      dsimp only
      rw [wp_bind, wp_modify, wp_pure]
      have hstreams : (w2.called call).view.loop.streams = w2.view.loop.streams := by
        rw [called_view (hcall call rfl)]
      apply hQ
      . exact hw2.congr rfl rfl rfl rfl rfl hstreams
      . rw [called_view (hcall call rfl)]
        exact hview
      . trivial

section Structured

variable {T : Type} {model : Json → Option T} {call : ProviderCall} {repair : Json → ProviderCall}
  {answer : Answer ProviderStructuredResult} {structured : StructuredPc}

theorem wp_structuredCall_sound {attempt : Nat} {Q : StructuredPc → World → Prop}
    {E : Exn → World → Prop} (hw : Sound origin w) (hsteady : Steady w.view)
    (hcall : ∀ i, call.isStreamOf i = false)
    (hQ : ∀ structured w', Sound origin w' → w'.view = w.view → StructuredInv w'.view structured →
      Q structured w') :
    wp (structuredCall env attempt call) w Q E := by
  unfold structuredCall
  rw [wp_bind]
  apply wp_beginAwait_sound hw hsteady
  . simpa using hcall
  . intro await w1 hw1 hview1 hawait
    exact hQ _ w1 hw1 hview1 hawait

theorem wp_structuredWake_sound {Q : StructuredPc ⊕ (ProviderStructuredResult × T) → World → Prop}
    {E : Exn → World → Prop} (hw : Sound origin w) (hsteady : Steady w.view)
    (hinv : StructuredInv w.view structured) (haccepts : structured.await.accepts w answer = true)
    (hcall : ∀ i, call.isStreamOf i = false) (hrepair : ∀ value i, (repair value).isStreamOf i = false)
    (hE : ∀ exn w', Raised origin exn w' → w'.view = w.view → E exn w')
    (hsuspended : ∀ structured w', Sound origin w' → w'.view = w.view → StructuredInv w'.view structured →
      Q (.inl structured) w')
    (hreturned : ∀ result parsed, Q (.inr (result, parsed)) w) :
    wp (structuredWake env model call repair answer structured) w Q E := by
  cases structured with
  | calling attempt await =>
    unfold structuredWake
    rw [wp_bind, wp_tryCatch, wp_bind]
    apply wp_awaitResult_sound hw hsteady _ hinv haccepts
    . intro result
      rw [wp_pure]
      dsimp only
      split
      . exact hreturned _ _
      . rw [wp_bind]
        apply wp_beginAwait_sound hw hsteady
        . simpa using hrepair result.value
        . intro await w1 hw1 hview1 hawait
          exact hsuspended _ w1 hw1 hview1 hawait
    . intro exn w1 hraised hview1
      split
      . rw [wp_pure]
        dsimp only
        rw [wp_bind]
        apply wp_structuredCall_sound hraised.sound hraised.steady hcall
        intro structured w2 hw2 hview2 hstructured
        apply hsuspended _ w2 hw2 _ hstructured
        rw [hview2, hview1]
      . exact hE exn w1 hraised hview1
  | repairing result await =>
    unfold structuredWake
    rw [wp_bind]
    apply wp_awaitResult_sound hw hsteady hE hinv haccepts
    intro repaired
    split
    . apply hE _ w _ rfl
      apply Raised.of_view hw rfl hsteady
      . simp [NotIllegal]
      . simp
    . exact hreturned _ _

end Structured

end Workflow

end AgenticPrd
