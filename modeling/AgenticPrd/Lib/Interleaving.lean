import Mathlib.Data.List.Basic
import Mathlib.Tactic.Common

/-!
Threads that act on a shared state. Where the actions of different threads commute, the state after
an interleaving only depends on what each thread has done.
-/

namespace Interleaving

variable {T O S : Type}

def run (act : T → O → S → S) (s : S) (actions : List (T × O)) : S :=
  actions.foldl (fun s action => act action.1 action.2 s) s

-- The actions of one thread, in its own order.
def thread [DecidableEq T] (t : T) (actions : List (T × O)) : List (T × O) :=
  actions.filter fun action => action.1 = t

def Independent (act : T → O → S → S) : Prop :=
  ∀ t t', t ≠ t' → ∀ o o' s, act t o (act t' o' s) = act t' o' (act t o s)

variable {act : T → O → S → S} {s : S} {actions actions' : List (T × O)}

@[simp]
theorem run_nil : run act s [] = s :=
  rfl

@[simp]
theorem run_cons (action : T × O) :
    run act s (action :: actions) = run act (act action.1 action.2 s) actions :=
  rfl

theorem run_append : run act s (actions ++ actions') = run act (run act s actions) actions' := by
  unfold run
  apply List.foldl_append

-- An action comes before those of other threads.
theorem Independent.run_act (hact : Independent act) {t : T} {o : O}
    (hother : ∀ action ∈ actions, action.1 ≠ t) :
    act t o (run act s actions) = run act (act t o s) actions := by
  induction actions generalizing s with
  | nil => rfl
  | cons action actions ih =>
    rw [List.forall_mem_cons] at hother
    rw [run_cons, run_cons, ih hother.2, hact _ _ hother.1.symm]

variable [DecidableEq T]

@[simp]
theorem thread_append (t : T) :
    thread t (actions ++ actions') = thread t actions ++ thread t actions' := by
  unfold thread
  apply List.filter_append

theorem eq_nil_of_threads (h : ∀ t, thread t actions = []) : actions = [] := by
  cases actions with
  | nil => rfl
  | cons action actions =>
    have hself := h action.1
    unfold thread at hself
    rw [List.filter_cons_of_pos (by simp)] at hself
    contradiction

-- The induction takes the first action, and brings it to the front of the other interleaving.
theorem Independent.run_eq (hact : Independent act)
    (h : ∀ t, thread t actions = thread t actions') : run act s actions = run act s actions' := by
  induction actions generalizing actions' s with
  | nil => rw [eq_nil_of_threads fun t => (h t).symm]
  | cons action actions ih =>
    have hself : thread action.1 actions' = action :: thread action.1 actions := by
      rw [← h]
      unfold thread
      rw [List.filter_cons_of_pos (by simp)]
    obtain ⟨before, after, rfl, hbefore, _, hafter⟩ := List.filter_eq_cons_iff.mp hself
    have hother : ∀ earlier ∈ before, earlier.1 ≠ action.1 := by
      intro earlier hearlier
      simpa using hbefore earlier hearlier
    rw [run_append, run_cons, run_cons, hact.run_act hother, ← run_append]
    apply ih
    intro t
    have ht := h t
    rw [thread_append] at ht ⊢
    unfold thread at ht ⊢
    by_cases heq : action.1 = t
    . rw [List.filter_cons_of_pos (by simpa using heq),
        List.filter_cons_of_pos (by simpa using heq)] at ht
      have hnone : before.filter (fun action => action.1 = t) = [] := by
        rw [List.filter_eq_nil_iff]
        intro earlier hearlier
        rw [← heq]
        simpa using hother earlier hearlier
      rw [hnone] at ht ⊢
      exact (List.cons.inj ht).2
    . rw [List.filter_cons_of_neg (by simpa using heq),
        List.filter_cons_of_neg (by simpa using heq)] at ht
      exact ht

end Interleaving
