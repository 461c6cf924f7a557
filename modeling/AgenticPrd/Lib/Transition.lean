import Mathlib.Tactic.Common

/-!
Labelled transition systems given by a partial step function, their runs, and the rule by which an
invariant of every step is an invariant of every run. A run may be restricted to steps that meet a
condition on the state before the step.
-/

namespace Transition

variable {C L : Type}

/--
`Steps step ok a b`: some run leads from `a` to `b`, and each of its steps meets `ok`.
-/
inductive Steps (step : C → L → Option C) (ok : C → L → Prop) (a : C) : C → Prop where
  | refl : Steps step ok a a
  | tail {b c : C} {l : L} (hrun : Steps step ok a b) (hok : ok b l) (hstep : step b l = some c) :
    Steps step ok a c

def always : C → L → Prop :=
  fun _ _ => True

abbrev Reaches (step : C → L → Option C) (a b : C) : Prop :=
  Steps step always a b

variable {step : C → L → Option C} {ok ok' : C → L → Prop} {a b c : C}

theorem Steps.mono (h : Steps step ok a b) (hok : ∀ c l, ok c l → ok' c l) :
    Steps step ok' a b := by
  induction h with
  | refl => exact .refl
  | tail _ hl hstep ih => exact .tail ih (hok _ _ hl) hstep

theorem Steps.reaches (h : Steps step ok a b) : Reaches step a b :=
  h.mono fun _ _ _ => trivial

theorem Steps.trans (hab : Steps step ok a b) (hbc : Steps step ok b c) : Steps step ok a c := by
  induction hbc with
  | refl => exact hab
  | tail _ hl hstep ih => exact .tail ih hl hstep

theorem Steps.single {l : L} (hok : ok a l) (hstep : step a l = some b) : Steps step ok a b :=
  .tail .refl hok hstep

theorem Steps.invariant {I : C → Prop} (hrun : Steps step ok a b) (hinit : I a)
    (hpres : ∀ c l c', I c → ok c l → step c l = some c' → I c') : I b := by
  induction hrun with
  | refl => exact hinit
  | tail _ hl hstep ih => exact hpres _ _ _ ih hl hstep

def exec (step : C → L → Option C) : C → List L → Option C
  | c, [] => some c
  | c, l :: ls => (step c l).bind (exec step · ls)

theorem exec_concat (ls : List L) (l : L) :
    exec step a (ls ++ [l]) = (exec step a ls).bind (step · l) := by
  induction ls generalizing a with
  | nil =>
    simp only [List.nil_append, exec, Option.bind_some]
    cases step a l <;> rfl
  | cons l' ls ih =>
    simp only [List.cons_append, exec]
    cases step a l' with
    | none => rfl
    | some b => exact ih

def Allowed (step : C → L → Option C) (ok : C → L → Prop) : C → List L → Prop
  | _, [] => True
  | c, l :: ls => ok c l ∧ ∀ c' ∈ step c l, Allowed step ok c' ls

instance Allowed.decidable [hdec : ∀ c l, Decidable (ok c l)] :
    (ls : List L) → (c : C) → Decidable (Allowed step ok c ls)
  | [], _ => .isTrue trivial
  | l :: ls, c =>
    have := fun c' => Allowed.decidable ls c'
    inferInstanceAs (Decidable (ok c l ∧ ∀ c' ∈ step c l, Allowed step ok c' ls))

theorem allowed_congr (h : ∀ c l, ok c l ↔ ok' c l) (ls : List L) :
    Allowed step ok a ls ↔ Allowed step ok' a ls := by
  induction ls generalizing a with
  | nil => rfl
  | cons l ls ih =>
    simp only [Allowed]
    rw [h]
    simp only [ih]

theorem Allowed.last {ls : List L} {l : L} (hallowed : Allowed step ok a (ls ++ [l]))
    (hexec : exec step a ls = some b) : ok b l := by
  induction ls generalizing a with
  | nil =>
    simp only [exec, Option.some.injEq] at hexec
    subst hexec
    exact hallowed.1
  | cons l' ls ih =>
    simp only [exec, Option.bind_eq_some_iff] at hexec
    obtain ⟨c, hstep, hrest⟩ := hexec
    exact ih (hallowed.2 c hstep) hrest

-- A condition that follows from another one under an invariant.
theorem Allowed.imp {I : C → Prop} {ls : List L} (hallowed : Allowed step ok a ls) (hinit : I a)
    (hpres : ∀ c l c', I c → ok c l → step c l = some c' → I c')
    (himp : ∀ c l, I c → ok c l → ok' c l) : Allowed step ok' a ls := by
  induction ls generalizing a with
  | nil => trivial
  | cons l ls ih =>
    simp only [Allowed] at hallowed ⊢
    refine ⟨himp _ _ hinit hallowed.1, ?_⟩
    intro c hstep
    apply ih (hallowed.2 c hstep)
    exact hpres _ _ _ hinit hallowed.1 hstep

theorem Steps.of_exec {ls : List L} (hallowed : Allowed step ok a ls)
    (hexec : exec step a ls = some b) : Steps step ok a b := by
  induction ls generalizing a with
  | nil =>
    simp only [exec, Option.some.injEq] at hexec
    subst hexec
    exact .refl
  | cons l ls ih =>
    simp only [exec, Option.bind_eq_some_iff] at hexec
    obtain ⟨c, hstep, hrest⟩ := hexec
    have hl := hallowed.1
    have hls := hallowed.2 c hstep
    exact (Steps.single hl hstep).trans (ih hls hrest)

theorem allowed_always (ls : List L) : Allowed step always a ls := by
  induction ls generalizing a with
  | nil => trivial
  | cons l ls ih => exact ⟨trivial, fun _ _ => ih⟩

theorem Reaches.of_exec {ls : List L} (hexec : exec step a ls = some b) : Reaches step a b :=
  Steps.of_exec (allowed_always ls) hexec

section Traced

variable {O : Type} {shows : C → L → C → List O} {os : List O}

/--
`Traced step ok shows a os b`: a run from `a` to `b` whose steps meet `ok`, and what they show.
-/
inductive Traced (step : C → L → Option C) (ok : C → L → Prop) (shows : C → L → C → List O) (a : C) :
    List O → C → Prop where
  | refl : Traced step ok shows a [] a
  | tail {os : List O} {b c : C} {l : L} (hrun : Traced step ok shows a os b) (hok : ok b l)
    (hstep : step b l = some c) : Traced step ok shows a (os ++ shows b l c) c

theorem Traced.steps (hrun : Traced step ok shows a os b) : Steps step ok a b := by
  induction hrun with
  | refl => exact .refl
  | tail _ hl hstep ih => exact .tail ih hl hstep

theorem Traced.invariant {I : List O → C → Prop} (hrun : Traced step ok shows a os b)
    (hinit : I [] a)
    (hpres : ∀ os c l c', I os c → ok c l → step c l = some c' → I (os ++ shows c l c') c') :
    I os b := by
  induction hrun with
  | refl => exact hinit
  | tail _ hl hstep ih => exact hpres _ _ _ _ ih hl hstep

def trace (step : C → L → Option C) (shows : C → L → C → List O) :
    List O → C → List L → Option (List O × C)
  | os, c, [] => some (os, c)
  | os, c, l :: ls => (step c l).bind fun c' => trace step shows (os ++ shows c l c') c' ls

theorem Traced.of_trace {ls : List L} {os' : List O} (hrun : Traced step ok shows a os b)
    (hallowed : Allowed step ok b ls) (htrace : trace step shows os b ls = some (os', c)) :
    Traced step ok shows a os' c := by
  induction ls generalizing os b with
  | nil =>
    simp only [trace, Option.some.injEq, Prod.mk.injEq] at htrace
    obtain ⟨rfl, rfl⟩ := htrace
    exact hrun
  | cons l ls ih =>
    simp only [trace, Option.bind_eq_some_iff] at htrace
    obtain ⟨c', hstep, hrest⟩ := htrace
    exact ih (.tail hrun hallowed.1 hstep) (hallowed.2 c' hstep) hrest

end Traced

end Transition
