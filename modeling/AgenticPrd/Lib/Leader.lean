import Mathlib.Data.List.Induction
import Mathlib.Order.Lattice
import Mathlib.Tactic.Common

/-!
The leader of a list whose elements may have a score: the first of those with the highest score.
-/

namespace Leader

variable {α β : Type} [LinearOrder β] {score : α → Option β} {l : List α} {a a' : α} {b b' : β}

def Leads (score : α → Option β) (l : List α) (a : α) (b : β) : Prop :=
  ∃ before after, l = before ++ a :: after
    ∧ score a = some b
    ∧ (∀ x ∈ before, ∀ y ∈ score x, y < b)
    ∧ ∀ x ∈ after, ∀ y ∈ score x, y ≤ b

-- The leader and its score, where there is one.
inductive IsLeader (score : α → Option β) (l : List α) : Option (α × β) → Prop where
  | unscored (h : ∀ a ∈ l, score a = none) : IsLeader score l none
  | leads {a : α} {b : β} (h : Leads score l a b) : IsLeader score l (some (a, b))

theorem Leads.mem (h : Leads score l a b) : a ∈ l := by
  obtain ⟨before, after, rfl, _⟩ := h
  simp

theorem Leads.score_eq (h : Leads score l a b) : score a = some b := by
  obtain ⟨before, after, _, hscore, _⟩ := h
  exact hscore

theorem Leads.le (h : Leads score l a b) (ha : a' ∈ l) (hscore : score a' = some b') : b' ≤ b := by
  obtain ⟨before, after, rfl, hself, hbefore, hafter⟩ := h
  rw [List.mem_append, List.mem_cons] at ha
  rcases ha with ha | rfl | ha
  . exact le_of_lt (hbefore a' ha b' hscore)
  . rw [hself] at hscore
    cases hscore
    exact le_refl _
  . exact hafter a' ha b' hscore

-- An element that does not score higher comes too late.
theorem Leads.concat (h : Leads score l a b) (hlate : ∀ y ∈ score a', y ≤ b) :
    Leads score (l ++ [a']) a b := by
  obtain ⟨before, after, rfl, hscore, hbefore, hafter⟩ := h
  refine ⟨before, after ++ [a'], by simp, hscore, hbefore, ?_⟩
  rw [List.forall_mem_append]
  refine ⟨hafter, ?_⟩
  simpa using hlate

theorem Leads.overtake (hscore : score a = some b) (h : ∀ x ∈ l, ∀ y ∈ score x, y < b) :
    Leads score (l ++ [a]) a b :=
  ⟨l, [], rfl, hscore, h, by simp⟩

theorem IsLeader.nil : IsLeader score ([] : List α) none :=
  .unscored (by simp)

theorem IsLeader.concat_none {best : Option (α × β)} (h : IsLeader score l best)
    (ha : score a = none) : IsLeader score (l ++ [a]) best := by
  cases h with
  | unscored hnone =>
    apply IsLeader.unscored
    rw [List.forall_mem_append]
    refine ⟨hnone, ?_⟩
    simpa using ha
  | leads hleads =>
    apply IsLeader.leads
    apply hleads.concat
    simp [ha]

-- The new element leads if it scores higher than the leader.
theorem IsLeader.concat_some {best : Option (α × β)} (h : IsLeader score l best)
    (ha : score a = some b) :
    IsLeader score (l ++ [a]) (if ∀ leader ∈ best, leader.2 < b then some (a, b) else best) := by
  cases h with
  | unscored hnone =>
    rw [if_pos (by simp)]
    apply IsLeader.leads
    apply Leads.overtake ha
    intro x hx y hy
    rw [hnone x hx] at hy
    contradiction
  | @leads a' b' hleads =>
    split
    . next hhigher =>
      simp only [Option.mem_some_iff, forall_eq'] at hhigher
      apply IsLeader.leads
      apply Leads.overtake ha
      intro x hx y hy
      exact lt_of_le_of_lt (hleads.le hx hy) hhigher
    . next hnot =>
      simp only [Option.mem_some_iff, forall_eq', not_lt] at hnot
      apply IsLeader.leads
      apply hleads.concat
      rw [ha]
      simpa using hnot

theorem IsLeader.exists (score : α → Option β) (l : List α) : ∃ best, IsLeader score l best := by
  induction l using List.reverseRecOn with
  | nil => exact ⟨none, .nil⟩
  | append_singleton l a ih =>
    obtain ⟨best, h⟩ := ih
    cases ha : score a with
    | none => exact ⟨best, h.concat_none ha⟩
    | some b => exact ⟨_, h.concat_some ha⟩

theorem Leads.unique (h : Leads score l a b) (h' : Leads score l a' b') : a = a' ∧ b = b' := by
  have hb : b = b' := le_antisymm (h'.le h.mem h.score_eq) (h.le h'.mem h'.score_eq)
  subst hb
  refine ⟨?_, rfl⟩
  obtain ⟨before, after, rfl, hscore, hbefore, _⟩ := h
  obtain ⟨before', after', heq, hscore', hbefore', _⟩ := h'
  rcases List.append_eq_append_iff.mp heq with ⟨rest, hrest, htail⟩ | ⟨rest, hrest, htail⟩
  . cases rest with
    | nil =>
      simp only [List.nil_append, List.cons.injEq] at htail
      exact htail.1
    | cons c rest =>
      simp only [List.cons_append, List.cons.injEq] at htail
      have hlt := hbefore' a (by rw [hrest, htail.1]; simp) b hscore
      exact absurd hlt (lt_irrefl b)
  . cases rest with
    | nil =>
      simp only [List.nil_append, List.cons.injEq] at htail
      exact htail.1.symm
    | cons c rest =>
      simp only [List.cons_append, List.cons.injEq] at htail
      have hlt := hbefore a' (by rw [hrest, htail.1]; simp) b hscore'
      exact absurd hlt (lt_irrefl b)

theorem IsLeader.unique {best best' : Option (α × β)} (h : IsLeader score l best)
    (h' : IsLeader score l best') : best = best' := by
  cases h with
  | unscored hnone =>
    cases h' with
    | unscored => rfl
    | leads hleads =>
      have hsome := hleads.score_eq
      rw [hnone _ hleads.mem] at hsome
      contradiction
  | leads hleads =>
    cases h' with
    | unscored hnone =>
      have hsome := hleads.score_eq
      rw [hnone _ hleads.mem] at hsome
      contradiction
    | leads hleads' =>
      obtain ⟨rfl, rfl⟩ := hleads.unique hleads'
      rfl

theorem IsLeader.of_concat_none {best : Option (α × β)} (h : IsLeader score (l ++ [a]) best)
    (ha : score a = none) : IsLeader score l best := by
  obtain ⟨best', h'⟩ := IsLeader.exists score l
  rw [h.unique (h'.concat_none ha)]
  exact h'

-- The leader found from left to right.
def step (score : α → Option β) (best : Option (α × β)) (a : α) : Option (α × β) :=
  match score a with
  | none => best
  | some b => if ∀ leader ∈ best, leader.2 < b then some (a, b) else best

theorem isLeader_foldl (score : α → Option β) (l : List α) :
    IsLeader score l (l.foldl (step score) none) := by
  induction l using List.reverseRecOn with
  | nil => exact .nil
  | append_singleton l a ih =>
    rw [List.foldl_append, List.foldl_cons, List.foldl_nil]
    unfold step
    split
    . next ha => exact ih.concat_none ha
    . next b ha => exact ih.concat_some ha

end Leader
