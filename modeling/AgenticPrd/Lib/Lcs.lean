import Mathlib.Data.List.Basic
import Mathlib.Tactic.Common

/-!
Longest common subsequences of two lists, and the edit scripts that keep one of them.
-/

namespace Lcs

variable {α : Type}

-- The length of a longest common subsequence.
structure IsLongest (a b : List α) (n : Nat) : Prop where
  common : ∃ s : List α, s.Sublist a ∧ s.Sublist b ∧ s.length = n
  longest : ∀ s : List α, s.Sublist a → s.Sublist b → s.length ≤ n

theorem IsLongest.unique {a b : List α} {n n' : Nat} (h : IsLongest a b n)
    (h' : IsLongest a b n') : n = n' := by
  obtain ⟨s, ha, hb, hs⟩ := h.common
  obtain ⟨s', ha', hb', hs'⟩ := h'.common
  have hle := h'.longest s ha hb
  have hge := h.longest s' ha' hb'
  omega

theorem IsLongest.reverse {a b : List α} {n : Nat} (h : IsLongest a b n) :
    IsLongest a.reverse b.reverse n := by
  constructor
  . obtain ⟨s, ha, hb, hs⟩ := h.common
    exact ⟨s.reverse, ha.reverse, hb.reverse, by rw [List.length_reverse, hs]⟩
  . intro s ha hb
    rw [← List.length_reverse]
    apply h.longest
    . rw [← List.reverse_sublist, List.reverse_reverse]
      exact ha
    . rw [← List.reverse_sublist, List.reverse_reverse]
      exact hb

variable [DecidableEq α]

def longest : List α → List α → Nat
  | [], _ => 0
  | _ :: _, [] => 0
  | x :: as, y :: bs =>
    if x = y then longest as bs + 1 else max (longest as (y :: bs)) (longest (x :: as) bs)
termination_by a b => a.length + b.length

variable {a b as bs : List α} {x y : α}

section Longest

theorem longest_nil_left (b : List α) : longest [] b = 0 := by
  unfold longest
  rfl

theorem longest_nil_right (a : List α) : longest a [] = 0 := by
  cases a <;> (unfold longest; rfl)

theorem longest_cons_same : longest (x :: as) (x :: bs) = longest as bs + 1 := by
  conv_lhs => unfold longest
  rw [if_pos rfl]

theorem longest_cons_ne (h : x ≠ y) :
    longest (x :: as) (y :: bs) = max (longest as (y :: bs)) (longest (x :: as) bs) := by
  conv_lhs => unfold longest
  rw [if_neg h]

theorem exists_common (a b : List α) :
    ∃ s : List α, s.Sublist a ∧ s.Sublist b ∧ s.length = longest a b := by
  fun_induction longest a b with
  | case1 b => exact ⟨[], List.nil_sublist _, List.nil_sublist _, rfl⟩
  | case2 x as => exact ⟨[], List.nil_sublist _, List.nil_sublist _, rfl⟩
  | case3 as y bs ih =>
    obtain ⟨s, ha, hb, hlength⟩ := ih
    exact ⟨y :: s, ha.cons_cons y, hb.cons_cons y, by rw [List.length_cons, hlength]⟩
  | case4 x as y bs _ ih₁ ih₂ =>
    obtain ⟨s, ha, hb, hlength⟩ := ih₁
    obtain ⟨t, ha', hb', hlength'⟩ := ih₂
    cases Nat.le_total (longest as (y :: bs)) (longest (x :: as) bs) with
    | inl hle => exact ⟨t, ha', hb'.cons y, by rw [hlength', Nat.max_eq_right hle]⟩
    | inr hle => exact ⟨s, ha.cons x, hb, by rw [hlength, Nat.max_eq_left hle]⟩

-- Where both lists start with one element, nothing is lost by taking it.
theorem length_le_longest {s : List α} (ha : s.Sublist a) (hb : s.Sublist b) :
    s.length ≤ longest a b := by
  fun_induction longest a b generalizing s with
  | case1 b => exact ha.length_le
  | case2 x as => exact hb.length_le
  | case3 as y bs ih =>
    cases s with
    | nil => exact Nat.zero_le _
    | cons z s => exact Nat.succ_le_succ (ih ha.of_cons_cons hb.of_cons_cons)
  | case4 x as y bs hne ih₁ ih₂ =>
    cases ha with
    | cons _ ha => exact Nat.le_trans (ih₁ ha hb) (Nat.le_max_left _ _)
    | cons_cons _ ha =>
      cases hb with
      | cons _ hb => exact Nat.le_trans (ih₂ (ha.cons_cons x) hb) (Nat.le_max_right _ _)
      | cons_cons _ _ => exact absurd rfl hne

theorem isLongest_longest (a b : List α) : IsLongest a b (longest a b) :=
  ⟨exists_common a b, fun _ ha hb => length_le_longest ha hb⟩

theorem longest_le_left (a b : List α) : longest a b ≤ a.length := by
  obtain ⟨s, ha, _, hs⟩ := exists_common a b
  rw [← hs]
  exact ha.length_le

theorem longest_reverse (a b : List α) : longest a.reverse b.reverse = longest a b :=
  (isLongest_longest a.reverse b.reverse).unique (isLongest_longest a b).reverse

-- A common prefix can be trimmed.
theorem longest_append_left (s a b : List α) :
    longest (s ++ a) (s ++ b) = s.length + longest a b := by
  induction s with
  | nil => simp
  | cons x s ih =>
    rw [List.cons_append, List.cons_append, longest_cons_same, ih, List.length_cons]
    omega

-- A common suffix can be trimmed.
theorem longest_append_right (s a b : List α) :
    longest (a ++ s) (b ++ s) = longest a b + s.length := by
  rw [← longest_reverse, List.reverse_append, List.reverse_append, longest_append_left,
    List.length_reverse, longest_reverse]
  omega

end Longest

inductive Step where
  | keep
  | drop
  | add
  deriving DecidableEq, Repr

-- `Aligns script a b`: the script goes through all of `a` and all of `b`, and keeps what is equal.
inductive Aligns : List Step → List α → List α → Prop where
  | nil : Aligns [] [] []
  | keep {x : α} {script : List Step} {as bs : List α} (hrest : Aligns script as bs) :
    Aligns (.keep :: script) (x :: as) (x :: bs)
  | drop {x : α} {script : List Step} {as b : List α} (hrest : Aligns script as b) :
    Aligns (.drop :: script) (x :: as) b
  | add {y : α} {script : List Step} {a bs : List α} (hrest : Aligns script a bs) :
    Aligns (.add :: script) a (y :: bs)

-- Elements are dropped before others are added, as long as no longer subsequence is lost by it.
def script : List α → List α → List Step
  | [], [] => []
  | _ :: as, [] => .drop :: script as []
  | [], _ :: bs => .add :: script [] bs
  | x :: as, y :: bs =>
    if x = y then
      .keep :: script as bs
    else if longest as (y :: bs) ≥ longest (x :: as) bs then
      .drop :: script as (y :: bs)
    else
      .add :: script (x :: as) bs
termination_by a b => a.length + b.length

section Script

omit [DecidableEq α] in
theorem Aligns.append {steps steps' : List Step} {a' b' : List α} (h : Aligns steps a b)
    (h' : Aligns steps' a' b') : Aligns (steps ++ steps') (a ++ a') (b ++ b') := by
  induction h with
  | nil => exact h'
  | keep _ ih => exact .keep ih
  | drop _ ih => exact .drop ih
  | add _ ih => exact .add ih

omit [DecidableEq α] in
theorem aligns_keep (a : List α) : Aligns (List.replicate a.length .keep) a a := by
  induction a with
  | nil => exact .nil
  | cons x a ih => exact .keep ih

omit [DecidableEq α] in
theorem aligns_replace (a b : List α) :
    Aligns (List.replicate a.length .drop ++ List.replicate b.length .add) a b := by
  induction a with
  | nil =>
    induction b with
    | nil => exact .nil
    | cons y b ih => exact .add ih
  | cons x a ih => exact .drop ih

theorem script_nil_right : script (x :: as) [] = .drop :: script as [] := by
  conv_lhs => unfold script

theorem script_nil_left : script [] (y :: bs) = .add :: script [] bs := by
  conv_lhs => unfold script

theorem script_same : script (x :: as) (x :: bs) = .keep :: script as bs := by
  conv_lhs => unfold script
  rw [if_pos rfl]

theorem script_drop (hne : x ≠ y) (hge : longest as (y :: bs) ≥ longest (x :: as) bs) :
    script (x :: as) (y :: bs) = .drop :: script as (y :: bs) := by
  conv_lhs => unfold script
  rw [if_neg hne, if_pos hge]

theorem script_add (hne : x ≠ y) (hlt : ¬longest as (y :: bs) ≥ longest (x :: as) bs) :
    script (x :: as) (y :: bs) = .add :: script (x :: as) bs := by
  conv_lhs => unfold script
  rw [if_neg hne, if_neg hlt]

theorem aligns_script (a b : List α) : Aligns (script a b) a b := by
  fun_induction script a b with
  | case1 => exact .nil
  | case2 x as ih => exact .drop ih
  | case3 y bs ih => exact .add ih
  | case4 as y bs ih => exact .keep ih
  | case5 x as y bs _ _ ih => exact .drop ih
  | case6 x as y bs _ _ ih => exact .add ih

-- The script keeps a longest common subsequence.
theorem count_keep_script (a b : List α) : (script a b).count .keep = longest a b := by
  fun_induction script a b with
  | case1 => rw [longest_nil_left, List.count_nil]
  | case2 x as ih => rw [List.count_cons_of_ne (by simp), ih, longest_nil_right, longest_nil_right]
  | case3 y bs ih => rw [List.count_cons_of_ne (by simp), ih, longest_nil_left, longest_nil_left]
  | case4 as y bs ih => rw [List.count_cons_self, ih, longest_cons_same]
  | case5 x as y bs hne hge ih =>
    rw [List.count_cons_of_ne (by simp), ih, longest_cons_ne hne, Nat.max_eq_left hge]
  | case6 x as y bs hne hlt ih =>
    rw [List.count_cons_of_ne (by simp), ih, longest_cons_ne hne, Nat.max_eq_right (by omega)]

theorem script_self (a : List α) : script a a = List.replicate a.length .keep := by
  induction a with
  | nil => rw [script, List.length_nil, List.replicate_zero]
  | cons x a ih => rw [script_same, ih, List.length_cons, List.replicate_succ]

omit [DecidableEq α] in
theorem Aligns.eq_of_keeps {steps : List Step} (h : Aligns steps a b)
    (hkeep : ∀ step ∈ steps, step = .keep) : a = b := by
  induction h with
  | nil => rfl
  | keep _ ih => rw [ih (List.forall_mem_cons.mp hkeep).2]
  | drop _ _ => cases hkeep .drop List.mem_cons_self
  | add _ _ => cases hkeep .add List.mem_cons_self

end Script

end Lcs
