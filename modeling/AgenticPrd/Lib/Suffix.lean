import Mathlib.Data.List.DropRight
import Mathlib.Data.List.Sort

/-!
Suffixes of lists that are strictly increasing under a key: what a bounded buffer keeps of a log. A
suffix is then determined by the key of its first element, as a filter of the whole list.
-/

namespace Suffix

variable {α : Type} {key : α → Nat} {xs ys : List α} {x : α}

abbrev Increasing (key : α → Nat) (xs : List α) : Prop :=
  xs.Pairwise fun a b => key a < key b

theorem Increasing.of_suffix (h : Increasing key xs) (hsuffix : ys <:+ xs) : Increasing key ys :=
  List.Pairwise.sublist hsuffix.sublist h

theorem increasing_append_singleton (h : Increasing key xs) (hlt : ∀ a ∈ xs, key a < key x) :
    Increasing key (xs ++ [x]) := by
  apply List.pairwise_append.mpr
  refine ⟨h, List.pairwise_singleton _ _, ?_⟩
  intro a ha b hb
  rw [List.mem_singleton] at hb
  subst hb
  exact hlt a ha

theorem Increasing.head_le {a b : α} (h : Increasing key (a :: ys)) (hb : b ∈ a :: ys) :
    key a ≤ key b := by
  cases hb with
  | head => exact Nat.le_refl _
  | tail _ hmem =>
    have hlt := List.rel_of_pairwise_cons h hmem
    omega

theorem Increasing.suffix_eq_filter {a : α} {ys : List α} (h : Increasing key xs)
    (hsuffix : a :: ys <:+ xs) : xs.filter (fun b => key a ≤ key b) = a :: ys := by
  obtain ⟨before, rfl⟩ := hsuffix
  have hrest := (List.pairwise_append.mp h).2.1
  have hbefore := (List.pairwise_append.mp h).2.2
  rw [List.filter_append]
  have hnone : before.filter (fun b => key a ≤ key b) = [] := by
    rw [List.filter_eq_nil_iff]
    intro b hb
    have := hbefore b hb a (List.mem_cons_self ..)
    simp only [decide_eq_true_eq]
    omega
  have hall : (a :: ys).filter (fun b => key a ≤ key b) = a :: ys := by
    rw [List.filter_eq_self]
    intro b hb
    simpa using Increasing.head_le hrest hb
  rw [hnone, hall, List.nil_append]

theorem Increasing.mem_of_suffix {a b : α} (h : Increasing key xs) (hsuffix : a :: ys <:+ xs)
    (hb : b ∈ xs) (hle : key a ≤ key b) : b ∈ a :: ys := by
  rw [← h.suffix_eq_filter hsuffix, List.mem_filter]
  simp [hb, hle]

theorem Increasing.ext (hxs : Increasing key xs) (hys : Increasing key ys)
    (hmem : ∀ a, a ∈ xs ↔ a ∈ ys) : xs = ys := by
  have hnodup : ∀ {zs : List α}, Increasing key zs → zs.Nodup := by
    intro zs hzs
    apply List.Pairwise.imp _ hzs
    intro a b hab heq
    rw [heq] at hab
    omega
  apply List.Perm.eq_of_pairwise _ hxs hys
  . exact (List.perm_ext_iff_of_nodup (hnodup hxs) (hnodup hys)).mpr hmem
  . intro a b _ _ hab hba
    omega

theorem Increasing.eq_of_key {a b : α} (h : Increasing key xs) (ha : a ∈ xs) (hb : b ∈ xs)
    (heq : key a = key b) : a = b := by
  have hnodup : (xs.map key).Nodup := by
    apply List.pairwise_map.mpr
    apply List.Pairwise.imp _ h
    intro a b hab
    omega
  exact List.inj_on_of_nodup_map hnodup ha hb heq

theorem Increasing.filter (h : Increasing key xs) (p : α → Bool) : Increasing key (xs.filter p) :=
  List.Pairwise.filter p h

theorem Increasing.insertionSort_eq (h : Increasing key xs) :
    xs.insertionSort (fun a b => key a ≤ key b) = xs := by
  apply List.Pairwise.insertionSort_eq
  apply List.Pairwise.imp _ h
  intro a b hab
  omega

theorem increasing_append (hxs : Increasing key xs) (hys : Increasing key ys)
    (hlt : ∀ a ∈ xs, ∀ b ∈ ys, key a < key b) : Increasing key (xs ++ ys) :=
  List.pairwise_append.mpr ⟨hxs, hys, hlt⟩

theorem Increasing.prefix_eq_filter (h : Increasing key xs) (hgrown : ys ++ [x] <+: xs) :
    xs.filter (fun b => key b ≤ key x) = ys ++ [x] := by
  obtain ⟨after, rfl⟩ := hgrown
  have hbefore := (List.pairwise_append.mp h).1
  have hafter := (List.pairwise_append.mp h).2.2
  rw [List.filter_append]
  have hnone : after.filter (fun b => key b ≤ key x) = [] := by
    rw [List.filter_eq_nil_iff]
    intro b hb
    have := hafter x (by simp) b hb
    simp only [decide_eq_true_eq]
    omega
  have hall : (ys ++ [x]).filter (fun b => key b ≤ key x) = ys ++ [x] := by
    rw [List.filter_eq_self]
    intro b hb
    rw [List.mem_append, List.mem_singleton] at hb
    cases hb with
    | inl hmem =>
      have := (List.pairwise_append.mp hbefore).2.2 b hmem x (by simp)
      simp only [decide_eq_true_eq]
      omega
    | inr heq => simp [heq]
  rw [hnone, hall, List.append_nil]

-- Up to `x` there is what is up to `n`, what lies strictly between, and `x`.
theorem Increasing.filter_le_eq {n : Nat} (h : Increasing key xs) (hx : x ∈ xs) (hlt : n < key x) :
    xs.filter (fun b => key b ≤ key x)
      =
    xs.filter (fun b => key b ≤ n) ++ xs.filter (fun b => n < key b ∧ key b < key x) ++ [x] := by
  apply Increasing.ext (h.filter _)
  . apply increasing_append
    . apply increasing_append (h.filter _) (h.filter _)
      intro a ha b hb
      simp only [List.mem_filter, decide_eq_true_eq] at ha hb
      omega
    . exact List.pairwise_singleton _ _
    . intro a ha b hb
      rw [List.mem_singleton] at hb
      subst hb
      simp only [List.mem_append, List.mem_filter, decide_eq_true_eq] at ha
      omega
  . intro a
    simp only [List.mem_append, List.mem_filter, decide_eq_true_eq, List.mem_singleton]
    constructor
    . intro ha
      by_cases hle : key a ≤ n
      . exact .inl (.inl ⟨ha.1, hle⟩)
      . by_cases heq : key a = key x
        . right
          exact h.eq_of_key ha.1 hx heq
        . left
          right
          exact ⟨ha.1, by omega, by omega⟩
    . rintro ((ha | ha) | rfl)
      . exact ⟨ha.1, by omega⟩
      . exact ⟨ha.1, by omega⟩
      . exact ⟨hx, Nat.le_refl _⟩

theorem filter_le_append_of_lt {n : Nat} (h : ∀ b ∈ ys, n < key b) :
    (xs ++ ys).filter (fun b => key b ≤ n) = xs.filter (fun b => key b ≤ n) := by
  have hnone : ys.filter (fun b => key b ≤ n) = [] := by
    rw [List.filter_eq_nil_iff]
    intro b hb
    simpa using h b hb
  rw [List.filter_append, hnone, List.append_nil]

theorem rtake_suffix (n : Nat) (xs : List α) : xs.rtake n <:+ xs := by
  unfold List.rtake
  apply List.drop_suffix

theorem rtake_ne_nil {n : Nat} (hn : 1 ≤ n) (hxs : xs ≠ []) : xs.rtake n ≠ [] := by
  intro h
  unfold List.rtake at h
  rw [List.drop_eq_nil_iff] at h
  have := List.length_pos_iff.mpr hxs
  omega

end Suffix
