import Mathlib.Data.List.Sort
import Mathlib.Data.List.TakeDrop
import Mathlib.Data.String.Basic

/-!
The least elements of a list, as many as are asked for: what has to go where the room is short.
-/

namespace Least

variable {α : Type} [LinearOrder α] {xs : List α} {n : Nat} {a b : α}

def least (n : Nat) (xs : List α) : List α :=
  (xs.insertionSort (· ≤ ·)).take n

theorem mem_of_mem_least (h : a ∈ least n xs) : a ∈ xs :=
  (List.mem_insertionSort _).mp (List.mem_of_mem_take h)

theorem length_least (n : Nat) (xs : List α) : (least n xs).length = min n xs.length := by
  unfold least
  rw [List.length_take, List.length_insertionSort]

theorem nodup_map_least {β : Type} {f : α → β} (n : Nat) (h : (xs.map f).Nodup) :
    ((least n xs).map f).Nodup := by
  have hsorted : ((xs.insertionSort (· ≤ ·)).map f).Nodup :=
    ((List.perm_insertionSort _ xs).map f).nodup_iff.mpr h
  exact hsorted.sublist ((List.take_sublist _ _).map f)

-- What stays is not less than what goes.
theorem le_of_mem_least (ha : a ∈ least n xs) (hb : b ∈ xs) (hstays : b ∉ least n xs) : a ≤ b := by
  have hsorted := List.pairwise_insertionSort (· ≤ ·) xs
  have hmem : b ∈ xs.insertionSort (· ≤ ·) := (List.mem_insertionSort _).mpr hb
  unfold least at ha hstays
  rw [← List.take_append_drop n (xs.insertionSort (· ≤ ·))] at hsorted hmem
  have hdrop : b ∈ (xs.insertionSort (· ≤ ·)).drop n := by
    cases List.mem_append.mp hmem with
    | inl htake => contradiction
    | inr hdrop => exact hdrop
  exact (List.pairwise_append.mp hsorted).2.2 a ha b hdrop

end Least
