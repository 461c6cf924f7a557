import AgenticPrd.Lib.Record
import Mathlib.Data.List.Induction

/-!
Elements collected under keys, in the order of their first occurrence. What is kept for a key depends
only on the elements with that key.
-/

namespace Record

variable {α β κ : Type} [DecidableEq κ] (key : α → Option κ) (create : α → β) (join : β → α → β)

def collectStep (record : List (κ × β)) (a : α) : List (κ × β) :=
  match key a with
  | none => record
  | some k =>
    match get? record k with
    | some value => set record k (join value a)
    | none => set record k (create a)

def collect (elements : List α) : List (κ × β) :=
  elements.foldl (collectStep key create join) []

-- What is kept for the elements of one key.
def gathered : List α → Option β
  | [] => none
  | a :: rest => some (rest.foldl join (create a))

variable {key create join} {record : List (κ × β)} {elements : List α} {a : α} {k : κ}

theorem gathered_concat (elements : List α) (a : α) :
    gathered create join (elements ++ [a])
      =
    some (((gathered create join elements).map fun value => join value a).getD (create a)) := by
  cases elements with
  | nil => rfl
  | cons b rest =>
    rw [List.cons_append, gathered, List.foldl_append, gathered]
    rfl

theorem gathered_eq_none_iff : gathered create join elements = none ↔ elements = [] := by
  cases elements with
  | nil => exact ⟨fun _ => rfl, fun _ => rfl⟩
  | cons a rest => exact ⟨(nomatch ·), (nomatch ·)⟩

theorem get?_collectStep (record : List (κ × β)) (a : α) (k : κ) :
    get? (collectStep key create join record a) k
      =
    if key a = some k then
      some (((get? record k).map fun value => join value a).getD (create a))
    else
      get? record k := by
  unfold collectStep
  cases hkey : key a with
  | none => rw [if_neg (by simp)]
  | some k' =>
    dsimp only
    by_cases hsame : k' = k
    . subst hsame
      rw [if_pos rfl]
      cases hvalue : get? record k' with
      | none => rw [get?_set_self]; rfl
      | some value => rw [get?_set_self]; rfl
    . have hne : k ≠ k' := Ne.symm hsame
      rw [if_neg (by simpa using hsame)]
      split
      . rw [get?_set_ne _ _ hne]
      . rw [get?_set_ne _ _ hne]

theorem get?_collect (elements : List α) (k : κ) :
    get? (collect key create join elements) k
      =
    gathered create join (elements.filter fun a => key a = some k) := by
  induction elements using List.reverseRecOn with
  | nil => rfl
  | append_singleton elements a ih =>
    unfold collect at ih ⊢
    rw [List.foldl_append, List.foldl_cons, List.foldl_nil, get?_collectStep, ih, List.filter_append,
      List.filter_singleton]
    split
    . next hkey =>
      rw [decide_eq_true hkey, cond_true, gathered_concat]
    . next hkey =>
      rw [decide_eq_false hkey, cond_false, List.append_nil]

theorem nodup_keys_collect (elements : List α) :
    (keys (collect key create join elements)).Nodup := by
  induction elements using List.reverseRecOn with
  | nil => exact List.nodup_nil
  | append_singleton elements a ih =>
    unfold collect at ih ⊢
    rw [List.foldl_append, List.foldl_cons, List.foldl_nil, collectStep]
    split
    . exact ih
    . split
      . exact nodup_keys_set ih
      . exact nodup_keys_set ih

theorem mem_keys_collect (elements : List α) (k : κ) :
    k ∈ keys (collect key create join elements) ↔ ∃ a ∈ elements, key a = some k := by
  rw [← not_iff_not, ← get?_eq_none_iff, get?_collect, gathered_eq_none_iff, List.filter_eq_nil_iff]
  simp

-- What is kept under a key was made of the elements with that key.
theorem gathered_of_mem {value : β} (h : (k, value) ∈ collect key create join elements) :
    gathered create join (elements.filter fun a => key a = some k) = some value := by
  rw [← get?_collect]
  exact get?_of_mem (nodup_keys_collect elements) h

end Record
