import Mathlib.Data.List.Basic
import Mathlib.Tactic.Common

/-!
Finite records in insertion order, as Python dictionaries and JavaScript objects keep them.
-/

namespace Record

variable {κ α : Type} [DecidableEq κ]

def get? (record : List (κ × α)) (key : κ) : Option α :=
  record.lookup key

-- Assigning to a key that is present keeps its place.
def set : List (κ × α) → κ → α → List (κ × α)
  | [], key, value => [(key, value)]
  | (k, v) :: record, key, value =>
    if k = key then
      (k, value) :: record
    else
      (k, v) :: set record key value

def update (record other : List (κ × α)) : List (κ × α) :=
  other.foldl (fun record entry => set record entry.1 entry.2) record

@[simp]
theorem get?_nil (key : κ) : get? ([] : List (κ × α)) key = none :=
  rfl

theorem get?_cons (k key : κ) (v : α) (record : List (κ × α)) :
    get? ((k, v) :: record) key = if key = k then some v else get? record key := by
  unfold get?
  rw [List.lookup_cons]
  by_cases h : key = k
  . simp [h]
  . have hne : (key == k) = false := by simpa using h
    simp [h, hne]

@[simp]
theorem get?_set_self (record : List (κ × α)) (key : κ) (value : α) :
    get? (set record key value) key = some value := by
  induction record with
  | nil => simp [set, get?_cons]
  | cons entry record ih =>
    unfold set
    split
    . next h => simp [get?_cons, h]
    . next h =>
      rw [get?_cons, ih]
      split <;> simp_all

theorem set_set (record : List (κ × α)) (key : κ) (value value' : α) :
    set (set record key value) key value' = set record key value' := by
  induction record with
  | nil => simp [set]
  | cons entry record ih =>
    obtain ⟨k, v⟩ := entry
    by_cases h : k = key
    . simp [set, h]
    . simp [set, h, ih]

@[simp]
theorem get?_set_ne (record : List (κ × α)) {k key : κ} (value : α) (h : key ≠ k) :
    get? (set record k value) key = get? record key := by
  induction record with
  | nil => simp [set, get?_cons, h]
  | cons entry record ih =>
    unfold set
    split
    . next heq =>
      rw [get?_cons, get?_cons]
      simp [heq, h]
    . rw [get?_cons, get?_cons, ih]

theorem update_concat (record other : List (κ × α)) (key : κ) (value : α) :
    update record (other ++ [(key, value)]) = set (update record other) key value := by
  unfold update
  rw [List.foldl_append]
  rfl

theorem get?_set (record : List (κ × α)) (k key : κ) (value : α) :
    get? (set record k value) key = if key = k then some value else get? record key := by
  split
  . next h => rw [h, get?_set_self]
  . next h => rw [get?_set_ne _ _ h]

-- What an update leaves under a key was there before, or comes from one of its entries.
theorem get?_update {record other : List (κ × α)} {key : κ} {value : α}
    (h : get? (update record other) key = some value) :
    get? record key = some value ∨ (key, value) ∈ other := by
  induction other generalizing record with
  | nil => exact .inl h
  | cons entry other ih =>
    cases ih h with
    | inr hmem => exact .inr (List.mem_cons_of_mem _ hmem)
    | inl hset =>
      by_cases hkey : key = entry.1
      . rw [hkey, get?_set_self, Option.some.injEq] at hset
        right
        rw [hkey, ← hset]
        exact List.mem_cons_self
      . rw [get?_set_ne _ _ hkey] at hset
        exact .inl hset

-- Keys that are not there yet go to the end.
theorem set_of_new {record : List (κ × α)} {key : κ} (value : α) (h : key ∉ record.map Prod.fst) :
    set record key value = record ++ [(key, value)] := by
  induction record with
  | nil => rfl
  | cons entry record ih =>
    rw [List.map_cons, List.mem_cons, not_or] at h
    unfold set
    rw [if_neg (Ne.symm h.1), ih h.2]
    rfl

theorem set_ne_nil {record : List (κ × α)} {key : κ} {value : α} : set record key value ≠ [] := by
  cases record with
  | nil => simp [set]
  | cons entry record =>
    unfold set
    split <;> simp

theorem update_of_nodup {record other : List (κ × α)}
    (h : ((record ++ other).map Prod.fst).Nodup) : update record other = record ++ other := by
  induction other generalizing record with
  | nil => exact (List.append_nil record).symm
  | cons entry other ih =>
    have hnew : entry.1 ∉ record.map Prod.fst := by
      rw [List.map_append, List.nodup_append] at h
      intro hmem
      exact h.2.2 _ hmem entry.1 (List.mem_cons_self) rfl
    have hsplit : record ++ entry :: other = (record ++ [entry]) ++ other := by simp
    rw [hsplit] at h ⊢
    rw [← ih h, ← set_of_new entry.2 hnew]
    rfl

section Keys

variable {record : List (κ × α)} {key k : κ} {value : α}

def keys (record : List (κ × α)) : List κ :=
  record.map Prod.fst

def erase (record : List (κ × α)) (key : κ) : List (κ × α) :=
  record.filter fun entry => entry.1 ≠ key

def eraseAll (record : List (κ × α)) (keys : List κ) : List (κ × α) :=
  keys.foldl erase record

theorem eraseAll_eq (record : List (κ × α)) (gone : List κ) :
    eraseAll record gone = record.filter fun entry => entry.1 ∉ gone := by
  induction gone generalizing record with
  | nil => exact (List.filter_eq_self.mpr (by simp)).symm
  | cons key gone ih =>
    have hstep : eraseAll record (key :: gone) = eraseAll (erase record key) gone := rfl
    rw [hstep, ih]
    unfold erase
    rw [List.filter_filter]
    apply List.filter_congr
    intro entry _
    simp [Bool.and_comm]

theorem keys_eraseAll (record : List (κ × α)) (gone : List κ) :
    keys (eraseAll record gone) = (keys record).filter (· ∉ gone) := by
  unfold keys
  rw [eraseAll_eq, List.filter_map]
  rfl

theorem mem_of_mem_eraseAll {gone : List κ} {entry : κ × α} (h : entry ∈ eraseAll record gone) :
    entry ∈ record := by
  rw [eraseAll_eq] at h
  exact (List.mem_filter.mp h).1

theorem length_eraseAll {gone : List κ} (hkeys : (keys record).Nodup) (hgone : gone.Nodup)
    (hsubset : ∀ key ∈ gone, key ∈ keys record) :
    (eraseAll record gone).length + gone.length = record.length := by
  have hperm : ((keys record).filter (· ∈ gone)).Perm gone := by
    rw [List.perm_ext_iff_of_nodup (hkeys.filter _) hgone]
    intro key
    rw [List.mem_filter, decide_eq_true_eq]
    exact ⟨And.right, fun h => ⟨hsubset key h, h⟩⟩
  have hsplit := List.length_eq_length_filter_add (l := keys record) fun key => decide (key ∈ gone)
  have hstays : (keys record).filter (fun key => !decide (key ∈ gone))
      = keys (eraseAll record gone) := by
    rw [keys_eraseAll]
    simp
  rw [hperm.length_eq, hstays] at hsplit
  unfold keys at hsplit
  rw [List.length_map, List.length_map] at hsplit
  omega

theorem keys_set_of_mem (value : α) (h : key ∈ keys record) :
    keys (set record key value) = keys record := by
  induction record with
  | nil => contradiction
  | cons entry record ih =>
    unfold set
    split
    . next heq => simp [keys, heq]
    . next hne =>
      have hmem : key ∈ keys record := by
        cases List.mem_cons.mp h with
        | inl heq => exact absurd heq.symm hne
        | inr hmem => exact hmem
      have hkeys := ih hmem
      unfold keys at hkeys ⊢
      rw [List.map_cons, List.map_cons, hkeys]

theorem keys_set_of_new (value : α) (h : key ∉ keys record) :
    keys (set record key value) = keys record ++ [key] := by
  rw [set_of_new value h]
  simp [keys]

-- What has been added is taken back.
theorem eraseAll_set_of_new (value : α) (h : key ∉ keys record) :
    eraseAll (set record key value) [key] = record := by
  rw [set_of_new value h, eraseAll_eq, List.filter_append]
  have hstays : record.filter (fun entry => entry.1 ∉ [key]) = record := by
    rw [List.filter_eq_self]
    intro entry hentry
    have hne : entry.1 ≠ key := by
      rintro rfl
      exact h (List.mem_map_of_mem hentry)
    simpa using hne
  rw [hstays]
  simp

theorem mem_set {entry : κ × α} (h : entry ∈ set record key value) :
    entry ∈ record ∨ entry = (key, value) := by
  induction record with
  | nil => exact .inr (List.mem_singleton.mp h)
  | cons first record ih =>
    unfold set at h
    split at h
    . next heq =>
      cases List.mem_cons.mp h with
      | inl hfirst =>
        right
        rw [hfirst, heq]
      | inr hrest => exact .inl (List.mem_cons_of_mem _ hrest)
    . cases List.mem_cons.mp h with
      | inl hfirst =>
        left
        rw [hfirst]
        exact List.mem_cons_self
      | inr hrest =>
        cases ih hrest with
        | inl hold => exact .inl (List.mem_cons_of_mem _ hold)
        | inr hnew => exact .inr hnew

theorem mem_keys_set : k ∈ keys (set record key value) ↔ k ∈ keys record ∨ k = key := by
  by_cases h : key ∈ keys record
  . rw [keys_set_of_mem value h]
    constructor
    . exact .inl
    . rintro (hmem | rfl)
      . exact hmem
      . exact h
  . rw [keys_set_of_new value h, List.mem_append, List.mem_singleton]

theorem nodup_keys_set (h : (keys record).Nodup) : (keys (set record key value)).Nodup := by
  by_cases hmem : key ∈ keys record
  . rw [keys_set_of_mem value hmem]
    exact h
  . rw [keys_set_of_new value hmem, List.nodup_append]
    refine ⟨h, by simp, ?_⟩
    intro a ha b hb
    rw [List.mem_singleton.mp hb]
    rintro rfl
    contradiction

theorem mem_keys_update {other : List (κ × α)} :
    k ∈ keys (update record other) ↔ k ∈ keys record ∨ k ∈ keys other := by
  induction other generalizing record with
  | nil => simp [update, keys]
  | cons entry other ih =>
    have hstep : update record (entry :: other) = update (set record entry.1 entry.2) other := rfl
    rw [hstep, ih, mem_keys_set, or_assoc]
    simp [keys]

theorem update_nil_eq_nil {other : List (κ × α)} : update [] other = [] ↔ other = [] := by
  constructor
  . intro h
    cases other with
    | nil => rfl
    | cons entry other =>
      have hmem : entry.1 ∈ keys (update [] (entry :: other)) := by
        rw [mem_keys_update]
        exact .inr List.mem_cons_self
      rw [h] at hmem
      contradiction
  . rintro rfl
    rfl

theorem nodup_keys_update {other : List (κ × α)} (h : (keys record).Nodup) :
    (keys (update record other)).Nodup := by
  induction other generalizing record with
  | nil => exact h
  | cons entry other ih => exact ih (nodup_keys_set h)

theorem mem_update {entry : κ × α} {other : List (κ × α)} (h : entry ∈ update record other) :
    entry ∈ record ∨ entry ∈ other := by
  induction other generalizing record with
  | nil => exact .inl h
  | cons first other ih =>
    rcases ih h with hset | hmem
    . rcases mem_set hset with hold | rfl
      . exact .inl hold
      . exact .inr List.mem_cons_self
    . exact .inr (List.mem_cons_of_mem _ hmem)

theorem length_set_of_mem (value : α) (h : key ∈ keys record) :
    (set record key value).length = record.length := by
  have hkeys := congrArg List.length (keys_set_of_mem value h)
  unfold keys at hkeys
  rwa [List.length_map, List.length_map] at hkeys

-- An entry that is replaced counts only if the one before did.
theorem countP_set_le {p : κ × α → Bool} {old : α} (hget : get? record key = some old)
    (hp : p (key, value) = true → p (key, old) = true) :
    (set record key value).countP p ≤ record.countP p := by
  induction record with
  | nil => contradiction
  | cons entry record ih =>
    rw [get?_cons] at hget
    unfold set
    split
    . next heq =>
      rw [if_pos heq.symm, Option.some.injEq] at hget
      have hentry : entry = (key, old) := by rw [← heq, ← hget]
      rw [List.countP_cons, List.countP_cons, hentry]
      dsimp only
      split
      . next hnew => exact Nat.add_le_add_left (Nat.le_of_eq (if_pos (hp hnew)).symm) _
      . omega
    . next hne =>
      rw [if_neg (Ne.symm hne)] at hget
      have hle := ih hget
      rw [List.countP_cons, List.countP_cons]
      exact Nat.add_le_add_right hle _

theorem mem_of_get? (h : get? record key = some value) : (key, value) ∈ record := by
  induction record with
  | nil => contradiction
  | cons entry record ih =>
    rw [get?_cons] at h
    split at h
    . next heq =>
      rw [Option.some.injEq] at h
      rw [heq, ← h]
      exact List.mem_cons_self
    . exact List.mem_cons_of_mem _ (ih h)

omit [DecidableEq κ] in
theorem mem_keys (h : (key, value) ∈ record) : key ∈ keys record :=
  List.mem_map_of_mem h

theorem get?_of_mem (hnodup : (keys record).Nodup) (h : (key, value) ∈ record) :
    get? record key = some value := by
  induction record with
  | nil => contradiction
  | cons entry record ih =>
    obtain ⟨hnew, hrest⟩ := List.nodup_cons.mp hnodup
    rw [get?_cons]
    cases List.mem_cons.mp h with
    | inl hhead => simp [← hhead]
    | inr hmem =>
      have hne : key ≠ entry.1 := by
        rintro rfl
        exact hnew (mem_keys hmem)
      rw [if_neg hne]
      exact ih hrest hmem

theorem get?_of_eraseAll {gone : List κ} (hnodup : (keys record).Nodup)
    (h : get? (eraseAll record gone) key = some value) : get? record key = some value := by
  apply get?_of_mem hnodup
  exact mem_of_mem_eraseAll (mem_of_get? h)

theorem get?_eq_none_iff : get? record key = none ↔ key ∉ keys record := by
  induction record with
  | nil => simp [keys]
  | cons entry record ih =>
    rw [get?_cons]
    have hkeys : keys (entry :: record) = entry.1 :: keys record := rfl
    rw [hkeys, List.mem_cons, not_or, ← ih]
    split
    . next heq => simp [heq]
    . next hne => simp [hne]

theorem get?_eraseAll (record : List (κ × α)) (gone : List κ) (key : κ) :
    get? (eraseAll record gone) key = if key ∈ gone then none else get? record key := by
  rw [eraseAll_eq]
  induction record with
  | nil => simp
  | cons entry record ih =>
    rw [List.filter_cons, get?_cons]
    split
    . next hstays =>
      rw [decide_eq_true_eq] at hstays
      rw [get?_cons, ih]
      by_cases heq : key = entry.1
      . rw [if_pos heq, if_pos heq, heq, if_neg hstays]
      . rw [if_neg heq, if_neg heq]
    . next hgone =>
      rw [decide_eq_true_eq, not_not] at hgone
      rw [ih]
      by_cases heq : key = entry.1
      . rw [heq, if_pos hgone, if_pos hgone]
      . rw [if_neg heq]

end Keys

end Record
