import AgenticPrd.Lib.Lcs
import Mathlib.Algebra.Group.Nat.Defs

/-!
The table of the longest common subsequences of all suffixes of two lists, filled from the end, and
the walk through it. The table is a flat array of 32 bit cells. How a cell is read is a parameter:
what holds for every way to read that is right inside of the table does not read outside of it.
-/

namespace Lcs

variable {α σ : Type} {m : Type → Type} [Monad m]

def ReadsInside (read : Array Nat → Nat → m Nat) : Prop :=
  ∀ (table : Array Nat) (k v : Nat), table[k]? = some v → read table k = pure v

-- What a walk does with the positions that it comes through.
structure Visitor (σ : Type) where
  keep : Nat → Nat → σ → σ
  drop : Nat → σ → σ
  add : Nat → σ → σ

def Visitor.run (visitor : Visitor σ) (i j : Nat) : List Step → σ → σ
  | [], state => state
  | .keep :: steps, state => visitor.run (i + 1) (j + 1) steps (visitor.keep i j state)
  | .drop :: steps, state => visitor.run (i + 1) j steps (visitor.drop i state)
  | .add :: steps, state => visitor.run i (j + 1) steps (visitor.add j state)

section Impl

variable [DecidableEq α] (read : Array Nat → Nat → m Nat) (a b : List α)

def cell (table : Array Nat) (i j : Nat) : m Nat :=
  let width := b.length + 1
  if a[i]? = b[j]? then do
    return (← read table ((i + 1) * width + (j + 1))) + 1
  else do
    return max (← read table ((i + 1) * width + j)) (← read table (i * width + (j + 1)))

-- The cells of a row in front of column `j`, the last one first.
def fillRow (i : Nat) : Nat → Array Nat → m (Array Nat)
  | 0, table => return table
  | j + 1, table => do
    let value ← cell read a b table i j
    fillRow i j (table.setIfInBounds (i * (b.length + 1) + j) (value % 2 ^ 32))

def fillRows : Nat → Array Nat → m (Array Nat)
  | 0, table => return table
  | i + 1, table => do
    let table ← fillRow read a b i b.length table
    fillRows i table

def lengths : m (Array Nat) :=
  fillRows read a b a.length (Array.replicate ((a.length + 1) * (b.length + 1)) 0)

def walk (visitor : Visitor σ) (table : Array Nat) (i j : Nat) (state : σ) : m σ :=
  let width := b.length + 1
  if hi : i < a.length then
    if hj : j < b.length then
      if a[i] = b[j] then
        walk visitor table (i + 1) (j + 1) (visitor.keep i j state)
      else do
        let below ← read table ((i + 1) * width + j)
        let right ← read table (i * width + (j + 1))
        if below ≥ right then
          walk visitor table (i + 1) j (visitor.drop i state)
        else
          walk visitor table i (j + 1) (visitor.add j state)
    else
      walk visitor table (i + 1) j (visitor.drop i state)
  else if hj : j < b.length then
    walk visitor table i (j + 1) (visitor.add j state)
  else
    return state
termination_by a.length - i + (b.length - j)

end Impl

section Index

variable {rows width i j i' j' : Nat}

theorem index_lt (hi : i ≤ rows) (hj : j < width) : i * width + j < (rows + 1) * width := by
  have hle := Nat.mul_le_mul_right width (Nat.add_le_add_right hi 1)
  rw [Nat.add_mul i, Nat.one_mul] at hle
  omega

theorem index_inj (hj : j < width) (hj' : j' < width) (h : i * width + j = i' * width + j') :
    i = i' ∧ j = j' := by
  have hlt : ∀ {i i' j : Nat} (j' : Nat), j < width → i < i' → i * width + j < i' * width + j' := by
    intro i i' j j' hj hlt
    have hle := Nat.mul_le_mul_right width (Nat.succ_le_of_lt hlt)
    rw [Nat.succ_mul] at hle
    omega
  cases Nat.lt_trichotomy i i' with
  | inl hless =>
    have := hlt j' hj hless
    omega
  | inr hrest =>
    cases hrest with
    | inl heq =>
      subst heq
      exact ⟨rfl, by omega⟩
    | inr hmore =>
      have := hlt j hj' hmore
      omega

end Index

section Fill

variable [DecidableEq α] {read : Array Nat → Nat → m Nat} {a b : List α} {table : Array Nat}
  {i j : Nat}

-- Filled in up to the cell in row `i` and column `j`, that one included.
structure Filled (a b : List α) (i j : Nat) (table : Array Nat) : Prop where
  size : table.size = (a.length + 1) * (b.length + 1)
  cells : ∀ i' j', i' ≤ a.length → j' ≤ b.length → i < i' ∨ i = i' ∧ j ≤ j' ∨ j' = b.length →
    table[i' * (b.length + 1) + j']? = some (longest (a.drop i') (b.drop j'))

theorem filled_empty (a b : List α) :
    Filled a b a.length 0 (Array.replicate ((a.length + 1) * (b.length + 1)) 0) := by
  constructor
  . rw [Array.size_replicate]
  . intro i' j' hi' hj' hplace
    rw [Array.getElem?_replicate, if_pos (index_lt hi' (by omega)), Option.some.injEq]
    by_cases hrow : i' = a.length
    . rw [hrow, List.drop_length, longest_nil_left]
    . have hcolumn : j' = b.length := by omega
      rw [hcolumn, List.drop_length, longest_nil_right]

variable [LawfulMonad m] (hread : ReadsInside read)

include hread

theorem cell_eq (h : Filled a b i (j + 1) table) (hi : i < a.length) (hj : j < b.length) :
    cell read a b table i j = pure (longest (a.drop i) (b.drop j)) := by
  have hbelow := h.cells (i + 1) j (by omega) (by omega) (by omega)
  have hright := h.cells i (j + 1) (by omega) (by omega) (by omega)
  have hnext := h.cells (i + 1) (j + 1) (by omega) (by omega) (by omega)
  have ha : a.drop i = a[i] :: a.drop (i + 1) := List.drop_eq_getElem_cons hi
  have hb : b.drop j = b[j] :: b.drop (j + 1) := List.drop_eq_getElem_cons hj
  unfold cell
  dsimp only
  split
  . next heq =>
    rw [List.getElem?_eq_getElem hi, List.getElem?_eq_getElem hj, Option.some.injEq] at heq
    rw [hread _ _ _ hnext, pure_bind, ha, hb, heq, longest_cons_same]
  . next hne =>
    rw [List.getElem?_eq_getElem hi, List.getElem?_eq_getElem hj, Option.some.injEq] at hne
    rw [hread _ _ _ hbelow, hread _ _ _ hright, pure_bind, pure_bind, ha, hb, longest_cons_ne hne]

variable (hsize : a.length < 2 ^ 32)

include hsize

theorem fillRow_spec (hi : i < a.length) (hj : j ≤ b.length) (h : Filled a b i j table) :
    ∃ table', fillRow read a b i j table = pure table' ∧ Filled a b i 0 table' := by
  induction j generalizing table with
  | zero => exact ⟨table, rfl, h⟩
  | succ j ih =>
    unfold fillRow
    rw [cell_eq hread h hi (by omega), pure_bind]
    apply ih (by omega)
    have hle := longest_le_left (a.drop i) (b.drop j)
    rw [List.length_drop] at hle
    rw [Nat.mod_eq_of_lt (by omega)]
    constructor
    . rw [Array.size_setIfInBounds, h.size]
    . intro i' j' hi' hj' hplace
      rw [Array.getElem?_setIfInBounds]
      split
      . next hindex =>
        obtain ⟨rfl, rfl⟩ := index_inj (by omega) (by omega) hindex
        rw [if_pos (by rw [h.size]; exact index_lt (by omega) (by omega))]
      . next hindex =>
        apply h.cells i' j' hi' hj'
        by_cases hcell : i = i' ∧ j = j'
        . rw [hcell.1, hcell.2] at hindex
          contradiction
        . omega

theorem fillRows_spec (hi : i ≤ a.length) (h : Filled a b i 0 table) :
    ∃ table', fillRows read a b i table = pure table' ∧ Filled a b 0 0 table' := by
  induction i generalizing table with
  | zero => exact ⟨table, rfl, h⟩
  | succ i ih =>
    have hstart : Filled a b i b.length table := by
      constructor
      . exact h.size
      . intro i' j' hi' hj' hplace
        exact h.cells i' j' hi' hj' (by omega)
    obtain ⟨table', hrow, hfilled⟩ := fillRow_spec hread hsize (by omega) (Nat.le_refl _) hstart
    unfold fillRows
    rw [hrow, pure_bind]
    exact ih (by omega) hfilled

/--
Every cell is filled with the length of a longest common subsequence of two suffixes.
-/
theorem lengths_spec : ∃ table, lengths read a b = pure table ∧ Filled a b 0 0 table :=
  fillRows_spec hread hsize (Nat.le_refl _) (filled_empty a b)

omit hsize in
/--
The walk follows the script that keeps a longest common subsequence.
-/
theorem walk_eq (visitor : Visitor σ) (h : Filled a b 0 0 table) (hi : i ≤ a.length)
    (hj : j ≤ b.length) (state : σ) :
    walk read a b visitor table i j state
      =
    pure (visitor.run i j (script (a.drop i) (b.drop j)) state) := by
  generalize hn : a.length - i + (b.length - j) = n
  induction n using Nat.strongRecOn generalizing i j state with
  | ind n ih =>
    unfold walk
    split
    . next hi' =>
      have ha : a.drop i = a[i] :: a.drop (i + 1) := List.drop_eq_getElem_cons hi'
      split
      . next hj' =>
        have hb : b.drop j = b[j] :: b.drop (j + 1) := List.drop_eq_getElem_cons hj'
        have hbelow := h.cells (i + 1) j (by omega) (by omega) (by omega)
        have hright := h.cells i (j + 1) (by omega) (by omega) (by omega)
        split
        . next heq =>
          rw [ih _ (by omega) (by omega) (by omega) _ rfl, ha, hb, heq, script_same, Visitor.run]
        . next hne =>
          dsimp only
          rw [hread _ _ _ hbelow, hread _ _ _ hright, pure_bind, pure_bind]
          split
          . next hge =>
            rw [ih _ (by omega) (by omega) (by omega) _ rfl]
            rw [ha, hb] at hge
            rw [ha, hb, script_drop hne hge, Visitor.run]
          . next hlt =>
            rw [ih _ (by omega) (by omega) (by omega) _ rfl]
            rw [ha, hb] at hlt
            rw [ha, hb, script_add hne hlt, Visitor.run]
      . next hj' =>
        rw [ih _ (by omega) (by omega) (by omega) _ rfl, ha, List.drop_of_length_le (by omega : b.length ≤ j),
          script_nil_right, Visitor.run]
    . next hi' =>
      split
      . next hj' =>
        have hb : b.drop j = b[j] :: b.drop (j + 1) := List.drop_eq_getElem_cons hj'
        rw [ih _ (by omega) (by omega) (by omega) _ rfl, hb, List.drop_of_length_le (by omega : a.length ≤ i),
          script_nil_left, Visitor.run]
      . next hj' =>
        rw [List.drop_of_length_le (by omega : a.length ≤ i),
          List.drop_of_length_le (by omega : b.length ≤ j), script, Visitor.run]

end Fill

end Lcs
