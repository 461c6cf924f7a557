import Mathlib.Data.List.Basic

/-!
What holds at every element of a list with regard to what comes before and after it, as the list
grows at its end.
-/

namespace Cut

variable {α : Type} {l : List α} {a : α}

theorem forall_cut_concat {P : List α → α → List α → Prop} {b : α} :
    (∀ before a after, l ++ [b] = before ++ a :: after → P before a after)
      ↔
    (∀ before a after, l = before ++ a :: after → P before a (after ++ [b])) ∧ P l b [] := by
  constructor
  . intro h
    constructor
    . rintro before a after rfl
      exact h before a (after ++ [b]) (by simp)
    . exact h l b [] rfl
  . rintro ⟨hcut, hlast⟩ before a after heq
    rcases List.eq_nil_or_concat' after with rfl | ⟨rest, c, rfl⟩
    . obtain ⟨rfl, rfl⟩ := List.append_singleton_inj.mp heq
      exact hlast
    . rw [← List.cons_append, ← List.append_assoc, List.append_singleton_inj] at heq
      obtain ⟨hl, rfl⟩ := heq
      exact hcut before a rest hl

-- Whatever meets `p` has something that meets `q` behind it.
def Followed (p q : α → Prop) (l : List α) : Prop :=
  ∀ before a after, l = before ++ a :: after → p a → ∃ later ∈ after, q later

variable {p q : α → Prop}

@[simp]
theorem followed_nil : Followed p q [] := by
  unfold Followed
  simp

theorem followed_concat : Followed p q (l ++ [a]) ↔ (q a ∨ Followed p q l) ∧ ¬p a := by
  unfold Followed
  rw [forall_cut_concat]
  constructor
  . rintro ⟨hcut, hlast⟩
    constructor
    . by_cases hq : q a
      . exact .inl hq
      . right
        intro before b after hl hb
        obtain ⟨later, hmem, hlater⟩ := hcut before b after hl hb
        rcases List.mem_append.mp hmem with hafter | hsame
        . exact ⟨later, hafter, hlater⟩
        . rw [List.mem_singleton.mp hsame] at hlater
          contradiction
    . intro hp
      obtain ⟨_, hnil, _⟩ := hlast hp
      contradiction
  . rintro ⟨hcut, hp⟩
    refine ⟨?_, fun hlast => absurd hlast hp⟩
    intro before b after hl hb
    rcases hcut with hq | hcut
    . exact ⟨a, by simp, hq⟩
    . obtain ⟨later, hafter, hlater⟩ := hcut before b after hl hb
      exact ⟨later, List.mem_append_left _ hafter, hlater⟩

end Cut
