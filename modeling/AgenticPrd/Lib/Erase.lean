import Mathlib.Data.List.Basic
import Mathlib.Tactic.Common

/-!
Erasing every match of a pattern from a text, from left to right and in one pass. The pattern is
given by what it leaves of a text that starts with a match. `Scan` is the pass, up to a point where
a match may start.
-/

namespace Erase

variable {α : Type}

/--
`Scan after? text rest out`: the pass over `text` comes to `rest`, and `out` is what it has kept.
-/
inductive Scan (after? : List α → Option (List α)) : List α → List α → List α → Prop where
  | here {text : List α} : Scan after? text text []
  | skip {text text' rest out : List α} (hmatch : after? text = some text')
    (hscan : Scan after? text' rest out) : Scan after? text rest out
  | keep {a : α} {text rest out : List α} (hnone : after? (a :: text) = none)
    (hscan : Scan after? text rest out) : Scan after? (a :: text) rest (a :: out)

-- A match is not empty, and what is left follows it.
def Consumes (after? : List α → Option (List α)) : Prop :=
  ∀ text text', after? text = some text' → ∃ m, m ≠ [] ∧ text = m ++ text'

-- A text that the pattern matches at its start, and leaves `text` of.
def Matches (after? : List α → Option (List α)) (m text : List α) : Prop :=
  after? (m ++ text) = some text

-- Nothing but matches, one after the other.
inductive Run (after? : List α → Option (List α)) : List (List α) → List α → Prop where
  | nil {text : List α} : Run after? [] text
  | cons {m : List α} {ms : List (List α)} {text : List α}
    (hmatch : Matches after? m (ms.flatten ++ text)) (hrun : Run after? ms text) :
    Run after? (m :: ms) text

variable {after? : List α → Option (List α)} {text rest rest' out out' : List α} {a : α}

theorem Scan.trans (h : Scan after? text rest out) (h' : Scan after? rest rest' out') :
    Scan after? text rest' (out ++ out') := by
  induction h with
  | here => exact h'
  | skip hmatch _ ih => exact .skip hmatch (ih h')
  | keep hnone _ ih => exact .keep hnone (ih h')

-- Of two passes over one text, the one that has come farther goes on from the other.
theorem Scan.connect (h : Scan after? text rest out) (h' : Scan after? text rest' out') :
    (∃ more, Scan after? rest rest' more ∧ out' = out ++ more)
      ∨
    ∃ more, Scan after? rest' rest more ∧ out = out' ++ more := by
  induction h generalizing out' with
  | here => exact .inl ⟨out', h', rfl⟩
  | @skip text text' rest out hmatch hscan ih =>
    cases h' with
    | here => exact .inr ⟨out, .skip hmatch hscan, rfl⟩
    | skip hmatch' hscan' =>
      rw [hmatch, Option.some.injEq] at hmatch'
      subst hmatch'
      exact ih hscan'
    | keep hnone' _ =>
      rw [hmatch] at hnone'
      contradiction
  | @keep a text rest out hnone hscan ih =>
    cases h' with
    | here => exact .inr ⟨a :: out, .keep hnone hscan, rfl⟩
    | skip hmatch' _ =>
      rw [hnone] at hmatch'
      contradiction
    | keep _ hscan' =>
      cases ih hscan' with
      | inl hleft =>
        obtain ⟨more, hmore, rfl⟩ := hleft
        exact .inl ⟨more, hmore, rfl⟩
      | inr hright =>
        obtain ⟨more, hmore, rfl⟩ := hright
        exact .inr ⟨more, hmore, rfl⟩

-- A pass stands at the start of each element that it keeps.
theorem Scan.split {kept kept' : List α} (h : Scan after? text rest (kept ++ a :: kept')) :
    ∃ text',
      Scan after? text (a :: text') kept
        ∧
      after? (a :: text') = none
        ∧
      Scan after? text' rest kept' := by
  generalize hout : kept ++ a :: kept' = out at h
  induction h generalizing kept with
  | here =>
    rw [List.append_eq_nil_iff] at hout
    exact absurd hout.2 (List.cons_ne_nil _ _)
  | skip hmatch _ ih =>
    obtain ⟨text', hkept, hnone, hrest⟩ := ih hout
    exact ⟨text', .skip hmatch hkept, hnone, hrest⟩
  | @keep b text rest out hnone hscan ih =>
    cases kept with
    | nil =>
      rw [List.nil_append, List.cons.injEq] at hout
      obtain ⟨rfl, rfl⟩ := hout
      exact ⟨text, .here, hnone, hscan⟩
    | cons c kept =>
      rw [List.cons_append, List.cons.injEq] at hout
      obtain ⟨rfl, hout⟩ := hout
      obtain ⟨text', hkept, hnone', hrest⟩ := ih hout
      exact ⟨text', .keep hnone hkept, hnone', hrest⟩

-- Where no match starts, everything is kept.
theorem Scan.keep_all {kept : List α}
    (hnone : ∀ front a back, kept = front ++ a :: back → after? (a :: (back ++ rest)) = none) :
    Scan after? (kept ++ rest) rest kept := by
  induction kept with
  | nil => exact .here
  | cons a kept ih =>
    apply Scan.keep (hnone [] a kept rfl)
    apply ih
    intro front b back hkept
    apply hnone (a :: front)
    rw [hkept, List.cons_append]

section Consuming

variable (hconsumes : Consumes after?)

include hconsumes

theorem Scan.suffix (h : Scan after? text rest out) : rest <:+ text := by
  induction h with
  | here => exact List.suffix_rfl
  | skip hmatch _ ih =>
    obtain ⟨m, _, rfl⟩ := hconsumes _ _ hmatch
    exact ih.trans (List.suffix_append _ _)
  | keep _ _ ih => exact ih.trans (List.suffix_cons _ _)

theorem Scan.eq_here (h : Scan after? text text out) : out = [] := by
  generalize hrest : text = rest at h
  cases h with
  | here => rfl
  | skip hmatch hscan =>
    exfalso
    obtain ⟨m, hne, heq⟩ := hconsumes _ _ hmatch
    have hlength := (hscan.suffix hconsumes).length_le
    have hpos := List.length_pos_of_ne_nil hne
    rw [heq, List.length_append] at hlength
    omega
  | keep _ hscan =>
    exfalso
    have hlength := (hscan.suffix hconsumes).length_le
    rw [List.length_cons] at hlength
    omega

theorem Scan.deterministic (h : Scan after? text rest out) (h' : Scan after? text rest out') :
    out = out' := by
  cases h.connect h' with
  | inl hleft =>
    obtain ⟨more, hmore, rfl⟩ := hleft
    rw [hmore.eq_here hconsumes, List.append_nil]
  | inr hright =>
    obtain ⟨more, hmore, rfl⟩ := hright
    rw [hmore.eq_here hconsumes, List.append_nil]

theorem Scan.total (text : List α) : ∃ out, Scan after? text [] out := by
  generalize hlength : text.length = n
  induction n using Nat.strongRecOn generalizing text with
  | ind n ih =>
    cases text with
    | nil => exact ⟨[], .here⟩
    | cons a text =>
      cases hafter : after? (a :: text) with
      | some text' =>
        obtain ⟨m, hne, heq⟩ := hconsumes _ _ hafter
        have hpos := List.length_pos_of_ne_nil hne
        rw [heq, List.length_append] at hlength
        obtain ⟨out, hout⟩ := ih text'.length (by omega) text' rfl
        exact ⟨out, .skip hafter hout⟩
      | none =>
        rw [List.length_cons] at hlength
        obtain ⟨out, hout⟩ := ih text.length (by omega) text rfl
        exact ⟨a :: out, .keep hafter hout⟩

/--
What a pass has kept last is followed by nothing but matches, up to where the pass has come to.
-/
theorem Scan.last (h : Scan after? text rest out) :
    (out = [] ∧ ∃ ms, text = ms.flatten ++ rest ∧ Run after? ms rest)
      ∨
    ∃ before a ms out',
      text = before ++ a :: (ms.flatten ++ rest)
        ∧
      out = out' ++ [a]
        ∧
      Scan after? text (a :: (ms.flatten ++ rest)) out'
        ∧
      after? (a :: (ms.flatten ++ rest)) = none
        ∧
      Run after? ms rest := by
  induction h with
  | here => exact .inl ⟨rfl, [], rfl, .nil⟩
  | @skip text text' rest out hmatch hscan ih =>
    obtain ⟨m, _, heq⟩ := hconsumes _ _ hmatch
    cases ih with
    | inl hnone =>
      obtain ⟨hout, ms, rfl, hrun⟩ := hnone
      left
      refine ⟨hout, m :: ms, ?_, .cons ?_ hrun⟩
      . rw [heq, List.flatten_cons, List.append_assoc]
      . unfold Matches
        rw [← heq]
        exact hmatch
    | inr hsome =>
      obtain ⟨before, a, ms, out', htext, hout, hkept, hnone, hrun⟩ := hsome
      right
      refine ⟨m ++ before, a, ms, out', ?_, hout, .skip hmatch hkept, hnone, hrun⟩
      rw [heq, htext, List.append_assoc]
  | @keep a text rest out hnone hscan ih =>
    right
    cases ih with
    | inl hempty =>
      obtain ⟨hout, ms, rfl, hrun⟩ := hempty
      subst hout
      exact ⟨[], a, ms, [], rfl, rfl, .here, hnone, hrun⟩
    | inr hsome =>
      obtain ⟨before, b, ms, out', htext, hout, hkept, hnone', hrun⟩ := hsome
      subst hout
      refine ⟨a :: before, b, ms, a :: out', ?_, rfl, .keep hnone hkept, hnone', hrun⟩
      rw [htext, List.cons_append]

/--
The pass comes to every place of the text, except for the ones inside of a match that it erases.
-/
theorem Scan.reach_or_cross (before rest : List α) :
    (∃ out, Scan after? (before ++ rest) rest out)
      ∨
    ∃ front m m' rest' out,
      before = front ++ m
        ∧
      m ≠ []
        ∧
      rest = m' ++ rest'
        ∧
      m' ≠ []
        ∧
      Matches after? (m ++ m') rest'
        ∧
      Scan after? (before ++ rest) (m ++ rest) out := by
  generalize hlength : before.length = n
  induction n using Nat.strongRecOn generalizing before with
  | ind n ih =>
    cases before with
    | nil => exact .inl ⟨[], .here⟩
    | cons a before =>
      rw [List.length_cons] at hlength
      cases hafter : after? (a :: before ++ rest) with
      | none =>
        cases ih before.length (by omega) before rfl with
        | inl hreach =>
          obtain ⟨out, hout⟩ := hreach
          exact .inl ⟨a :: out, .keep hafter hout⟩
        | inr hcross =>
          obtain ⟨front, m, m', rest', out, rfl, hm, hrest, hm', hmatch, hout⟩ := hcross
          exact .inr ⟨a :: front, m, m', rest', a :: out, rfl, hm, hrest, hm', hmatch, .keep hafter hout⟩
      | some text' =>
        obtain ⟨whole, hne, heq⟩ := hconsumes _ _ hafter
        cases List.append_eq_append_iff.mp heq with
        | inl hlonger =>
          obtain ⟨m', rfl, hrest⟩ := hlonger
          cases m' with
          | nil =>
            rw [List.nil_append] at hrest
            subst hrest
            exact .inl ⟨[], .skip hafter .here⟩
          | cons b m' =>
            right
            refine ⟨[], a :: before, b :: m', text', [], rfl, List.cons_ne_nil _ _, hrest,
              List.cons_ne_nil _ _, ?_, .here⟩
            unfold Matches
            rw [← heq]
            exact hafter
        | inr hshorter =>
          obtain ⟨y, hbefore, rfl⟩ := hshorter
          have hpos := List.length_pos_of_ne_nil hne
          have hlength' := congrArg List.length hbefore
          rw [List.length_cons, List.length_append] at hlength'
          cases ih y.length (by omega) y rfl with
          | inl hreach =>
            obtain ⟨out, hout⟩ := hreach
            exact .inl ⟨out, .skip hafter hout⟩
          | inr hcross =>
            obtain ⟨front, m, m', rest', out, rfl, hm, hrest, hm', hmatch, hout⟩ := hcross
            right
            refine ⟨whole ++ front, m, m', rest', out, ?_, hm, hrest, hm', hmatch, .skip hafter hout⟩
            rw [hbefore, List.append_assoc]

end Consuming

end Erase
