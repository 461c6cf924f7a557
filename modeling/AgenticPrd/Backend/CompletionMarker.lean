import AgenticPrd.Backend.PrdDocument
import AgenticPrd.Lib.Erase

/-!
The completion markers of a text, and what is left of it without them.
-/

namespace AgenticPrd

namespace PrdDocument

open Erase

variable {text text' rest m k k' blanks before after : List Char} {c : Char}

section Shape

-- A marker without the blanks around it.
def IsMarker (k : List Char) : Prop :=
  ∃ s s',
    (∀ c ∈ s, isSpace c = true)
      ∧
    (∀ c ∈ s', isSpace c = true)
      ∧
    k = "<!--".toList ++ (s ++ ("PRD_COMPLETE".toList ++ (s' ++ "-->".toList)))

def AllBlank (blanks : List Char) : Prop :=
  ∀ c ∈ blanks, isBlank c = true

-- What `[ \t]*\n?` leaves.
def afterBlanks (text : List Char) : List Char :=
  match text.dropWhile isBlank with
  | '\n' :: rest => rest
  | rest => rest

theorem isBlank_iff : isBlank c = true ↔ c = ' ' ∨ c = '\t' := by
  simp [isBlank]

theorem isSpace_of_isBlank (h : isBlank c = true) : isSpace c = true := by
  cases isBlank_iff.mp h with
  | inl heq =>
    rw [heq]
    decide
  | inr heq =>
    rw [heq]
    decide

theorem dropPrefix?_eq_some {pattern : List Char} :
    dropPrefix? pattern text = some rest ↔ text = pattern ++ rest := by
  induction pattern generalizing text with
  | nil =>
    unfold dropPrefix?
    rw [Option.some.injEq]
    rfl
  | cons p pattern ih =>
    cases text with
    | nil => simp [dropPrefix?]
    | cons c text =>
      unfold dropPrefix?
      split
      . next heq => rw [ih, heq, List.cons_append, List.cons.injEq, and_iff_right rfl]
      . next hne => simp [Ne.symm hne]

theorem dropWhile_append_of_stop {p : Char → Bool} (h : ∀ c ∈ before, p c = true)
    (hstop : ∀ c ∈ after.head?, p c = false) : (before ++ after).dropWhile p = after := by
  rw [List.dropWhile_append_of_pos h]
  cases after with
  | nil => rfl
  | cons c after => rw [List.dropWhile_cons_of_neg (by simp [hstop c rfl])]

theorem dropWhile_split (p : Char → Bool) (text : List Char) :
    ∃ before, (∀ c ∈ before, p c = true) ∧ text = before ++ text.dropWhile p :=
  ⟨text.takeWhile p, fun _ h => List.mem_takeWhile_imp h, (List.takeWhile_append_dropWhile).symm⟩

theorem IsMarker.head (h : IsMarker k) : ∃ tail, k = '<' :: tail ∧ '<' ∉ tail := by
  obtain ⟨s, s', hs, hs', rfl⟩ := h
  refine ⟨"!--".toList ++ (s ++ ("PRD_COMPLETE".toList ++ (s' ++ "-->".toList))), rfl, ?_⟩
  have hnot : ∀ spaces : List Char, (∀ c ∈ spaces, isSpace c = true) → '<' ∉ spaces := by
    intro spaces hspaces hmem
    have := hspaces _ hmem
    contradiction
  simp [hnot s hs, hnot s' hs']

theorem IsMarker.last (h : IsMarker k) : ∃ front, k = front ++ ['>'] ∧ '>' ∉ front := by
  obtain ⟨s, s', hs, hs', rfl⟩ := h
  refine ⟨"<!--".toList ++ (s ++ ("PRD_COMPLETE".toList ++ (s' ++ "--".toList))), by simp, ?_⟩
  have hnot : ∀ spaces : List Char, (∀ c ∈ spaces, isSpace c = true) → '>' ∉ spaces := by
    intro spaces hspaces hmem
    have := hspaces _ hmem
    contradiction
  simp [hnot s hs, hnot s' hs']

end Shape

section Match

-- A character that splits a text at its first occurrence, and wherever it splits it.
theorem split_first {front front' : List Char} (hfirst : c ∉ front)
    (h : front ++ c :: text = front' ++ c :: text') :
    front' = front ∧ text' = text
      ∨
    ∃ middle, front' = front ++ c :: middle ∧ text = middle ++ c :: text' := by
  induction front generalizing front' with
  | nil =>
    cases front' with
    | nil => exact .inl ⟨rfl, (List.cons.inj h).2.symm⟩
    | cons d front' =>
      obtain ⟨rfl, htext⟩ := List.cons.inj h
      exact .inr ⟨front', rfl, htext⟩
  | cons d front ih =>
    cases front' with
    | nil =>
      obtain ⟨rfl, _⟩ := List.cons.inj h
      exact absurd List.mem_cons_self hfirst
    | cons e front' =>
      obtain ⟨rfl, htext⟩ := List.cons.inj h
      cases ih (fun hmem => hfirst (List.mem_cons_of_mem _ hmem)) htext with
      | inl hsame =>
        rw [hsame.1]
        exact .inl ⟨rfl, hsame.2⟩
      | inr hlater =>
        obtain ⟨middle, rfl, hmiddle⟩ := hlater
        exact .inr ⟨middle, rfl, hmiddle⟩

-- What lies in front of a character that it does not hold.
theorem split_behind {front front' : List Char} (hfront : c ∉ front)
    (h : front ++ text = front' ++ c :: text') :
    ∃ middle, front' = front ++ middle ∧ text = middle ++ c :: text' := by
  cases List.append_eq_append_iff.mp h with
  | inl hlonger =>
    obtain ⟨middle, hfront', htext⟩ := hlonger
    exact ⟨middle, hfront', htext⟩
  | inr hshorter =>
    obtain ⟨middle, rfl, htext⟩ := hshorter
    cases middle with
    | nil => exact ⟨[], by simp, htext.symm⟩
    | cons d middle =>
      obtain ⟨rfl, _⟩ := List.cons.inj htext
      exact absurd (by simp) hfront

-- A text starts with at most one marker.
theorem IsMarker.unique (hk : IsMarker k) (hk' : IsMarker k') (h : k ++ text = k' ++ text') :
    k' = k ∧ text' = text := by
  obtain ⟨front, rfl, hfront⟩ := hk.last
  obtain ⟨front', rfl, hfront'⟩ := hk'.last
  rw [List.append_assoc, List.append_assoc] at h
  cases split_first hfront h with
  | inl hsame => exact ⟨by rw [hsame.1], hsame.2⟩
  | inr hlater =>
    obtain ⟨middle, rfl, _⟩ := hlater
    exact absurd (by simp) hfront'

-- The last step of a marker.
theorem pure_afterBlanks (text : List Char) :
    (match text.dropWhile isBlank with
      | '\n' :: rest => pure rest
      | rest => pure rest : Option (List Char))
      =
    some (afterBlanks text) := by
  unfold afterBlanks
  generalize text.dropWhile isBlank = text
  cases text with
  | nil => rfl
  | cons c text =>
    by_cases hc : c = '\n'
    . rw [hc]
      rfl
    . simp [hc]

theorem afterMarker?_eq (hblanks : AllBlank blanks) (h : IsMarker k) (text : List Char) :
    afterMarker? (blanks ++ (k ++ text)) = some (afterBlanks text) := by
  obtain ⟨s, s', hs, hs', rfl⟩ := h
  unfold afterMarker?
  rw [dropWhile_append_of_stop hblanks (by simp [isBlank]), List.append_assoc,
    dropPrefix?_eq_some.mpr rfl]
  simp only [Option.bind_eq_bind, Option.bind_some]
  rw [List.append_assoc, dropWhile_append_of_stop hs (by simp [isSpace]), List.append_assoc,
    dropPrefix?_eq_some.mpr rfl]
  simp only [Option.bind_some]
  rw [List.append_assoc, dropWhile_append_of_stop hs' (by simp [isSpace]),
    dropPrefix?_eq_some.mpr rfl]
  simp only [Option.bind_some]
  exact pure_afterBlanks text

theorem of_afterMarker? (h : afterMarker? text = some rest) :
    ∃ blanks k text',
      AllBlank blanks ∧ IsMarker k ∧ text = blanks ++ (k ++ text') ∧ rest = afterBlanks text' := by
  unfold afterMarker? at h
  simp only [Option.bind_eq_bind, Option.bind_eq_some_iff] at h
  obtain ⟨text₁, h₁, text₂, h₂, text₃, h₃, hrest⟩ := h
  obtain ⟨blanks, hblanks, htext⟩ := dropWhile_split isBlank text
  obtain ⟨s, hs, htext₁⟩ := dropWhile_split isSpace text₁
  obtain ⟨s', hs', htext₂⟩ := dropWhile_split isSpace text₂
  rw [dropPrefix?_eq_some] at h₁ h₂ h₃
  refine ⟨blanks, _, text₃, hblanks, ⟨s, s', hs, hs', rfl⟩, ?_, ?_⟩
  . rw [htext, h₁, htext₁, h₂, htext₂, h₃]
    simp only [List.append_assoc]
  . exact Option.some.inj (hrest.symm.trans (pure_afterBlanks text₃))

theorem afterBlanks_blanks (hblanks : AllBlank blanks) (text : List Char) :
    afterBlanks (blanks ++ text) = afterBlanks text := by
  unfold afterBlanks
  rw [List.dropWhile_append_of_pos hblanks]

theorem afterBlanks_newline (text : List Char) : afterBlanks ('\n' :: text) = text := rfl

-- The newline is taken unless something else comes first.
theorem afterBlanks_spec (text : List Char) :
    ∃ blanks,
      AllBlank blanks
        ∧
      (
        text = blanks ++ '\n' :: afterBlanks text
          ∨
        text = blanks ++ afterBlanks text
          ∧
        ∀ c ∈ (afterBlanks text).head?, isBlank c = false ∧ c ≠ '\n'
      ) := by
  obtain ⟨blanks, hblanks, htext⟩ := dropWhile_split isBlank text
  refine ⟨blanks, hblanks, ?_⟩
  have hstop : ∀ c ∈ (text.dropWhile isBlank).head?, isBlank c = false := by
    intro c hc
    have := List.head?_dropWhile_not isBlank text
    rw [Option.mem_def.mp hc] at this
    simpa using this
  unfold afterBlanks
  split
  . next rest heq =>
    left
    rw [← heq]
    exact htext
  . next hne =>
    right
    refine ⟨htext, ?_⟩
    intro c hc
    refine ⟨hstop c hc, ?_⟩
    rintro rfl
    cases hrest : text.dropWhile isBlank with
    | nil =>
      rw [hrest] at hc
      contradiction
    | cons d rest =>
      rw [hrest, List.head?_cons, Option.mem_def, Option.some.injEq] at hc
      subst hc
      exact hne rest hrest

theorem consumes_marker : Consumes afterMarker? := by
  intro text rest h
  obtain ⟨blanks, k, text', _, hk, rfl, rfl⟩ := of_afterMarker? h
  obtain ⟨tail, rfl, _⟩ := hk.head
  obtain ⟨blanks', _, hrest⟩ := afterBlanks_spec text'
  cases hrest with
  | inl hnewline =>
    refine ⟨blanks ++ ('<' :: tail ++ (blanks' ++ ['\n'])), by simp, ?_⟩
    nth_rewrite 1 [hnewline]
    simp
  | inr hother =>
    refine ⟨blanks ++ ('<' :: tail ++ blanks'), by simp, ?_⟩
    nth_rewrite 1 [hother.1]
    simp

/--
A marker as the pattern matches it: with blanks on both sides and, or not, a newline. Which of the
blanks belong to it is left open.
-/
def IsMatch (m : List Char) : Prop :=
  ∃ blanks k blanks' newline,
    AllBlank blanks
      ∧
    IsMarker k
      ∧
    AllBlank blanks'
      ∧
    (newline = [] ∨ newline = ['\n'])
      ∧
    m = blanks ++ (k ++ (blanks' ++ newline))

theorem isMatch_of_matches (h : Matches afterMarker? m text) : IsMatch m := by
  obtain ⟨blanks, k, text', hblanks, hk, heq, htext⟩ := of_afterMarker? h
  obtain ⟨blanks', hblanks', hrest⟩ := afterBlanks_spec text'
  rw [← htext] at hrest
  cases hrest with
  | inl hnewline =>
    refine ⟨blanks, k, blanks', ['\n'], hblanks, hk, hblanks', .inr rfl, ?_⟩
    have hwhole : m ++ text = blanks ++ (k ++ (blanks' ++ ['\n'])) ++ text := by
      rw [heq, hnewline]
      simp
    exact List.append_cancel_right hwhole
  | inr hother =>
    refine ⟨blanks, k, blanks', [], hblanks, hk, hblanks', .inl rfl, ?_⟩
    have hwhole : m ++ text = blanks ++ (k ++ (blanks' ++ [])) ++ text := by
      rw [heq]
      nth_rewrite 1 [hother.1]
      simp
    exact List.append_cancel_right hwhole

theorem isMatch_of_run {ms : List (List Char)} (h : Run afterMarker? ms text) :
    ∀ m ∈ ms, IsMatch m := by
  induction h with
  | nil => nofun
  | cons hmatch _ ih => exact List.forall_mem_cons.mpr ⟨isMatch_of_matches hmatch, ih⟩

end Match

section Interrupted

-- `Interrupted k text`: the text spells `k`, with whole markers between its characters.
inductive Interrupted : List Char → List Char → Prop where
  | last {c : Char} : Interrupted [c] [c]
  | next {c : Char} {k text : List Char} {ms : List (List Char)} (hms : ∀ m ∈ ms, IsMatch m)
    (hrest : Interrupted k text) : Interrupted (c :: k) (c :: (ms.flatten ++ text))

-- Somewhere in the text, markers stand inside of a marker.
def HasInterrupted (text : List Char) : Prop :=
  ∃ before x after k, text = before ++ (x ++ after) ∧ IsMarker k ∧ Interrupted k x ∧ x ≠ k

def HasMarker (text : List Char) : Prop :=
  ∃ before k after, text = before ++ (k ++ after) ∧ IsMarker k

-- What is kept, one character after the other, comes from a text with nothing but markers between.
theorem interrupted_of_scan (hk : k ≠ []) (h : Scan afterMarker? text [] (k ++ after)) :
    ∃ (ms : List (List Char)) (x after' : List Char),
      (∀ m ∈ ms, IsMatch m) ∧ text = ms.flatten ++ (x ++ after') ∧ Interrupted k x := by
  induction k generalizing text with
  | nil => contradiction
  | cons c k ih =>
    have hfirst : Scan afterMarker? text [] ([] ++ c :: (k ++ after)) := h
    obtain ⟨text', hscan, _, hrest⟩ := hfirst.split
    cases hscan.last consumes_marker with
    | inr hkept =>
      obtain ⟨_, _, _, _, _, hout, _⟩ := hkept
      simp at hout
    | inl hrun =>
      obtain ⟨_, ms, rfl, hrun⟩ := hrun
      have hms := isMatch_of_run hrun
      cases k with
      | nil => exact ⟨ms, [c], text', hms, rfl, .last⟩
      | cons d k =>
        obtain ⟨ms', x, after', hms', rfl, hx⟩ := ih (List.cons_ne_nil _ _) hrest
        refine ⟨ms, c :: (ms'.flatten ++ x), after', hms, ?_, .next hms' hx⟩
        simp

theorem hasInterrupted_of_scan {out : List Char} (h : Scan afterMarker? text [] out)
    (hmarker : HasMarker out) : HasInterrupted text := by
  obtain ⟨before, k, after, rfl, hk⟩ := hmarker
  obtain ⟨tail, rfl, _⟩ := hk.head
  obtain ⟨text', hbefore, hnone, hrest⟩ := h.split
  have htail : tail ≠ [] := by
    rintro rfl
    obtain ⟨front, hlast, _⟩ := hk.last
    simp [List.cons_eq_append_iff] at hlast
  obtain ⟨ms, x, after', hms, rfl, hx⟩ := interrupted_of_scan htail hrest
  obtain ⟨before', hbefore'⟩ := hbefore.suffix consumes_marker
  refine ⟨before', '<' :: (ms.flatten ++ x), after', '<' :: tail, ?_, hk, .next hms hx, ?_⟩
  . rw [← hbefore']
    simp
  . intro heq
    have hempty : AllBlank [] := by simp [AllBlank]
    have hmatch := afterMarker?_eq hempty hk after'
    rw [← heq] at hmatch
    simp only [List.nil_append, List.cons_append, List.append_assoc] at hmatch
    rw [hnone] at hmatch
    contradiction

-- `Inserted k text`: the text starts with `k`, among whose characters there may be whole markers.
inductive Inserted : List Char → List Char → Prop where
  | nil {text : List Char} : Inserted [] text
  | char {c : Char} {k text : List Char} (hrest : Inserted k text) : Inserted (c :: k) (c :: text)
  | marker {m k text : List Char} (hm : IsMatch m) (hrest : Inserted k text) : Inserted k (m ++ text)

def IsGap (c : Char) : Prop :=
  isBlank c = true ∨ c = '\n'

-- `k'` is `k` without some of the blanks and newlines in it.
inductive Thinner : List Char → List Char → Prop where
  | nil : Thinner [] []
  | keep {c : Char} {k k' : List Char} (hrest : Thinner k k') : Thinner (c :: k) (c :: k')
  | drop {c : Char} {k k' : List Char} (hc : IsGap c) (hrest : Thinner k k') : Thinner (c :: k) k'

theorem Thinner.refl (k : List Char) : Thinner k k := by
  induction k with
  | nil => exact .nil
  | cons c k ih => exact .keep ih

theorem Thinner.trans {k'' : List Char} (h : Thinner k k') (h' : Thinner k' k'') :
    Thinner k k'' := by
  induction h generalizing k'' with
  | nil => exact h'
  | keep _ ih =>
    cases h' with
    | keep hrest => exact .keep (ih hrest)
    | drop hc hrest => exact .drop hc (ih hrest)
  | drop hc _ ih => exact .drop hc (ih h')

theorem Thinner.sublist (h : Thinner k k') : k'.Sublist k := by
  induction h with
  | nil => exact .slnil
  | keep _ ih => exact ih.cons_cons _
  | drop _ _ ih => exact ih.cons _

theorem Inserted.drop_gap (hc : IsGap c) (h : Inserted k (c :: text)) :
    ∃ k', Thinner k k' ∧ Inserted k' text := by
  generalize hwhole : c :: text = whole at h
  cases h with
  | nil => exact ⟨[], .nil, .nil⟩
  | char hrest =>
    obtain ⟨rfl, rfl⟩ := List.cons.inj hwhole
    exact ⟨_, .drop hc (.refl _), hrest⟩
  | marker hm hrest =>
    obtain ⟨blanks, marker, blanks', newline, hblanks, hmarker, hblanks', hnewline, rfl⟩ := hm
    cases blanks with
    | nil =>
      obtain ⟨tail, rfl, _⟩ := hmarker.head
      obtain ⟨rfl, _⟩ := List.cons.inj hwhole
      cases hc <;> contradiction
    | cons b blanks =>
      obtain ⟨_, rfl⟩ := List.cons.inj hwhole
      refine ⟨_, .refl _, .marker ⟨blanks, marker, blanks', newline, ?_, hmarker, hblanks', hnewline, rfl⟩ hrest⟩
      exact fun d hd => hblanks d (List.mem_cons_of_mem _ hd)

theorem Inserted.drop_gaps {gaps : List Char} (hgaps : ∀ c ∈ gaps, IsGap c)
    (h : Inserted k (gaps ++ text)) : ∃ k', Thinner k k' ∧ Inserted k' text := by
  induction gaps generalizing k with
  | nil => exact ⟨k, .refl k, h⟩
  | cons c gaps ih =>
    rw [List.forall_mem_cons] at hgaps
    obtain ⟨k₁, hthin, hrest⟩ := Inserted.drop_gap hgaps.1 h
    obtain ⟨k₂, hthin', hrest'⟩ := ih hgaps.2 hrest
    exact ⟨k₂, hthin.trans hthin', hrest'⟩

theorem gaps_afterBlanks (text : List Char) :
    ∃ gaps, (∀ c ∈ gaps, IsGap c) ∧ text = gaps ++ afterBlanks text := by
  obtain ⟨blanks, hblanks, htext⟩ := afterBlanks_spec text
  cases htext with
  | inl hnewline =>
    refine ⟨blanks ++ ['\n'], ?_, ?_⟩
    . rw [List.forall_mem_append]
      exact ⟨fun c hc => .inl (hblanks c hc), by simp [IsGap]⟩
    . rw [List.append_assoc]
      exact hnewline
  | inr hother => exact ⟨blanks, fun c hc => .inl (hblanks c hc), hother.1⟩

theorem Inserted.drop_marker (h : Inserted k text) (hk : '<' ∉ k)
    (hmatch : afterMarker? text = some rest) : ∃ k', Thinner k k' ∧ Inserted k' rest := by
  obtain ⟨blanks, marker, text', hblanks, hmarker, rfl, rfl⟩ := of_afterMarker? hmatch
  obtain ⟨k₁, hthin, hrest⟩ := Inserted.drop_gaps (fun c hc => .inl (hblanks c hc)) h
  have hk₁ : '<' ∉ k₁ := fun hmem => hk (hthin.sublist.subset hmem)
  obtain ⟨tail, rfl, htail⟩ := hmarker.head
  generalize hwhole : '<' :: tail ++ text' = whole at hrest
  cases hrest with
  | nil => exact ⟨[], hthin, .nil⟩
  | char hrest =>
    obtain ⟨rfl, _⟩ := List.cons.inj hwhole
    exact absurd List.mem_cons_self hk₁
  | @marker m k text hm hrest =>
    obtain ⟨blanks₂, marker₂, blanks', newline, hblanks₂, hmarker₂, hblanks', hnewline, rfl⟩ := hm
    cases blanks₂ with
    | cons b blanks₂ =>
      obtain ⟨rfl, _⟩ := List.cons.inj hwhole
      have := hblanks₂ '<' List.mem_cons_self
      contradiction
    | nil =>
      rw [List.nil_append, List.append_assoc] at hwhole
      obtain ⟨_, heq⟩ := hmarker.unique hmarker₂ hwhole
      rw [← heq, List.append_assoc, afterBlanks_blanks hblanks']
      cases hnewline with
      | inr hone =>
        subst hone
        exact ⟨_, hthin, hrest⟩
      | inl hnone =>
        subst hnone
        rw [List.nil_append]
        obtain ⟨gaps, hgaps, htext⟩ := gaps_afterBlanks text
        rw [htext] at hrest
        obtain ⟨k₂, hthin', hrest'⟩ := hrest.drop_gaps hgaps
        exact ⟨k₂, hthin.trans hthin', hrest'⟩

-- What is inserted is erased. Blanks and newlines of the text may be erased with it.
theorem Inserted.erased {out : List Char} (h : Scan afterMarker? text rest out) (hend : rest = [])
    (hk : '<' ∉ k) (hinserted : Inserted k text) : ∃ k', Thinner k k' ∧ k' <+: out := by
  induction h generalizing k with
  | here =>
    subst hend
    generalize hwhole : ([] : List Char) = whole at hinserted
    cases hinserted with
    | nil => exact ⟨[], .nil, List.nil_prefix⟩
    | char => contradiction
    | marker hm =>
      obtain ⟨blanks, marker, blanks', newline, _, hmarker, _, _, rfl⟩ := hm
      obtain ⟨tail, rfl, _⟩ := hmarker.head
      simp at hwhole
  | skip hmatch _ ih =>
    obtain ⟨k₁, hthin, hrest⟩ := hinserted.drop_marker hk hmatch
    obtain ⟨k₂, hthin', hprefix⟩ := ih hend (fun hmem => hk (hthin.sublist.subset hmem)) hrest
    exact ⟨k₂, hthin.trans hthin', hprefix⟩
  | @keep c text rest out hnone _ ih =>
    generalize hwhole : c :: text = whole at hinserted
    cases hinserted with
    | nil => exact ⟨[], .nil, List.nil_prefix⟩
    | char hrest =>
      obtain ⟨rfl, rfl⟩ := List.cons.inj hwhole
      obtain ⟨k₁, hthin, hprefix⟩ := ih hend (fun hmem => hk (List.mem_cons_of_mem _ hmem)) hrest
      exact ⟨c :: k₁, .keep hthin, (List.prefix_cons_inj c).mpr hprefix⟩
    | marker hm _ =>
      obtain ⟨blanks, marker, blanks', newline, hblanks, hmarker, _, _, rfl⟩ := hm
      rw [hwhole, List.append_assoc, List.append_assoc, afterMarker?_eq hblanks hmarker] at hnone
      contradiction

theorem Thinner.split {front back : List Char} (h : Thinner (front ++ back) k') :
    ∃ front' back', k' = front' ++ back' ∧ Thinner front front' ∧ Thinner back back' := by
  induction front generalizing k' with
  | nil => exact ⟨[], k', rfl, .nil, h⟩
  | cons c front ih =>
    cases h with
    | keep hrest =>
      obtain ⟨front', back', rfl, hfront, hback⟩ := ih hrest
      exact ⟨c :: front', back', rfl, .keep hfront, hback⟩
    | drop hc hrest =>
      obtain ⟨front', back', rfl, hfront, hback⟩ := ih hrest
      exact ⟨front', back', rfl, .drop hc hfront, hback⟩

theorem Thinner.eq_of_gapless (h : Thinner k k') (hk : ∀ c ∈ k, isBlank c = false ∧ c ≠ '\n') :
    k' = k := by
  induction h with
  | nil => rfl
  | keep _ ih =>
    rw [List.forall_mem_cons] at hk
    rw [ih hk.2]
  | drop hc _ _ =>
    rw [List.forall_mem_cons] at hk
    cases hc with
    | inl hblank =>
      rw [hk.1.1] at hblank
      contradiction
    | inr hnewline => exact absurd hnewline hk.1.2

theorem IsMarker.thinner (h : IsMarker k) (hthin : Thinner k k') : IsMarker k' := by
  obtain ⟨s, s', hs, hs', rfl⟩ := h
  obtain ⟨front, k₁, rfl, hfront, h₁⟩ := hthin.split
  obtain ⟨t, k₂, rfl, ht, h₂⟩ := h₁.split
  obtain ⟨middle, k₃, rfl, hmiddle, h₃⟩ := h₂.split
  obtain ⟨t', back, rfl, ht', hback⟩ := h₃.split
  rw [hfront.eq_of_gapless (by simp [isBlank]), hmiddle.eq_of_gapless (by simp [isBlank]),
    hback.eq_of_gapless (by simp [isBlank])]
  refine ⟨t, t', ?_, ?_, rfl⟩
  . exact fun c hc => hs c (ht.sublist.subset hc)
  . exact fun c hc => hs' c (ht'.sublist.subset hc)

-- The pass stands at a `<` that no marker starts with.
theorem scan_to_lt (hnone : afterMarker? ('<' :: text) = none) (before : List Char) :
    ∃ out, Scan afterMarker? (before ++ '<' :: text) ('<' :: text) out := by
  generalize hlength : before.length = n
  induction n using Nat.strongRecOn generalizing before with
  | ind n ih =>
    cases before with
    | nil => exact ⟨[], .here⟩
    | cons c before =>
      cases hafter : afterMarker? (c :: before ++ '<' :: text) with
      | none =>
        obtain ⟨out, hout⟩ := ih before.length (by simp at hlength; omega) before rfl
        exact ⟨c :: out, .keep hafter hout⟩
      | some rest =>
        obtain ⟨blanks, k, text', hblanks, hk, htext, rfl⟩ := of_afterMarker? hafter
        obtain ⟨tail, rfl, htail⟩ := hk.head
        have hfirst : '<' ∉ blanks := by
          intro hmem
          have := hblanks _ hmem
          contradiction
        cases split_first hfirst htext.symm with
        | inl hsame =>
          have hmatch := afterMarker?_eq (by simp [AllBlank] : AllBlank []) hk text'
          have htext' : '<' :: text = [] ++ ('<' :: tail ++ text') := by
            rw [hsame.2]
            rfl
          rw [← htext', hnone] at hmatch
          contradiction
        | inr hlater =>
          obtain ⟨middle, hbefore, htail'⟩ := hlater
          obtain ⟨x, hmiddle, hx⟩ := split_behind htail htail'
          obtain ⟨gaps, hgaps, hsplit⟩ := gaps_afterBlanks text'
          have hgap : '<' ∉ gaps := by
            intro hmem
            cases hgaps _ hmem <;> contradiction
          obtain ⟨y, hxy, hafter'⟩ := split_behind hgap (hsplit.symm.trans hx)
          have hshorter : y.length < n := by
            rw [← hlength, hbefore, hmiddle, hxy]
            simp only [List.length_append, List.length_cons]
            omega
          obtain ⟨out, hout⟩ := ih y.length hshorter y rfl
          rw [← hafter'] at hout
          exact ⟨out, .skip hafter hout⟩

theorem Inserted.markers {ms : List (List Char)} (hms : ∀ m ∈ ms, IsMatch m)
    (h : Inserted k text) : Inserted k (ms.flatten ++ text) := by
  induction ms with
  | nil => exact h
  | cons m ms ih =>
    rw [List.forall_mem_cons] at hms
    rw [List.flatten_cons, List.append_assoc]
    exact .marker hms.1 (ih hms.2)

theorem Interrupted.inserted {x : List Char} (h : Interrupted k x) (after : List Char) :
    Inserted k (x ++ after) := by
  induction h with
  | last => exact .char .nil
  | @next c k text ms hms _ ih =>
    have hassoc : c :: (ms.flatten ++ text) ++ after = c :: (ms.flatten ++ (text ++ after)) := by
      simp
    rw [hassoc]
    exact .char (.markers hms ih)

-- Where the first of the markers stands.
theorem Interrupted.first {x : List Char} (h : Interrupted k x) (hne : x ≠ k) :
    ∃ front back m y,
      k = front ++ back ∧ front ≠ [] ∧ back ≠ [] ∧ IsMatch m ∧ x = front ++ (m ++ y) := by
  induction h with
  | last => exact absurd rfl hne
  | @next c k text ms hms hrest ih =>
    cases ms with
    | nil =>
      have htext : text ≠ k := by
        rintro rfl
        exact hne rfl
      obtain ⟨front, back, m, y, rfl, _, hback, hm, rfl⟩ := ih htext
      exact ⟨c :: front, back, m, y, rfl, List.cons_ne_nil _ _, hback, hm, rfl⟩
    | cons m ms =>
      have hk : k ≠ [] := by cases hrest <;> exact List.cons_ne_nil _ _
      refine ⟨[c], k, m, ms.flatten ++ text, rfl, List.cons_ne_nil _ _, hk, hms m (by simp), ?_⟩
      simp

-- No marker is found where one is interrupted.
theorem Interrupted.not_found {x : List Char} (hk : IsMarker k) (h : Interrupted k x) (hne : x ≠ k)
    (after : List Char) : afterMarker? (x ++ after) = none := by
  obtain ⟨front, back, m, y, rfl, hfront, hback, hm, rfl⟩ := h.first hne
  obtain ⟨blanks, marker, blanks', newline, hblanks, hmarker, _, _, rfl⟩ := hm
  obtain ⟨mtail, rfl, _⟩ := hmarker.head
  obtain ⟨kfront, hlast, hkfront⟩ := hk.last
  have hend : '>' ∉ front := by
    intro hmem
    apply hkfront
    obtain ⟨back', last, rfl⟩ := List.eq_nil_or_concat' back |>.resolve_left hback
    rw [← List.append_assoc] at hlast
    rw [← (List.append_singleton_inj.mp hlast).1]
    exact List.mem_append_left _ hmem
  rw [Option.eq_none_iff_forall_ne_some]
  intro rest hfound
  obtain ⟨blanks₂, k₂, text', hblanks₂, hk₂, htext, _⟩ := of_afterMarker? hfound
  obtain ⟨tail₂, rfl, htail₂⟩ := hk₂.head
  obtain ⟨tail, hhead, _⟩ := hk.head
  cases front with
  | nil => contradiction
  | cons d front =>
    obtain ⟨rfl, _⟩ := List.cons.inj hhead
    cases blanks₂ with
    | cons b blanks₂ =>
      obtain ⟨rfl, _⟩ := List.cons.inj htext
      have := hblanks₂ '<' List.mem_cons_self
      contradiction
    | nil =>
      have hsplit : tail₂ ++ text'
          = (front ++ blanks) ++ '<' :: (mtail ++ (blanks' ++ newline) ++ (y ++ after)) := by
        have heq : front ++ (blanks ++ ('<' :: mtail ++ (blanks' ++ newline)) ++ y) ++ after
            = tail₂ ++ text' := (List.cons.inj htext).2
        rw [← heq]
        simp
      obtain ⟨middle, hmiddle, _⟩ := split_behind htail₂ hsplit
      have hmem : '>' ∈ tail₂ := by
        obtain ⟨front₂, hlast₂, _⟩ := hk₂.last
        have : '>' ∈ '<' :: tail₂ := by
          rw [hlast₂]
          simp
        simpa using this
      have hin : '>' ∈ front ++ blanks := by
        rw [hmiddle]
        exact List.mem_append_left _ hmem
      cases List.mem_append.mp hin with
      | inl hold => exact hend (List.mem_cons_of_mem _ hold)
      | inr hblank =>
        have := hblanks _ hblank
        contradiction

/--
A marker is left exactly where markers stood inside of one.
-/
theorem hasMarker_scan_iff {out : List Char} (h : Scan afterMarker? text [] out) :
    HasMarker out ↔ HasInterrupted text := by
  constructor
  . exact hasInterrupted_of_scan h
  . rintro ⟨before, x, after, k, rfl, hk, hx, hne⟩
    have hnone := hx.not_found hk hne after
    have hinserted := hx.inserted after
    obtain ⟨tail, rfl, htail⟩ := hk.head
    obtain ⟨y, rfl⟩ : ∃ y, x = '<' :: y := by
      cases hx with
      | last => exact ⟨[], rfl⟩
      | next => exact ⟨_, rfl⟩
    obtain ⟨kept, hkept⟩ := scan_to_lt hnone before
    cases h.connect hkept with
    | inl hless =>
      obtain ⟨more, hmore, _⟩ := hless
      have := (hmore.suffix consumes_marker).length_le
      simp at this
    | inr hmore =>
      obtain ⟨more, hmore, rfl⟩ := hmore
      have htailInserted : Inserted tail (y ++ after) := by
        generalize hwhole : '<' :: y ++ after = whole at hinserted
        cases hinserted with
        | char hrest =>
          obtain ⟨_, rfl⟩ := List.cons.inj hwhole
          exact hrest
        | marker hm =>
          obtain ⟨blanks, marker, blanks', newline, hblanks, hmarker, _, _, rfl⟩ := hm
          rw [List.append_assoc, List.append_assoc] at hwhole
          rw [hwhole, afterMarker?_eq hblanks hmarker] at hnone
          contradiction
      cases hmore with
      | skip hmatch _ =>
        have := hnone.symm.trans hmatch
        contradiction
      | keep _ hrest =>
        obtain ⟨k', hthin, rest, rfl⟩ := htailInserted.erased hrest rfl htail
        refine ⟨kept, '<' :: k', rest, ?_, hk.thinner (.keep hthin)⟩
        simp

end Interrupted

end PrdDocument

end AgenticPrd
