import AgenticPrd.Backend.CompletionMarker

/-!
What becomes of the lines of a text when its completion markers are erased.
-/

namespace AgenticPrd

namespace PrdDocument

open Erase

variable {text text' rest m k before line after out : List Char} {ms : List (List Char)} {c : Char}

-- `line` is one line of the text `before ++ (line ++ after)`.
structure IsLine (before line after : List Char) : Prop where
  starts : before = [] ∨ ∃ front, before = front ++ ['\n']
  single : '\n' ∉ line
  ends : after = [] ∨ ∃ back, after = '\n' :: back

-- No marker reaches into the line.
def Untouched (before line after : List Char) : Prop :=
  ∀ front k back, before ++ (line ++ after) = front ++ (k ++ back) → IsMarker k →
    front.length + k.length ≤ before.length ∨ before.length + line.length ≤ front.length

-- The line is kept, and is a line of what is left.
def Survives (before line after : List Char) : Prop :=
  ∃ before' after',
    Scan afterMarker? (before ++ (line ++ after)) (line ++ after) before'
      ∧
    Scan afterMarker? (line ++ after) after line
      ∧
    Scan afterMarker? after [] after'
      ∧
    IsLine before' line after'

def KeepsLines (text : List Char) : Prop :=
  ∀ before line after, text = before ++ (line ++ after) → IsLine before line after →
    Untouched before line after → Survives before line after

/--
A line without a marker is preceded by markers that take the newline before it, and these by some
other text.
-/
def JoinsLine (text : List Char) : Prop :=
  ∃ (before : List Char) (c : Char) (ms : List (List Char)) (line after : List Char),
    text = before ++ c :: (ms.flatten ++ (line ++ after))
      ∧
    isBlank c = false
      ∧
    c ≠ '\n'
      ∧
    (∀ k, IsMarker k → ¬k <:+ before ++ [c])
      ∧
    (∀ m ∈ ms, IsMatch m)
      ∧
    (∃ front, ms.flatten = front ++ ['\n'])
      ∧
    IsLine (before ++ c :: ms.flatten) line after
      ∧
    Untouched (before ++ c :: ms.flatten) line after

section Place

theorem split_cons {front back rest : List Char} (h : before ++ c :: rest = front ++ back) :
    (∃ front', front = before ++ c :: front' ∧ rest = front' ++ back)
      ∨
    ∃ back', back = back' ++ c :: rest ∧ before = front ++ back' := by
  cases List.append_eq_append_iff.mp h with
  | inl hlonger =>
    obtain ⟨x, hx, hrest⟩ := hlonger
    cases x with
    | nil =>
      rw [List.append_nil] at hx
      exact .inr ⟨[], hrest.symm, by rw [hx, List.append_nil]⟩
    | cons d x =>
      obtain ⟨rfl, hback⟩ := List.cons.inj hrest
      exact .inl ⟨x, hx, hback⟩
  | inr hshorter =>
    obtain ⟨x, hx, hrest⟩ := hshorter
    exact .inr ⟨x, hrest, hx⟩

-- A character of a match that is neither a blank nor the newline at its end belongs to the marker.
theorem split_match {blanks blanks' newline : List Char} (hblanks : AllBlank blanks)
    (hblanks' : AllBlank blanks') (hnewline : newline = [] ∨ newline = ['\n'])
    (h : before ++ c :: rest = blanks ++ (k ++ (blanks' ++ newline))) (hc : isBlank c = false)
    (hend : c = '\n' → rest ≠ []) :
    ∃ k₁ k₂, k = k₁ ++ c :: k₂ ∧ before = blanks ++ k₁ ∧ rest = k₂ ++ (blanks' ++ newline) := by
  cases split_cons h with
  | inl hin =>
    obtain ⟨x, rfl, _⟩ := hin
    have := hblanks c (by simp)
    rw [hc] at this
    contradiction
  | inr hbehind =>
    obtain ⟨k₁, hk₁, rfl⟩ := hbehind
    cases split_cons hk₁.symm with
    | inl hin =>
      obtain ⟨k₂, rfl, rfl⟩ := hin
      exact ⟨k₁, k₂, rfl, rfl, rfl⟩
    | inr hbehind =>
      exfalso
      obtain ⟨x, hx, _⟩ := hbehind
      cases split_cons hx.symm with
      | inl hin =>
        obtain ⟨y, rfl, _⟩ := hin
        have := hblanks' c (by simp)
        rw [hc] at this
        contradiction
      | inr hbehind =>
        obtain ⟨y, hy, _⟩ := hbehind
        cases hnewline with
        | inl hnone => simp [hnone] at hy
        | inr hone =>
          rw [hone] at hy
          cases y with
          | nil =>
            obtain ⟨rfl, rfl⟩ := List.cons.inj hy
            exact hend rfl rfl
          | cons d y => simp at hy

theorem isBlank_newline : isBlank '\n' = false := rfl

theorem isBlank_lt : isBlank '<' = false := rfl

-- The head of a marker is not anywhere else in a match.
theorem split_match_lt {blanks blanks' newline : List Char} (hblanks : AllBlank blanks)
    (hk : IsMarker k) (hblanks' : AllBlank blanks') (hnewline : newline = [] ∨ newline = ['\n'])
    (h : before ++ '<' :: rest = blanks ++ (k ++ (blanks' ++ newline))) : before = blanks := by
  obtain ⟨k₁, k₂, rfl, hbefore, _⟩ :=
    split_match hblanks hblanks' hnewline h isBlank_lt (by simp)
  obtain ⟨tail, hhead, htail⟩ := hk.head
  cases k₁ with
  | nil => rw [hbefore, List.append_nil]
  | cons d k₁ =>
    obtain ⟨_, rfl⟩ := List.cons.inj hhead
    exact absurd (by simp) htail

-- The pass comes to each marker, or to blanks in front of it.
theorem scan_to_marker (hk : IsMarker k) (before after : List Char) :
    ∃ blanks out,
      AllBlank blanks
        ∧
      Scan afterMarker? (before ++ (k ++ after)) (blanks ++ (k ++ after)) out := by
  cases Scan.reach_or_cross consumes_marker before (k ++ after) with
  | inl hreach =>
    obtain ⟨out, hout⟩ := hreach
    exact ⟨[], out, by simp [AllBlank], hout⟩
  | inr hcross =>
    obtain ⟨front, m, m', rest', out, rfl, _, hrest, hm', hmatch, hout⟩ := hcross
    obtain ⟨blanks, k', blanks', newline, hblanks, hk', hblanks', hnewline, heq⟩ :=
      isMatch_of_matches hmatch
    obtain ⟨tail, rfl, _⟩ := hk.head
    cases m' with
    | nil => contradiction
    | cons d m' =>
      obtain ⟨rfl, _⟩ := List.cons.inj hrest
      have hm := split_match_lt hblanks hk' hblanks' hnewline heq
      subst hm
      exact ⟨_, out, hblanks, hout⟩

-- No marker goes on into the next one.
theorem not_into_match {k₁ k₂ x : List Char} (hk : IsMarker (k₁ ++ c :: k₂)) (hk₂ : k₂ ≠ [])
    (hm : IsMatch m) (h : m ++ text = k₂ ++ x) : False := by
  obtain ⟨blanks, k', blanks', newline, hblanks, hk', _, _, rfl⟩ := hm
  obtain ⟨tail', rfl, _⟩ := hk'.head
  have hlt : '<' ∉ k₂ := by
    obtain ⟨tail, hhead, htail⟩ := hk.head
    intro hmem
    apply htail
    cases k₁ with
    | nil =>
      obtain ⟨_, rfl⟩ := List.cons.inj hhead
      exact hmem
    | cons d k₁ =>
      obtain ⟨_, rfl⟩ := List.cons.inj hhead
      simp [hmem]
  have hgt : '>' ∈ k₂ := by
    obtain ⟨front, hlast, _⟩ := hk.last
    obtain ⟨k₂, d, rfl⟩ := (List.eq_nil_or_concat' k₂).resolve_left hk₂
    have hlast' : (k₁ ++ c :: k₂) ++ [d] = front ++ ['>'] := by
      rw [← hlast]
      simp
    have hd := List.cons.inj (List.append_inj_right' hlast' rfl)
    simp [hd.1]
  have hsplit : k₂ ++ x = blanks ++ '<' :: (tail' ++ (blanks' ++ newline) ++ text) := by
    rw [← h]
    simp
  obtain ⟨middle, rfl, _⟩ := split_behind hlt hsplit
  have := hblanks '>' (List.mem_append_left _ hgt)
  contradiction

-- The newline at the end of a match is the one that the pattern takes.
theorem newline_of_match {blanks blanks' newline front : List Char} (hk : IsMarker k)
    (hblanks' : AllBlank blanks') (hnewline : newline = [] ∨ newline = ['\n'])
    (h : blanks ++ (k ++ (blanks' ++ newline)) = front ++ ['\n']) : newline = ['\n'] := by
  cases hnewline with
  | inr hone => exact hone
  | inl hnone =>
    exfalso
    obtain ⟨kfront, hlast, _⟩ := hk.last
    rw [hnone, List.append_nil] at h
    cases List.eq_nil_or_concat' blanks' with
    | inl hnil =>
      rw [hnil, List.append_nil, hlast, ← List.append_assoc] at h
      have := List.append_inj_right' h rfl
      contradiction
    | inr hconcat =>
      obtain ⟨blanks', b, rfl⟩ := hconcat
      rw [← List.append_assoc, ← List.append_assoc] at h
      have hb := List.cons.inj (List.append_inj_right' h rfl)
      have := hblanks' b (by simp)
      rw [hb.1] at this
      contradiction

theorem ends_behind {a b front : List Char} (hb : b ≠ []) (h : a ++ b = front ++ [c]) :
    ∃ front', b = front' ++ [c] := by
  obtain ⟨b, d, rfl⟩ := (List.eq_nil_or_concat' b).resolve_left hb
  rw [← List.append_assoc] at h
  have hd := List.cons.inj (List.append_inj_right' h rfl)
  exact ⟨b, by rw [hd.1]⟩

theorem IsMatch.ne_nil (h : IsMatch m) : m ≠ [] := by
  obtain ⟨blanks, k, blanks', newline, _, hk, _, _, rfl⟩ := h
  obtain ⟨tail, rfl, _⟩ := hk.head
  simp

theorem afterBlanks_marker (hk : IsMarker k) (text : List Char) :
    afterBlanks (k ++ text) = k ++ text := by
  obtain ⟨tail, rfl, _⟩ := hk.head
  rfl

theorem afterBlanks_length (text : List Char) : (afterBlanks text).length ≤ text.length := by
  obtain ⟨gaps, _, hgaps⟩ := gaps_afterBlanks text
  nth_rewrite 2 [hgaps]
  simp

-- Markers that end with a newline are erased together with it.
theorem scan_run (hm : IsMatch m) (hms : ∀ m ∈ ms, IsMatch m) {front : List Char}
    (hend : m ++ ms.flatten = front ++ ['\n']) (rest : List Char) :
    Scan afterMarker? (m ++ (ms.flatten ++ rest)) rest [] := by
  induction ms generalizing m front with
  | nil =>
    obtain ⟨blanks, k, blanks', newline, hblanks, hk, hblanks', hnewline, rfl⟩ := hm
    rw [List.flatten_nil, List.append_nil] at hend
    have hone := newline_of_match hk hblanks' hnewline hend
    subst hone
    have hmatch := afterMarker?_eq hblanks hk (blanks' ++ '\n' :: rest)
    rw [afterBlanks_blanks hblanks', afterBlanks_newline] at hmatch
    have hassoc : blanks ++ (k ++ (blanks' ++ ['\n'])) ++ ([].flatten ++ rest)
        = blanks ++ (k ++ (blanks' ++ '\n' :: rest)) := by
      simp
    rw [hassoc]
    exact .skip hmatch .here
  | cons m' ms ih =>
    rw [List.forall_mem_cons] at hms
    obtain ⟨blanks, k, blanks', newline, hblanks, hk, hblanks', hnewline, rfl⟩ := hm
    obtain ⟨hm', hms⟩ := hms
    have hmatch := afterMarker?_eq hblanks hk (blanks' ++ (newline ++ (m' ++ (ms.flatten ++ rest))))
    rw [afterBlanks_blanks hblanks'] at hmatch
    have hassoc : blanks ++ (k ++ (blanks' ++ newline)) ++ ((m' :: ms).flatten ++ rest)
        = blanks ++ (k ++ (blanks' ++ (newline ++ (m' ++ (ms.flatten ++ rest))))) := by
      simp
    rw [hassoc]
    have hne : m' ++ ms.flatten ≠ [] := by
      intro hnil
      exact hm'.ne_nil (List.append_eq_nil_iff.mp hnil).1
    obtain ⟨front', hend'⟩ := ends_behind hne hend
    cases hnewline with
    | inr hone =>
      subst hone
      exact .skip hmatch (ih hm' hms hend')
    | inl hnone =>
      subst hnone
      obtain ⟨blanks₂, k₂, blanks₂', newline₂, hblanks₂, hk₂, hblanks₂', hnewline₂, rfl⟩ := hm'
      have hempty : AllBlank [] := by simp [AllBlank]
      have hm₂ : IsMatch (k₂ ++ (blanks₂' ++ newline₂)) :=
        ⟨[], k₂, blanks₂', newline₂, hempty, hk₂, hblanks₂', hnewline₂, rfl⟩
      have hne₂ : k₂ ++ (blanks₂' ++ newline₂) ++ ms.flatten ≠ [] := by
        intro hnil
        exact hm₂.ne_nil (List.append_eq_nil_iff.mp hnil).1
      rw [List.append_assoc] at hend'
      obtain ⟨front₂, hend₂⟩ := ends_behind hne₂ hend'
      have hrest : afterBlanks (blanks₂ ++ (k₂ ++ (blanks₂' ++ newline₂)) ++ (ms.flatten ++ rest))
          = k₂ ++ (blanks₂' ++ newline₂) ++ (ms.flatten ++ rest) := by
        rw [List.append_assoc, afterBlanks_blanks hblanks₂, List.append_assoc,
          afterBlanks_marker hk₂]
      rw [List.nil_append, hrest] at hmatch
      exact .skip hmatch (ih hm₂ hms hend₂)

theorem IsMarker.two_le (h : IsMarker k) : 2 ≤ k.length := by
  obtain ⟨s, s', _, _, rfl⟩ := h
  simp

-- A text that starts with a match starts with a marker, or with a blank.
theorem not_match {x : List Char} (hc : isBlank c = false)
    (h : ∀ k₂, IsMarker (c :: k₂) → k₂ ≠ [] → ¬k₂ <+: x) : afterMarker? (c :: x) = none := by
  rw [Option.eq_none_iff_forall_ne_some]
  intro rest hfound
  obtain ⟨blanks, k, text', hblanks, hk, htext, _⟩ := of_afterMarker? hfound
  cases blanks with
  | cons b blanks =>
    obtain ⟨rfl, _⟩ := List.cons.inj htext
    have := hblanks c List.mem_cons_self
    rw [hc] at this
    contradiction
  | nil =>
    have hlength := hk.two_le
    cases k with
    | nil => contradiction
    | cons d k₂ =>
      obtain ⟨rfl, rfl⟩ := List.cons.inj htext
      apply h k₂ hk
      . rintro rfl
        contradiction
      . exact List.prefix_append _ _

end Place

section Lines

theorem not_keepsLines (h : JoinsLine text) : ¬KeepsLines text := by
  intro hkeeps
  obtain ⟨before, c, ms, line, after, rfl, hc, hnewline, hfree, hms, hend, hline, htouch⟩ := h
  have hassoc : before ++ c :: (ms.flatten ++ (line ++ after))
      = before ++ c :: ms.flatten ++ (line ++ after) := by
    simp
  obtain ⟨before', after', hbefore, _, _, hline'⟩ := hkeeps _ _ _ hassoc hline htouch
  rw [← hassoc] at hbefore
  obtain ⟨front, hfront⟩ := hend
  cases ms with
  | nil => simp at hfront
  | cons m ms =>
    rw [List.forall_mem_cons] at hms
    have hnot : ∀ k₁ k₂, IsMarker (k₁ ++ c :: k₂) → k₂ ≠ [] →
        ¬k₂ <+: (m :: ms).flatten ++ (line ++ after) := by
      rintro k₁ k₂ hk hk₂ ⟨x, hx⟩
      rw [List.flatten_cons, List.append_assoc] at hx
      exact not_into_match hk hk₂ hms.1 hx.symm
    have hnone := not_match (x := (m :: ms).flatten ++ (line ++ after)) hc (hnot [])
    have hrun : Scan afterMarker? ((m :: ms).flatten ++ (line ++ after)) (line ++ after) [] := by
      rw [List.flatten_cons, List.append_assoc]
      exact scan_run hms.1 hms.2 hfront _
    have hreach : ∃ out, Scan afterMarker? (before ++ c :: ((m :: ms).flatten ++ (line ++ after)))
        (c :: ((m :: ms).flatten ++ (line ++ after))) out := by
      cases Scan.reach_or_cross consumes_marker before
          (c :: ((m :: ms).flatten ++ (line ++ after))) with
      | inl hreach => exact hreach
      | inr hcross =>
        exfalso
        obtain ⟨front, m₁, m₂, rest', out, rfl, _, hrest, hm₂, hmatch, _⟩ := hcross
        obtain ⟨blanks, k, blanks', newline, hblanks, hk, hblanks', hnewline', heq⟩ :=
          isMatch_of_matches hmatch
        cases m₂ with
        | nil => contradiction
        | cons d m₂ =>
          obtain ⟨rfl, hrest'⟩ := List.cons.inj hrest
          obtain ⟨k₁, k₂, rfl, rfl, rfl⟩ := split_match hblanks hblanks' hnewline' heq hc
            (fun h => absurd h hnewline)
          cases k₂ with
          | nil =>
            apply hfree _ hk
            exact ⟨front ++ blanks, by simp⟩
          | cons e k₂ =>
            apply hnot k₁ (e :: k₂) hk (List.cons_ne_nil _ _)
            refine ⟨blanks' ++ newline ++ rest', ?_⟩
            rw [hrest', ← List.append_assoc]
            rfl
    obtain ⟨out, hout⟩ := hreach
    have hkept := hout.trans (.keep hnone hrun)
    rw [hbefore.deterministic consumes_marker hkept] at hline'
    cases hline'.starts with
    | inl hempty => simp at hempty
    | inr hnl =>
      obtain ⟨front', hnl⟩ := hnl
      have := List.cons.inj (List.append_inj_right' hnl rfl)
      exact hnewline this.1

variable (hline : IsLine before line after) (htouch : Untouched before line after)

include hline htouch

theorem scan_to_line : ∃ out, Scan afterMarker? (before ++ (line ++ after)) (line ++ after) out := by
  cases Scan.reach_or_cross consumes_marker before (line ++ after) with
  | inl hreach => exact hreach
  | inr hcross =>
    exfalso
    obtain ⟨front, m, m', rest', out, rfl, hm, hrest, hm', hmatch, _⟩ := hcross
    obtain ⟨blanks, k, blanks', newline, hblanks, hk, hblanks', hnewline, heq⟩ :=
      isMatch_of_matches hmatch
    cases hline.starts with
    | inl hempty => exact hm (List.append_eq_nil_iff.mp hempty).2
    | inr hnl =>
      obtain ⟨_, hnl⟩ := hnl
      obtain ⟨m₁, rfl⟩ := ends_behind hm hnl
      rw [List.append_assoc] at heq
      obtain ⟨k₁, k₂, rfl, rfl, rfl⟩ := split_match hblanks hblanks' hnewline heq isBlank_newline
        (fun _ => hm')
      have hwhole : front ++ (blanks ++ k₁ ++ ['\n']) ++ (line ++ after)
          = front ++ blanks ++ (k₁ ++ '\n' :: k₂ ++ (blanks' ++ newline ++ rest')) := by
        rw [hrest]
        simp
      have hplace := htouch _ _ _ hwhole hk
      simp only [List.length_append, List.length_cons, List.length_nil] at hplace
      cases k₂ with
      | nil =>
        obtain ⟨kfront, hlast, _⟩ := hk.last
        have := List.append_inj_right' hlast rfl
        contradiction
      | cons d k₂ =>
        rw [List.length_cons] at hplace
        omega

theorem scan_line : Scan afterMarker? (line ++ after) after line := by
  apply Scan.keep_all
  intro front a back hsplit
  rw [Option.eq_none_iff_forall_ne_some]
  intro rest hfound
  obtain ⟨blanks, k, text', hblanks, hk, htext, _⟩ := of_afterMarker? hfound
  have hwhole : before ++ (line ++ after) = before ++ front ++ blanks ++ (k ++ text') := by
    rw [List.append_assoc (before ++ front), ← htext, hsplit]
    simp
  have hplace := htouch _ _ _ hwhole hk
  have hlength := hk.two_le
  simp only [hsplit, List.length_append, List.length_cons] at hplace
  obtain ⟨x, hx, hafter⟩ : ∃ x, AllBlank x ∧ after = x ++ (k ++ text') := by
    rw [← List.cons_append] at htext
    cases List.append_eq_append_iff.mp htext with
    | inl hlonger =>
      obtain ⟨x, rfl, hafter⟩ := hlonger
      exact ⟨x, fun c hc => hblanks c (List.mem_append_right _ hc), hafter⟩
    | inr hshorter =>
      obtain ⟨x, hx, hafter⟩ := hshorter
      have hlength' := congrArg List.length hx
      rw [List.length_append, List.length_cons] at hlength'
      have hnil : x = [] := List.eq_nil_of_length_eq_zero (by omega)
      subst hnil
      exact ⟨[], by simp [AllBlank], hafter.symm⟩
  obtain ⟨tail, rfl, _⟩ := hk.head
  cases hline.ends with
  | inl hempty => simp [hempty] at hafter
  | inr hnl =>
    obtain ⟨back, rfl⟩ := hnl
    cases x with
    | nil =>
      have := (List.cons.inj hafter).1
      contradiction
    | cons d x =>
      obtain ⟨rfl, _⟩ := List.cons.inj hafter
      have := hx '\n' List.mem_cons_self
      contradiction

omit htouch in
theorem ends_of_scan (h : Scan afterMarker? after [] out) : out = [] ∨ ∃ back, out = '\n' :: back := by
  cases hline.ends with
  | inl hempty =>
    subst hempty
    exact .inl (h.eq_here consumes_marker)
  | inr hnl =>
    obtain ⟨back, rfl⟩ := hnl
    cases h with
    | keep _ _ => exact .inr ⟨_, rfl⟩
    | skip hmatch _ =>
      obtain ⟨blanks, k, text', hblanks, hk, htext, _⟩ := of_afterMarker? hmatch
      obtain ⟨tail, rfl, _⟩ := hk.head
      cases blanks with
      | nil =>
        have := (List.cons.inj htext).1
        contradiction
      | cons d blanks =>
        obtain ⟨rfl, _⟩ := List.cons.inj htext
        have := hblanks '\n' List.mem_cons_self
        contradiction

-- The pass erases the newline in front of the line only if markers stand between the two.
theorem starts_of_scan (hjoins : ¬JoinsLine (before ++ (line ++ after)))
    (h : Scan afterMarker? (before ++ (line ++ after)) (line ++ after) out) :
    out = [] ∨ ∃ front, out = front ++ ['\n'] := by
  cases h.last consumes_marker with
  | inl hempty => exact .inl hempty.1
  | inr hlast =>
    obtain ⟨front, c, ms, out', hwhole, rfl, hkept, hnone, hrun⟩ := hlast
    right
    by_cases hnewline : c = '\n'
    . exact ⟨out', by rw [hnewline]⟩
    exfalso
    apply hjoins
    have hbefore : before = front ++ c :: ms.flatten := by
      have hassoc : before ++ (line ++ after) = front ++ c :: ms.flatten ++ (line ++ after) := by
        rw [hwhole]
        simp
      exact List.append_cancel_right hassoc
    refine ⟨front, c, ms, line, after, hwhole, ?_, hnewline, ?_, isMatch_of_run hrun, ?_,
      hbefore ▸ hline, hbefore ▸ htouch⟩
    . -- A blank in front of a marker is erased with it.
      cases hblank : isBlank c with
      | false => rfl
      | true =>
        exfalso
        cases hrun with
        | nil =>
          rw [List.flatten_nil] at hbefore
          cases hline.starts with
          | inl hempty => simp [hempty] at hbefore
          | inr hnl =>
            obtain ⟨_, rfl⟩ := hnl
            have := List.cons.inj (List.append_inj_right' hbefore rfl)
            exact hnewline this.1.symm
        | @cons m ms _ hmatch hrun =>
          obtain ⟨blanks, k, text', hblanks, hk, htext, _⟩ := of_afterMarker? hmatch
          have hblanks' : AllBlank (c :: blanks) := List.forall_mem_cons.mpr ⟨hblank, hblanks⟩
          have hfound := afterMarker?_eq hblanks' hk text'
          rw [List.cons_append, ← htext, ← List.append_assoc, ← List.flatten_cons, hnone] at hfound
          contradiction
    . -- The pass does not stop inside of a marker.
      rintro k hk ⟨x, hx⟩
      have hplace : before ++ (line ++ after) = x ++ (k ++ (ms.flatten ++ (line ++ after))) := by
        rw [hwhole, ← List.append_assoc x, hx]
        simp
      obtain ⟨blanks, out₂, hblanks, hout₂⟩ := scan_to_marker hk x (ms.flatten ++ (line ++ after))
      rw [← hplace] at hout₂
      have hlength := hk.two_le
      cases hkept.connect hout₂ with
      | inl hfarther =>
        obtain ⟨more, hmore, _⟩ := hfarther
        have := (hmore.suffix consumes_marker).length_le
        simp only [List.length_append, List.length_cons] at this
        omega
      | inr hfarther =>
        obtain ⟨more, hmore, _⟩ := hfarther
        have hmatch := afterMarker?_eq hblanks hk (ms.flatten ++ (line ++ after))
        generalize hfrom : blanks ++ (k ++ (ms.flatten ++ (line ++ after))) = source at hmore
        rw [hfrom] at hmatch
        cases hmore with
        | here =>
          have := congrArg List.length hfrom
          simp only [List.length_append, List.length_cons] at this
          omega
        | keep hnone' _ =>
          rw [hnone'] at hmatch
          contradiction
        | skip hmatch' hscan =>
          rw [hmatch, Option.some.injEq] at hmatch'
          subst hmatch'
          have hshort := (hscan.suffix consumes_marker).length_le
          have hlong := afterBlanks_length (ms.flatten ++ (line ++ after))
          rw [List.length_cons] at hshort
          omega
    . cases hline.starts with
      | inl hempty => simp [hempty] at hbefore
      | inr hnl =>
        obtain ⟨_, hnl⟩ := hnl
        rw [hbefore] at hnl
        obtain ⟨front', hfront'⟩ := ends_behind (List.cons_ne_nil _ _) hnl
        cases front' with
        | nil => exact absurd (List.cons.inj hfront').1 hnewline
        | cons d front' => exact ⟨front', (List.cons.inj hfront').2⟩

omit hline htouch in
/--
Every line without a marker is left as a line exactly where no markers join it to another one.
-/
theorem keepsLines_iff : KeepsLines text ↔ ¬JoinsLine text := by
  constructor
  . exact fun hkeeps hjoins => not_keepsLines hjoins hkeeps
  . rintro hjoins before line after rfl hline htouch
    obtain ⟨before', hbefore⟩ := scan_to_line hline htouch
    obtain ⟨after', hafter⟩ := Scan.total consumes_marker after
    refine ⟨before', after', hbefore, scan_line hline htouch, hafter, ?_, hline.single, ?_⟩
    . exact starts_of_scan hline htouch hjoins hbefore
    . exact ends_of_scan hline hafter

end Lines

end PrdDocument

end AgenticPrd
