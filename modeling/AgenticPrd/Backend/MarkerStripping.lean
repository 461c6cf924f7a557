import AgenticPrd.Backend.MarkerLines

/-!
What `strip_completion_marker` removes from a text, and when a text keeps what it should.
-/

namespace AgenticPrd

namespace PrdDocument

open Erase

variable {text rest out : List Char}

-- The text after it was stripped of matches, and of nothing else.
inductive Erased : List Char → List Char → Prop where
  | nil : Erased [] []
  | keep {c : Char} {text out : List Char} (hrest : Erased text out) : Erased (c :: text) (c :: out)
  | erase {m text out : List Char} (hm : IsMatch m) (hrest : Erased text out) : Erased (m ++ text) out

/--
No marker is left, to strip the text again changes nothing, only markers were taken, and every line
without a marker is still a line.
-/
structure StripsMarkers (content : String) : Prop where
  clean : hasCompletionMarker (stripCompletionMarker content) = false
  idempotent : stripCompletionMarker (stripCompletionMarker content) = stripCompletionMarker content
  erased : Erased content.toList (stripCompletionMarker content).toList
  lines : KeepsLines content.toList

section Pass

theorem stripFrom_drop (n : Nat) (text : List Char) :
    stripFrom n text = stripFrom 0 (text.drop n) := by
  induction text generalizing n with
  | nil =>
    rw [List.drop_nil]
    cases n <;> rfl
  | cons c text ih =>
    cases n with
    | zero => rfl
    | succ n => exact ih n

theorem stripFrom_some {c : Char} (h : afterMarker? (c :: text) = some rest) :
    stripFrom 0 (c :: text) = stripFrom 0 rest := by
  obtain ⟨m, hne, heq⟩ := consumes_marker _ _ h
  cases m with
  | nil => contradiction
  | cons d m =>
    rw [List.cons_append] at heq
    obtain ⟨_, rfl⟩ := List.cons.inj heq
    conv_lhs => unfold stripFrom
    rw [h]
    dsimp only
    rw [stripFrom_drop, List.length_append, Nat.add_sub_cancel, List.drop_left]

theorem stripFrom_none {c : Char} (h : afterMarker? (c :: text) = none) :
    stripFrom 0 (c :: text) = c :: stripFrom 0 text := by
  conv_lhs => unfold stripFrom
  rw [h]

theorem stripFrom_eq_of_scan (h : Scan afterMarker? text rest out) (hend : rest = []) :
    stripFrom 0 text = out := by
  induction h with
  | here =>
    subst hend
    rfl
  | @skip text text' rest out hmatch _ ih =>
    cases text with
    | nil => contradiction
    | cons c text => rw [stripFrom_some hmatch, ih hend]
  | keep hnone _ ih => rw [stripFrom_none hnone, ih hend]

-- `stripFrom` is the pass over the whole text.
theorem scan_stripFrom (text : List Char) : Scan afterMarker? text [] (stripFrom 0 text) := by
  obtain ⟨out, hout⟩ := Scan.total consumes_marker text
  rw [stripFrom_eq_of_scan hout rfl]
  exact hout

theorem erased_of_scan (h : Scan afterMarker? text rest out) (hend : rest = []) :
    Erased text out := by
  induction h with
  | here =>
    subst hend
    exact .nil
  | skip hmatch _ ih =>
    obtain ⟨m, _, rfl⟩ := consumes_marker _ _ hmatch
    exact .erase (isMatch_of_matches hmatch) (ih hend)
  | keep _ _ ih => exact .keep (ih hend)

theorem hasMarker_iff_tails :
    HasMarker text ↔ ∃ tail ∈ text.tails, (afterMarker? tail).isSome = true := by
  constructor
  . rintro ⟨before, k, after, rfl, hk⟩
    refine ⟨k ++ after, (List.mem_tails _ _).mpr (List.suffix_append _ _), ?_⟩
    have hmatch := afterMarker?_eq (by simp [AllBlank] : AllBlank []) hk after
    rw [List.nil_append] at hmatch
    rw [hmatch]
    rfl
  . rintro ⟨tail, htail, hsome⟩
    obtain ⟨before, rfl⟩ := (List.mem_tails _ _).mp htail
    obtain ⟨rest, hmatch⟩ := Option.isSome_iff_exists.mp hsome
    obtain ⟨blanks, k, text', _, hk, rfl, _⟩ := of_afterMarker? hmatch
    exact ⟨before ++ blanks, k, text', by simp, hk⟩

theorem hasCompletionMarker_iff (content : String) :
    hasCompletionMarker content = true ↔ HasMarker content.toList := by
  unfold hasCompletionMarker
  rw [List.any_eq_true, hasMarker_iff_tails]

theorem stripFrom_of_not_hasMarker (h : ¬HasMarker text) : stripFrom 0 text = text := by
  induction text with
  | nil => rfl
  | cons c text ih =>
    rw [stripFrom_none]
    . rw [ih]
      rintro ⟨before, k, after, rfl, hk⟩
      exact h ⟨c :: before, k, after, rfl, hk⟩
    . rw [Option.eq_none_iff_forall_ne_some]
      intro rest hfound
      obtain ⟨blanks, k, text', _, hk, htext, _⟩ := of_afterMarker? hfound
      exact h ⟨blanks, k, text', htext, hk⟩

end Pass

section Strip

theorem stripCompletionMarker_toList (content : String) :
    (stripCompletionMarker content).toList = stripFrom 0 content.toList :=
  String.toList_ofList

theorem hasMarker_strip_iff (content : String) :
    HasMarker (stripCompletionMarker content).toList ↔ HasInterrupted content.toList := by
  rw [stripCompletionMarker_toList]
  exact hasMarker_scan_iff (scan_stripFrom _)

theorem strip_of_not_hasMarker {content : String} (h : ¬HasMarker content.toList) :
    stripCompletionMarker content = content := by
  unfold stripCompletionMarker
  rw [stripFrom_of_not_hasMarker h]
  exact String.ofList_toList

/--
Stripping does what it should exactly on the texts in which no markers stand inside of a marker, and
none take the newline in front of a line that they join to a text before them.
-/
theorem stripsMarkers_iff (content : String) :
    StripsMarkers content ↔ ¬HasInterrupted content.toList ∧ ¬JoinsLine content.toList := by
  constructor
  . intro h
    refine ⟨?_, keepsLines_iff.mp h.lines⟩
    rw [← hasMarker_strip_iff, ← hasCompletionMarker_iff, h.clean]
    exact Bool.false_ne_true
  . rintro ⟨hwhole, hjoins⟩
    rw [← hasMarker_strip_iff] at hwhole
    refine ⟨?_, strip_of_not_hasMarker hwhole, ?_, keepsLines_iff.mpr hjoins⟩
    . rw [← Bool.not_eq_true, hasCompletionMarker_iff]
      exact hwhole
    . rw [stripCompletionMarker_toList]
      exact erased_of_scan (scan_stripFrom _) rfl

theorem not_stripsMarkers :
    stripCompletionMarker "<!-- PRD<!-- PRD_COMPLETE -->_COMPLETE -->\nfoo<!-- PRD_COMPLETE -->\nbar"
      = "<!-- PRD_COMPLETE -->\nfoobar"
      ∧
    ¬StripsMarkers "<!-- PRD<!-- PRD_COMPLETE -->_COMPLETE -->\nfoo<!-- PRD_COMPLETE -->\nbar" := by
  refine ⟨by decide +kernel, ?_⟩
  intro h
  have := h.clean
  revert this
  decide +kernel

end Strip

end PrdDocument

end AgenticPrd
