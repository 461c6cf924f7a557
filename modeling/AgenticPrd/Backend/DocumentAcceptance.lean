import AgenticPrd.Backend.MarkerStripping

/-!
Which generated documents `validate_generated_prd` accepts.
-/

namespace AgenticPrd

namespace PrdDocument

open Erase

variable {text rest out : List Char} {c : Char} {content : String} {finishReason : Option String}

-- Nothing but whitespace and markers.
inductive OnlyMarkers : List Char → Prop where
  | nil : OnlyMarkers []
  | space {c : Char} {text : List Char} (hc : isSpace c = true) (hrest : OnlyMarkers text) :
    OnlyMarkers (c :: text)
  | marker {k text : List Char} (hk : IsMarker k) (hrest : OnlyMarkers text) :
    OnlyMarkers (k ++ text)

-- The last thing that is written is a marker, except for whitespace and further markers.
def EndsWithMarker (text : List Char) : Prop :=
  ∃ before k tail, text = before ++ (k ++ tail) ∧ IsMarker k ∧ OnlyMarkers tail

def IsBlankText (text : List Char) : Prop :=
  ∀ c ∈ text, isSpace c = true

/--
A document is returned for a completion that is finished in both ways, and it holds no marker.
-/
structure Accepts (content : String) (finishReason : Option String) : Prop where
  returns :
    (∃ document, validateGeneratedPrd content finishReason = .ok document)
      ↔
    classifyFinishReason finishReason = .complete
      ∧
    EndsWithMarker content.toList
      ∧
    ¬IsBlankText (stripCompletionMarker content).toList
  clean : ∀ document, validateGeneratedPrd content finishReason = .ok document →
    hasCompletionMarker document = false

section Blank

theorem OnlyMarkers.of_gap {k : List Char} (hk : IsMarker k) (h : OnlyMarkers (k ++ text)) :
    OnlyMarkers text := by
  generalize hwhole : k ++ text = whole at h
  obtain ⟨tail, rfl, _⟩ := hk.head
  cases h with
  | nil => contradiction
  | space hc _ =>
    obtain ⟨rfl, _⟩ := List.cons.inj hwhole
    contradiction
  | marker hk' hrest =>
    obtain ⟨_, rfl⟩ := hk.unique hk' hwhole
    exact hrest

theorem OnlyMarkers.of_space (hc : isSpace c = true) (h : OnlyMarkers (c :: text)) :
    OnlyMarkers text := by
  generalize hwhole : c :: text = whole at h
  cases h with
  | nil => contradiction
  | space _ hrest =>
    obtain ⟨_, rfl⟩ := List.cons.inj hwhole
    exact hrest
  | marker hk _ =>
    obtain ⟨tail, rfl, _⟩ := hk.head
    obtain ⟨rfl, _⟩ := List.cons.inj hwhole
    contradiction

theorem OnlyMarkers.of_spaces {spaces : List Char} (hspaces : IsBlankText spaces)
    (h : OnlyMarkers (spaces ++ text)) : OnlyMarkers text := by
  induction spaces with
  | nil => exact h
  | cons c spaces ih =>
    obtain ⟨hc, hspaces⟩ := List.forall_mem_cons.mp hspaces
    exact ih hspaces (h.of_space hc)

theorem OnlyMarkers.spaces {spaces : List Char} (hspaces : IsBlankText spaces)
    (h : OnlyMarkers text) : OnlyMarkers (spaces ++ text) := by
  induction spaces with
  | nil => exact h
  | cons c spaces ih =>
    obtain ⟨hc, hspaces⟩ := List.forall_mem_cons.mp hspaces
    exact .space hc (ih hspaces)

theorem isSpace_of_isGap (h : IsGap c) : isSpace c = true := by
  cases h with
  | inl hblank => exact isSpace_of_isBlank hblank
  | inr hnewline =>
    rw [hnewline]
    rfl

theorem onlyMarkers_afterMarker? (h : afterMarker? text = some rest) :
    OnlyMarkers text ↔ OnlyMarkers rest := by
  obtain ⟨blanks, k, text', hblanks, hk, rfl, rfl⟩ := of_afterMarker? h
  obtain ⟨gaps, hgaps, htext⟩ := gaps_afterBlanks text'
  have hblanks' : IsBlankText blanks := fun c hc => isSpace_of_isBlank (hblanks c hc)
  have hgaps' : IsBlankText gaps := fun c hc => isSpace_of_isGap (hgaps c hc)
  constructor
  . intro honly
    have hafter := (honly.of_spaces hblanks').of_gap hk
    rw [htext] at hafter
    exact hafter.of_spaces hgaps'
  . intro honly
    rw [htext]
    exact .spaces hblanks' (.marker hk (.spaces hgaps' honly))

theorem onlyMarkers_cons (hnone : afterMarker? (c :: text) = none) :
    OnlyMarkers (c :: text) ↔ isSpace c = true ∧ OnlyMarkers text := by
  constructor
  . intro honly
    generalize hwhole : c :: text = whole at honly
    cases honly with
    | nil => contradiction
    | space hc hrest =>
      obtain ⟨rfl, rfl⟩ := List.cons.inj hwhole
      exact ⟨hc, hrest⟩
    | marker hk _ =>
      have hmatch := afterMarker?_eq (by simp [AllBlank] : AllBlank []) hk
      rw [hwhole] at hnone
      exact absurd hnone (by rw [← List.nil_append (_ ++ _), hmatch]; simp)
  . exact fun h => .space h.1 h.2

-- What is left without the markers is blank if there was nothing else.
theorem isBlankText_iff_of_scan (h : Scan afterMarker? text rest out) (hend : rest = []) :
    IsBlankText out ↔ OnlyMarkers text := by
  induction h with
  | here =>
    subst hend
    exact ⟨fun _ => .nil, fun _ => nofun⟩
  | skip hmatch _ ih => rw [ih hend, onlyMarkers_afterMarker? hmatch]
  | keep hnone _ ih =>
    rw [onlyMarkers_cons hnone, ← ih hend]
    exact List.forall_mem_cons

theorem isBlankText_strip_iff :
    IsBlankText (stripCompletionMarker content).toList ↔ OnlyMarkers content.toList := by
  rw [stripCompletionMarker_toList]
  exact isBlankText_iff_of_scan (scan_stripFrom _) rfl

end Blank

section Trim

theorem HasMarker.of_spaces {spaces : List Char} (hspaces : IsBlankText spaces)
    (h : HasMarker (spaces ++ text)) : HasMarker text := by
  induction spaces with
  | nil => exact h
  | cons c spaces ih =>
    obtain ⟨hc, hspaces⟩ := List.forall_mem_cons.mp hspaces
    apply ih hspaces
    obtain ⟨before, k, after, htext, hk⟩ := h
    cases before with
    | nil =>
      obtain ⟨tail, rfl, _⟩ := hk.head
      obtain ⟨rfl, _⟩ := List.cons.inj htext
      contradiction
    | cons d before => exact ⟨before, k, after, (List.cons.inj htext).2, hk⟩

theorem HasMarker.of_trailing {spaces : List Char} (hspaces : IsBlankText spaces)
    (h : HasMarker (text ++ spaces)) : HasMarker text := by
  induction spaces generalizing text with
  | nil =>
    rw [List.append_nil] at h
    exact h
  | cons c spaces ih =>
    obtain ⟨hc, hspaces⟩ := List.forall_mem_cons.mp hspaces
    have hrest : HasMarker (text ++ [c]) := by
      apply ih hspaces
      rw [List.append_assoc]
      exact h
    obtain ⟨before, k, after, htext, hk⟩ := hrest
    cases List.eq_nil_or_concat' after with
    | inl hnil =>
      obtain ⟨front, rfl, _⟩ := hk.last
      rw [hnil, List.append_nil, ← List.append_assoc] at htext
      have hlast := List.cons.inj (List.append_inj_right' htext rfl)
      rw [hlast.1] at hc
      contradiction
    | inr hconcat =>
      obtain ⟨after, d, rfl⟩ := hconcat
      rw [← List.append_assoc, ← List.append_assoc] at htext
      refine ⟨before, k, after, ?_, hk⟩
      rw [List.append_inj_left' htext rfl, List.append_assoc]

theorem strip_split (text : List Char) :
    ∃ front back, IsBlankText front ∧ IsBlankText back ∧ text = front ++ (strip text ++ back) := by
  obtain ⟨front, hfront, htext⟩ := dropWhile_split isSpace text
  refine ⟨front, (text.dropWhile isSpace).rtakeWhile isSpace, hfront, ?_, ?_⟩
  . exact fun c hc => List.mem_rtakeWhile_imp hc
  . unfold strip
    rw [List.rdropWhile_append_rtakeWhile]
    exact htext

-- A marker neither starts nor ends with whitespace.
theorem hasMarker_strip (text : List Char) : HasMarker (strip text) ↔ HasMarker text := by
  obtain ⟨front, back, hfront, hback, htext⟩ := strip_split text
  constructor
  . rintro ⟨before, k, after, hstrip, hk⟩
    refine ⟨front ++ before, k, after ++ back, ?_, hk⟩
    rw [htext, hstrip]
    simp
  . intro hmarker
    rw [htext] at hmarker
    exact (hmarker.of_spaces hfront).of_trailing hback

theorem isEmpty_strip (text : List Char) : (strip text).isEmpty = true ↔ IsBlankText text := by
  rw [List.isEmpty_iff]
  constructor
  . intro hnil
    obtain ⟨front, back, hfront, hback, htext⟩ := strip_split text
    rw [hnil, List.nil_append] at htext
    rw [htext]
    exact List.forall_mem_append.mpr ⟨hfront, hback⟩
  . intro hblank
    unfold strip
    rw [List.dropWhile_eq_nil_iff.mpr hblank]
    rfl

end Trim

section Accept

theorem EndsWithMarker.hasMarker (h : EndsWithMarker text) : HasMarker text := by
  obtain ⟨before, k, tail, htext, hk, _⟩ := h
  exact ⟨before, k, tail, htext, hk⟩

theorem OnlyMarkers.getLast? (h : OnlyMarkers text) :
    ∀ c ∈ text.getLast?, isSpace c = true ∨ c = '>' := by
  induction h with
  | nil => nofun
  | @space c text hc hrest ih =>
    cases text with
    | nil =>
      intro d hd
      obtain rfl := Option.some.inj hd
      exact .inl hc
    | cons d text =>
      rw [List.getLast?_cons_cons]
      exact ih
  | @marker k text hk hrest ih =>
    obtain ⟨front, rfl, _⟩ := hk.last
    cases text with
    | nil => simp
    | cons d text =>
      rw [List.getLast?_append_of_ne_nil _ (List.cons_ne_nil _ _)]
      exact ih

theorem EndsWithMarker.getLast? (h : EndsWithMarker text) :
    ∀ c ∈ text.getLast?, isSpace c = true ∨ c = '>' := by
  obtain ⟨before, k, tail, rfl, hk, honly⟩ := h
  have hlast := (OnlyMarkers.marker hk honly).getLast?
  have hne : k ++ tail ≠ [] := by
    obtain ⟨_, rfl, _⟩ := hk.head
    exact List.cons_ne_nil _ _
  rw [List.getLast?_append_of_ne_nil _ hne]
  exact hlast

theorem validateGeneratedPrd_eq_ok {document : String} :
    validateGeneratedPrd content finishReason = .ok document
      ↔
    classifyFinishReason finishReason = .complete
      ∧
    HasMarker content.toList
      ∧
    ¬OnlyMarkers content.toList
      ∧
    document = String.ofList (strip (stripCompletionMarker content).toList) := by
  rw [← isBlankText_strip_iff, ← isEmpty_strip, ← hasCompletionMarker_iff]
  unfold validateGeneratedPrd
  split
  . next heq => simp [heq, throw, throwThe, MonadExceptOf.throw]
  . next heq => simp [heq, throw, throwThe, MonadExceptOf.throw]
  . next heq => simp [heq, throw, throwThe, MonadExceptOf.throw]
  . next heq =>
    rw [heq]
    split
    . next hmarker =>
      dsimp only
      split
      . next hempty => simp [hempty, throw, throwThe, MonadExceptOf.throw]
      . next hempty =>
        simp only [pure, Except.pure, Except.ok.injEq, hmarker, true_and]
        exact ⟨fun h => ⟨hempty, h.symm⟩, fun h => h.2.symm⟩
    . next hmarker => simp [hmarker, throw, throwThe, MonadExceptOf.throw]

theorem hasCompletionMarker_document :
    hasCompletionMarker (String.ofList (strip (stripCompletionMarker content).toList)) = true
      ↔
    HasInterrupted content.toList := by
  rw [hasCompletionMarker_iff, String.toList_ofList, hasMarker_strip, hasMarker_strip_iff]

/--
The completions that are accepted are the right ones as long as every finished one with a marker in
it, and with more than markers, ends with a marker and has none inside of another.
-/
theorem accepts_iff (content : String) (finishReason : Option String) :
    Accepts content finishReason
      ↔
    (
      classifyFinishReason finishReason = .complete →
      HasMarker content.toList →
      ¬OnlyMarkers content.toList →
      EndsWithMarker content.toList ∧ ¬HasInterrupted content.toList
    ) := by
  constructor
  . intro h hcomplete hmarker honly
    have hok := validateGeneratedPrd_eq_ok.mpr ⟨hcomplete, hmarker, honly, rfl⟩
    refine ⟨(h.returns.mp ⟨_, hok⟩).2.1, ?_⟩
    rw [← hasCompletionMarker_document, h.clean _ hok]
    exact Bool.false_ne_true
  . intro h
    constructor
    . rw [isBlankText_strip_iff]
      constructor
      . rintro ⟨document, hok⟩
        obtain ⟨hcomplete, hmarker, honly, _⟩ := validateGeneratedPrd_eq_ok.mp hok
        exact ⟨hcomplete, (h hcomplete hmarker honly).1, honly⟩
      . rintro ⟨hcomplete, hends, honly⟩
        exact ⟨_, validateGeneratedPrd_eq_ok.mpr ⟨hcomplete, hends.hasMarker, honly, rfl⟩⟩
    . intro document hok
      obtain ⟨hcomplete, hmarker, honly, rfl⟩ := validateGeneratedPrd_eq_ok.mp hok
      rw [← Bool.not_eq_true, hasCompletionMarker_document]
      exact (h hcomplete hmarker honly).2

-- The answer breaks off in the middle of a word, behind a marker that came too early.
theorem not_accepts :
    (validateGeneratedPrd "# PRD\n<!-- PRD_COMPLETE -->\n## Sco" (some "stop")).toOption
      = some "# PRD\n## Sco"
      ∧
    ¬Accepts "# PRD\n<!-- PRD_COMPLETE -->\n## Sco" (some "stop") := by
  refine ⟨by decide +kernel, ?_⟩
  intro h
  have hok : (validateGeneratedPrd "# PRD\n<!-- PRD_COMPLETE -->\n## Sco" (some "stop")).isOk := by
    decide +kernel
  cases hdocument : validateGeneratedPrd "# PRD\n<!-- PRD_COMPLETE -->\n## Sco" (some "stop") with
  | error e =>
    rw [hdocument] at hok
    contradiction
  | ok document =>
    have hlast := (h.returns.mp ⟨document, hdocument⟩).2.1.getLast? 'o' (by decide +kernel)
    revert hlast
    decide

end Accept

end PrdDocument

end AgenticPrd
