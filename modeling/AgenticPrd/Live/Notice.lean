import AgenticPrd.Backend.RunManager.Plans
import AgenticPrd.Client.FailureNotice
import AgenticPrd.Lib.Cut
import AgenticPrd.Live.Lineage
import AgenticPrd.Live.Mirror

/-!
What the notice of a failed run infers of the run: in a view that has followed its events, and in
one that is rebuilt from the final snapshot. The two agree unless the run has failed between the
plan for a version and the first event of its generation.
-/

namespace AgenticPrd

namespace Live

open RunManager Transition
open Client (RunViewState VersionDraft Drafts receive failureNotice factsFromState completedContent)

variable {isoformat : Timestamp → String} {view : RunViewState} {base old s new : RunSnapshot}
  {e : RunEvent}

section Versions

-- The versions that have been committed.
def numbers (s : RunSnapshot) : List ℚ :=
  s.versions.map fun version => (version.version : ℚ)

theorem numbers_eq (h : Orderly s) :
    numbers s = (List.range' 1 s.versions.length).map (Nat.cast : Nat → ℚ) := by
  rw [← h.numbered, List.map_map]
  rfl

theorem mem_numbers (h : Orderly s) {key : ℚ} :
    key ∈ numbers s ↔ ∃ n : Nat, (1 ≤ n ∧ n ≤ s.versions.length) ∧ (n : ℚ) = key := by
  rw [numbers_eq h, List.mem_map]
  apply exists_congr
  intro n
  rw [List.mem_range'_1]
  apply and_congr_left
  intro _
  omega

theorem numbers_increasing (h : Orderly s) : (numbers s).Pairwise (· < ·) := by
  have hrange : (List.range' 1 s.versions.length).Pairwise (· < ·) := List.pairwise_lt_range'
  rw [numbers_eq h, List.pairwise_map]
  apply hrange.imp
  intro a b hlt
  exact_mod_cast hlt

theorem storedContent_ne_none {versions : List PRDVersion} {key : ℚ} :
    storedContent versions key ≠ none ↔ key ∈ versions.map fun version => (version.version : ℚ) := by
  unfold storedContent
  rw [ne_eq, Option.map_eq_none_iff, Record.get?_eq_none_iff, not_not]
  unfold Client.versionsFromSnapshot
  rw [Record.mem_keys_update]
  unfold Record.keys
  rw [List.map_map, List.map_map]
  simp only [List.map_nil, List.not_mem_nil, false_or]
  rfl

theorem storedReviews_ne_none {version : PRDVersion} (hmem : version ∈ s.versions)
    (h : version.evaluation ≠ none) : storedReviews s version.version ≠ none := by
  unfold storedReviews
  split
  . simp
  . rw [ne_eq, Record.get?_eq_none_iff, not_not]
    unfold evaluatedReviews judged
    rw [Record.mem_keys_update]
    right
    obtain ⟨evaluation, hevaluation⟩ := Option.ne_none_iff_exists'.mp h
    unfold Record.keys
    rw [List.map_filterMap, List.mem_filterMap]
    refine ⟨version.wire, List.mem_map_of_mem hmem, ?_⟩
    simp [PRDVersion.wire, hevaluation]

end Versions

section Drafts

-- The drafts of versions up to that of the iteration, each under its own version.
structure Drafted (drafts : Drafts) (iteration : Nat) : Prop where
  nodup : (Record.keys drafts).Nodup
  version : ∀ entry ∈ drafts, entry.2.version = entry.1
  le : ∀ key ∈ Record.keys drafts, ∃ n ≤ iteration, (n : ℚ) = key

variable {drafts : Drafts} {iteration later : Nat}

theorem Drafted.mono (h : Drafted drafts iteration) (hle : iteration ≤ later) :
    Drafted drafts later := by
  refine ⟨h.nodup, h.version, ?_⟩
  intro key hkey
  obtain ⟨n, hn, heq⟩ := h.le key hkey
  exact ⟨n, hn.trans hle, heq⟩

theorem Drafted.set (h : Drafted drafts iteration) {n : Nat} {draft : VersionDraft}
    (hn : n ≤ iteration) (hdraft : draft.version = n) :
    Drafted (Record.set drafts n draft) iteration := by
  constructor
  . exact Record.nodup_keys_set h.nodup
  . intro entry hentry
    rcases Record.mem_set hentry with hold | rfl
    . exact h.version entry hold
    . exact hdraft
  . intro key hkey
    rcases Record.mem_keys_set.mp hkey with hold | rfl
    . exact h.le key hold
    . exact ⟨n, hn, rfl⟩

theorem Drafted.completed (h : Drafted drafts iteration) {key : ℚ} :
    key ∈ ((drafts.map Prod.snd).filter VersionDraft.complete).map VersionDraft.version
      ↔
    completedContent drafts key ≠ none := by
  unfold completedContent
  rw [ne_eq, Option.map_eq_none_iff]
  constructor
  . intro hkey
    obtain ⟨draft, hdraft, rfl⟩ := List.mem_map.mp hkey
    obtain ⟨hmem, hcomplete⟩ := List.mem_filter.mp hdraft
    obtain ⟨⟨key, draft⟩, hentry, rfl⟩ := List.mem_map.mp hmem
    have hversion : draft.version = key := h.version _ hentry
    dsimp only at hcomplete ⊢
    rw [hversion, Record.get?_of_mem h.nodup hentry]
    simp [Option.filter, hcomplete]
  . intro hsome
    obtain ⟨draft, hdraft⟩ := Option.ne_none_iff_exists'.mp hsome
    rw [Option.filter_eq_some_iff] at hdraft
    have hentry := Record.mem_of_get? hdraft.1
    rw [List.mem_map]
    refine ⟨draft, ?_, h.version _ hentry⟩
    rw [List.mem_filter]
    exact ⟨List.mem_map_of_mem hentry, hdraft.2⟩

theorem Drafted.load (h : Orderly s) :
    Drafted (Client.draftsFromSnapshot s.wire) s.currentIteration := by
  have hversions : Drafted (Client.versionsFromSnapshot s.wire.versions) s.currentIteration := by
    unfold Client.versionsFromSnapshot
    constructor
    . exact Record.nodup_keys_update List.nodup_nil
    . intro entry hentry
      rcases Record.mem_update hentry with hnil | hmem
      . contradiction
      . obtain ⟨version, _, rfl⟩ := List.mem_map.mp hmem
        rfl
    . intro key hkey
      rw [Record.mem_keys_update] at hkey
      unfold Record.keys at hkey
      rw [List.map_map] at hkey
      obtain ⟨wire, hwire, rfl⟩ := List.mem_map.mp (hkey.resolve_left (by simp))
      obtain ⟨version, hmem, rfl⟩ := List.mem_map.mp hwire
      refine ⟨version.version, ?_, rfl⟩
      have hle := h.version_le hmem
      rcases h.iteration with heq | heq <;> omega
  unfold Client.draftsFromSnapshot
  dsimp only
  split
  . exact hversions.set (Nat.le_refl _) rfl
  . exact hversions

end Drafts

section Sees

/--
What a view that has loaded the snapshot `base` and taken the events behind it has of the run. It
keeps the versions of `base` beside the drafts that it has been told of.
-/
structure Sees (base : RunSnapshot) (view : RunViewState) (s : RunSnapshot) : Prop where
  start : Orderly base
  orderly : Orderly s
  coherent : Coherent s
  later : base.currentIteration ≤ s.currentIteration
  grown : base.versions.length ≤ s.versions.length
  settled : Settled base.versions s.versions
  loaded : view.snapshot.map Client.committed = some (Client.committed base.wire)
  shown : Client.shown view = stored s
  drafts : Drafted view.drafts s.currentIteration
  planned : view.revisionPlansBySourceVersion ≠ [] ↔ s.plans ≠ []
  pending : view.pendingRevisionPlan ≠ .null → s.plans ≠ []
  based : base.plans ≠ [] → s.plans ≠ []

-- The view has the iteration of the server from its snapshot, or from a draft.
def Knows (base : RunSnapshot) (view : RunViewState) (s : RunSnapshot) : Prop :=
  base.currentIteration = s.currentIteration
    ∨
  (s.currentIteration : ℚ) ∈ Record.keys view.drafts

theorem loaded_versions
    (h : view.snapshot.map Client.committed = some (Client.committed base.wire)) :
    Client.snapshotVersions view = base.wire.versions
      ∧
    (view.snapshot.map Client.RunSnapshot.currentIteration).getD 1 = base.currentIteration := by
  obtain ⟨shot, hshot, hcommitted⟩ := Option.map_eq_some_iff.mp h
  unfold Client.snapshotVersions
  rw [hshot]
  exact ⟨congrArg Prod.fst hcommitted, congrArg Prod.snd hcommitted⟩

theorem Sees.numbers_subset (h : Sees base view s) : numbers base ⊆ numbers s := by
  intro key hkey
  obtain ⟨n, hn, heq⟩ := (mem_numbers h.start).mp hkey
  have hgrown := h.grown
  exact (mem_numbers h.orderly).mpr ⟨n, by omega, heq⟩

theorem Sees.mem_completed (h : Sees base view s) {key : ℚ} :
    key ∈ (Client.snapshotVersions view).map Client.PRDVersion.version
        ++ ((view.drafts.map Prod.snd).filter VersionDraft.complete).map VersionDraft.version
      ↔
    key ∈ numbers s := by
  have hshown := congrFun (congrArg Client.Shown.completed h.shown) key
  rw [stored_completed] at hshown
  change completedContent view.drafts key = storedContent s.versions key at hshown
  rw [List.mem_append, h.drafts.completed, hshown, storedContent_ne_none,
    (loaded_versions h.loaded).1]
  apply or_iff_right_of_imp
  intro hkey
  apply h.numbers_subset
  unfold RunSnapshot.wire at hkey
  rw [List.map_map] at hkey
  exact hkey

theorem Sees.completedVersions (h : Sees base view s) :
    (factsFromState view).completedVersions = numbers s := by
  have hincreasing := numbers_increasing h.orderly
  apply List.Perm.eq_of_pairwise' (r := fun a b : ℚ => a ≤ b)
  . exact List.pairwise_insertionSort _ _
  . exact hincreasing.imp le_of_lt
  . apply (List.perm_insertionSort _ _).trans
    rw [List.perm_ext_iff_of_nodup (List.nodup_dedup _) hincreasing.nodup]
    intro key
    rw [List.mem_dedup]
    exact h.mem_completed

theorem foldl_max_eq {l : List ℚ} {first greatest : ℚ} (hmem : greatest = first ∨ greatest ∈ l)
    (hfirst : first ≤ greatest) (hle : ∀ a ∈ l, a ≤ greatest) : l.foldl max first = greatest := by
  induction l generalizing first with
  | nil => simpa [eq_comm] using hmem
  | cons a l ih =>
    rw [List.forall_mem_cons] at hle
    apply ih _ (max_le hfirst hle.1) hle.2
    rcases hmem with rfl | hmem
    . exact .inl (max_eq_left hle.1).symm
    . rcases List.mem_cons.mp hmem with rfl | hrest
      . exact .inl (max_eq_right hfirst).symm
      . exact .inr hrest

theorem Sees.known_le (h : Sees base view s) {key : ℚ}
    (hkey : key ∈ Record.keys view.drafts ∨ key ∈ numbers s) :
    ∃ n ≤ s.currentIteration, (n : ℚ) = key := by
  rcases hkey with hdraft | hnumber
  . exact h.drafts.le key hdraft
  . obtain ⟨n, hn, heq⟩ := (mem_numbers h.orderly).mp hnumber
    refine ⟨n, ?_, heq⟩
    rcases h.orderly.iteration with hiteration | hiteration <;> omega

-- A version that is committed is in the snapshot of the view or in a draft.
theorem Sees.knows_committed (h : Sees base view s) (hnumber : (s.currentIteration : ℚ) ∈ numbers s) :
    Knows base view s := by
  rcases List.mem_append.mp (h.mem_completed.mpr hnumber) with hbase | hdraft
  . rw [(loaded_versions h.loaded).1] at hbase
    unfold RunSnapshot.wire at hbase
    rw [List.map_map] at hbase
    obtain ⟨n, hn, heq⟩ := (mem_numbers h.start).mp hbase
    rw [Nat.cast_inj] at heq
    have hlater := h.later
    left
    rcases h.start.iteration with hiteration | hiteration <;> omega
  . right
    have hcompleted := h.drafts.completed.mp hdraft
    rw [← not_not (a := _ ∈ _), ← Record.get?_eq_none_iff]
    intro hnone
    unfold completedContent at hcompleted
    rw [hnone] at hcompleted
    contradiction

theorem Sees.failedVersion_eq (h : Sees base view s) :
    ∃ known : List ℚ,
      (factsFromState view).failedVersion = known.foldl max (base.currentIteration : ℚ)
        ∧
      ∀ key, key ∈ known ↔ key ∈ Record.keys view.drafts ∨ key ∈ numbers s := by
  have hdrafts : (view.drafts.map Prod.snd).map VersionDraft.version = Record.keys view.drafts := by
    unfold Record.keys
    rw [List.map_map]
    exact List.map_congr_left h.drafts.version
  unfold factsFromState
  dsimp only
  rw [(loaded_versions h.loaded).2, hdrafts]
  refine ⟨_, rfl, ?_⟩
  intro key
  rw [List.mem_append, List.mem_dedup, h.mem_completed]

theorem Sees.failedVersion (h : Sees base view s) (hknows : Knows base view s) :
    (factsFromState view).failedVersion = s.currentIteration := by
  obtain ⟨known, hfailed, hknown⟩ := h.failedVersion_eq
  have hlater : (base.currentIteration : ℚ) ≤ s.currentIteration := by exact_mod_cast h.later
  rw [hfailed]
  apply foldl_max_eq _ hlater
  . intro key hkey
    obtain ⟨n, hn, rfl⟩ := h.known_le ((hknown key).mp hkey)
    exact_mod_cast hn
  . rcases hknows with hbase | hdraft
    . left
      rw [hbase]
    . exact .inr ((hknown _).mpr (.inl hdraft))

-- What the view takes for the version that has failed is the last one that is committed.
theorem Sees.failedVersion_unknown (h : Sees base view s) (hknows : ¬Knows base view s) :
    (factsFromState view).failedVersion ∈ numbers s := by
  have hlast : s.currentIteration = s.versions.length + 1 := by
    apply h.orderly.iteration.resolve_left
    intro hcommitted
    apply hknows
    apply h.knows_committed
    exact (mem_numbers h.orderly).mpr ⟨_, ⟨h.orderly.positive, hcommitted.le⟩, rfl⟩
  obtain ⟨hbase, hdraft⟩ := not_or.mp hknows
  have hearlier := h.later
  have hpositive := h.start.positive
  have hmem : (s.versions.length : ℚ) ∈ numbers s :=
    (mem_numbers h.orderly).mpr ⟨_, ⟨by omega, Nat.le_refl _⟩, rfl⟩
  obtain ⟨known, hfailed, hknown⟩ := h.failedVersion_eq
  have hgreatest : known.foldl max (base.currentIteration : ℚ) = s.versions.length := by
    apply foldl_max_eq
    . exact .inr ((hknown _).mpr (.inr hmem))
    . have hle : base.currentIteration ≤ s.versions.length := by omega
      exact_mod_cast hle
    . intro key hkey
      obtain ⟨n, hn, rfl⟩ := h.known_le ((hknown key).mp hkey)
      have hle : n ≤ s.versions.length := by
        rcases (hknown _).mp hkey with hkeys | hnumber
        . have hne : n ≠ s.currentIteration := by
            rintro rfl
            exact hdraft hkeys
          omega
        . obtain ⟨m, hm, heq⟩ := (mem_numbers h.orderly).mp hnumber
          rw [Nat.cast_inj] at heq
          omega
      exact_mod_cast hle
  rw [hfailed, hgreatest]
  exact hmem

theorem Sees.reviewedVersions (h : Sees base view s) {version : ℚ} :
    version ∈ (factsFromState view).reviewedVersions ↔ storedReviews s version ≠ none := by
  have hshown := congrFun (congrArg Client.Shown.reviews h.shown) version
  rw [stored_reviews] at hshown
  change Record.get? view.reviewsByVersion version = storedReviews s version at hshown
  have hkeys : version ∈ view.reviewsByVersion.map Prod.fst ↔ storedReviews s version ≠ none := by
    rw [← hshown, ne_eq, Record.get?_eq_none_iff, not_not]
    rfl
  unfold factsFromState
  dsimp only
  rw [List.mem_dedup, List.mem_append, hkeys, (loaded_versions h.loaded).1]
  apply or_iff_left_of_imp
  intro hevaluated
  obtain ⟨wire, hwire, rfl⟩ := List.mem_map.mp hevaluated
  obtain ⟨hmem, hsome⟩ := List.mem_filter.mp hwire
  obtain ⟨stored, hstored, rfl⟩ := List.mem_map.mp hmem
  have hevaluation : stored.evaluation ≠ none := by
    intro hnone
    simp [PRDVersion.wire, hnone] at hsome
  obtain ⟨i, hi⟩ := List.getElem?_of_mem hstored
  have hkept := List.mem_of_getElem? (h.settled i stored hi hevaluation)
  exact storedReviews_ne_none hkept hevaluation

theorem Sees.hasRevisionPlan (h : Sees base view s) :
    (factsFromState view).hasRevisionPlan = true ↔ s.plans ≠ [] := by
  unfold factsFromState
  dsimp only
  rw [(loaded_versions h.loaded).1, Bool.or_eq_true, Bool.or_eq_true]
  constructor
  . rintro ((hpending | hplanned) | hbase)
    . apply h.pending
      intro hnull
      rw [hnull] at hpending
      contradiction
    . apply h.planned.mp
      simpa using hplanned
    . apply h.based
      obtain ⟨wire, hwire, htruthy⟩ := List.any_eq_true.mp hbase
      obtain ⟨version, hmem, rfl⟩ := List.mem_map.mp hwire
      cases hplan : version.revisionPlan with
      | none => simp [PRDVersion.wire, hplan, Json.ofOption, Client.Value.truthy] at htruthy
      | some plan => exact List.ne_nil_of_mem (mem_plans hmem hplan)
  . intro hplans
    left
    right
    simpa using h.planned.mpr hplans

theorem Sees.best (h : Sees base view s) :
    (factsFromState view).bestVersion = (storedBest s).1
      ∧
    (factsFromState view).bestScore = (storedBest s).2 := by
  rw [← stored_best h.orderly, ← h.shown]
  exact ⟨rfl, rfl⟩

theorem Sees.agrees {base' : RunSnapshot} {view' : RunViewState} (h : Sees base view s)
    (h' : Sees base' view' s) (hknows : Knows base view s) (hknows' : Knows base' view' s) :
    (factsFromState view).Agrees (factsFromState view') :=
  {
    completedVersions := by rw [h.completedVersions, h'.completedVersions]
    failedVersion := by rw [h.failedVersion hknows, h'.failedVersion hknows']
    reviewedVersions := by
      intro version _
      rw [h.reviewedVersions, h'.reviewedVersions]
    hasRevisionPlan := by rw [Bool.eq_iff_iff, h.hasRevisionPlan, h'.hasRevisionPlan]
    bestVersion := by rw [h.best.1, h'.best.1]
    bestScore := by rw [h.best.2, h'.best.2]
  }

end Sees

section Notice

variable {text toFixed : ℚ → String}

/--
What the notice is to say of a failed run. There is one exactly when the iteration has no version.
It names the iteration and lists the versions that there are, or says that there is none.
-/
structure Describes (text : ℚ → String) (notice : Option Client.FailureNotice) (s : RunSnapshot) :
    Prop where
  unless_committed : notice ≠ none ↔ (s.currentIteration : ℚ) ∉ numbers s
  first :
    ∀ said ∈ notice, said.headline = Client.firstVersionHeadline ↔ s.versions = []
  named :
    ∀ said ∈ notice, s.versions ≠ [] → said.headline = Client.headline text s.currentIteration
  kept :
    ∀ said ∈ notice, s.versions ≠ [] →
      ∃ rest, said.detail = some (Client.survivors text (numbers s) ++ rest)

theorem Sees.status (h : Sees base view s) : view.status = some (.run s.status) :=
  congrArg Client.Shown.status h.shown

theorem Sees.loaded_isNone (h : Sees base view s) : view.snapshot.isNone = false := by
  obtain ⟨shot, hshot, _⟩ := Option.map_eq_some_iff.mp h.loaded
  rw [hshot]
  rfl

-- The versions that the notice lists are all that there are.
theorem numbers_before (h : Orderly s) (hnone : (s.currentIteration : ℚ) ∉ numbers s) :
    ((numbers s).filter fun version => version < (s.currentIteration : ℚ)) = numbers s := by
  rw [List.filter_eq_self]
  intro key hkey
  obtain ⟨n, hn, rfl⟩ := (mem_numbers h).mp hkey
  have hne : n ≠ s.currentIteration := by
    rintro rfl
    contradiction
  have hlt : n < s.currentIteration := by
    rcases h.iteration with hiteration | hiteration <;> omega
  simpa using hlt

theorem Sees.describes (h : Sees base view s) (hknows : Knows base view s)
    (hfailed : s.status = .failed) : Describes text (failureNotice text toFixed view) s := by
  have hstatus : view.status = some (.run .failed) := by rw [h.status, hfailed]
  obtain ⟨rest, hnotice⟩ := Client.failureNotice_eq hstatus h.loaded_isNone
  dsimp only at hnotice
  rw [h.completedVersions, h.failedVersion hknows] at hnotice
  by_cases hmem : (s.currentIteration : ℚ) ∈ numbers s
  . rw [hnotice, if_pos hmem]
    exact ⟨by simp [hmem], by simp, by simp, by simp⟩
  . rw [hnotice, if_neg hmem, numbers_before h.orderly hmem]
    have hempty : (numbers s).isEmpty = true ↔ s.versions = [] := by
      unfold numbers
      simp
    split
    . next hnone =>
      rw [hempty] at hnone
      exact ⟨by simp [hmem], by simp [hnone], by simp [hnone], by simp [hnone]⟩
    . next hsome =>
      rw [hempty] at hsome
      constructor
      . simp [hmem]
      . rintro said ⟨⟩
        simp [hsome, Client.headline_ne_first]
      . rintro said ⟨⟩ _
        rfl
      . rintro said ⟨⟩ _
        exact ⟨rest, rfl⟩

theorem Sees.silent (h : Sees base view s) (hknows : ¬Knows base view s) :
    failureNotice text toFixed view = none := by
  have hmem := h.failedVersion_unknown hknows
  rw [← h.completedVersions] at hmem
  unfold failureNotice
  split
  . rfl
  . split
    . rfl
    . exact if_pos hmem

end Notice

section Load

theorem truthy_plan (plan : Option RevisionPlan) :
    Client.Value.truthy (.ofOption (fun plan => .obj plan.dump) plan) = plan.isSome := by
  cases plan <;> rfl

theorem revisionPlansFromSnapshot_ne_nil :
    Client.revisionPlansFromSnapshot s.wire ≠ [] ↔ s.plans ≠ [] := by
  unfold Client.revisionPlansFromSnapshot
  dsimp only
  rw [ne_eq, Record.update_nil_eq_nil, List.append_eq_nil_iff, ne_eq, plans_eq_nil]
  unfold RunSnapshot.wire PRDVersion.wire
  simp only [truthy_plan, List.map_eq_nil_iff, List.filter_eq_nil_iff, List.forall_mem_map,
    Option.not_isSome_iff_eq_none, ite_eq_right_iff, List.cons_ne_nil, imp_false]

theorem Sees.load (h : Orderly s) (hcoherent : Coherent s) (before : RunViewState) :
    Sees s (Client.loadSnapshot before s.wire) s :=
  {
    start := h
    orderly := h
    coherent := hcoherent
    later := Nat.le_refl _
    grown := Nat.le_refl _
    settled := .refl _
    loaded := rfl
    shown := shown_loadSnapshot before s
    drafts := .load h
    planned := revisionPlansFromSnapshot_ne_nil
    pending := by
      intro hpending
      rw [ne_eq, plans_eq_nil]
      rintro ⟨_, hnone⟩
      apply hpending
      unfold Client.loadSnapshot RunSnapshot.wire
      rw [hnone]
      rfl
    based := id
  }

theorem knows_load (s : RunSnapshot) (view : RunViewState) : Knows s view s :=
  .inl rfl

end Load

section Told

-- What an event does to the drafts of a view.
theorem eventDrafts_cases (view : RunViewState) (event : Client.RunEvent) :
    (Client.eventDrafts view event = view.drafts
      ∧ (event.event.isStream = true →
        Client.eventVersion event ∈ Record.keys view.drafts
          ∨
        event.event = .prdDelta ∧ Client.numberPayload event.payload "attempt" 1 ≠ 1))
      ∨
    ∃ draft : VersionDraft, draft.version = Client.eventVersion event
      ∧ event.event.isStream = true
      ∧ Client.eventDrafts view event
        = Record.set view.drafts (Client.eventVersion event) draft := by
  have hkeys : ∀ {key : ℚ} {draft : VersionDraft}, Record.get? view.drafts key = some draft →
      key ∈ Record.keys view.drafts := by
    intro key draft hget
    exact Record.mem_keys (Record.mem_of_get? hget)
  unfold Client.eventDrafts
  cases event.event with
  | prdStreamReset =>
    dsimp only
    unfold Client.applyStreamReset
    dsimp only
    split
    . next current hcurrent =>
      split
      . exact .inl ⟨rfl, fun _ => .inl (hkeys hcurrent)⟩
      . exact .inr ⟨_, rfl, rfl, rfl⟩
    . exact .inr ⟨_, rfl, rfl, rfl⟩
  | prdDelta =>
    dsimp only
    rw [Client.applyDelta_eq]
    split
    . exact .inr ⟨_, rfl, rfl, rfl⟩
    . next hawaits =>
      left
      refine ⟨rfl, fun _ => ?_⟩
      cases hcurrent : Record.get? view.drafts (Client.eventVersion event) with
      | none =>
        rw [hcurrent] at hawaits
        exact .inr ⟨rfl, hawaits⟩
      | some current => exact .inl (hkeys hcurrent)
  | prdGenerated => exact .inr ⟨_, rfl, rfl, rfl⟩
  | _ => exact .inl ⟨rfl, fun h => by contradiction⟩

theorem Drafted.told (h : Drafted view.drafts old.currentIteration)
    (hchange : Change old (some e.event) e.payload s) :
    Drafted (Client.applyEvent view (e.wire isoformat)).drafts s.currentIteration := by
  rw [Client.applyEvent_drafts]
  apply Drafted.mono _ hchange.grown.1
  rcases eventDrafts_cases view (e.wire isoformat) with ⟨hsame, _⟩ | ⟨draft, hdraft, hstream, hset⟩
  . rw [hsame]
    exact h
  . obtain ⟨_, _, rest, hpayload⟩ := hchange.streams hstream
    have hversion : Client.eventVersion (e.wire isoformat) = old.currentIteration :=
      eventVersion_wire hpayload
    rw [hset, hversion]
    exact h.set (Nat.le_refl _) (hdraft.trans hversion)

-- A view does not forget a draft.
theorem keys_told {key : ℚ} (hkey : key ∈ Record.keys view.drafts) (event : Client.RunEvent) :
    key ∈ Record.keys (Client.applyEvent view event).drafts := by
  rw [Client.applyEvent_drafts]
  rcases eventDrafts_cases view event with ⟨hsame, _⟩ | ⟨draft, _, _, hset⟩
  . rw [hsame]
    exact hkey
  . rw [hset, Record.mem_keys_set]
    exact .inl hkey

theorem applyPlan_planned {next : RunViewState} {plan : RevisionPlan}
    (hpayload : e.payload = planPayload plan) :
    (Client.applyPlan view next (e.wire isoformat)).revisionPlansBySourceVersion ≠ [] := by
  have hfield : Client.Value.field (.obj (e.wire isoformat).payload) "revision_plan"
      = .obj plan.dump := by
    unfold RunEvent.wire
    dsimp only
    rw [hpayload]
    exact planned_field plan
  have htruthy : Client.Value.truthy (.obj plan.dump) = true := rfl
  unfold Client.applyPlan
  dsimp only
  rw [hfield, if_pos htruthy]
  exact Record.set_ne_nil

theorem Sees.told (h : Sees base view old) (hchange : Change old (some e.event) e.payload s)
    (hiteration : e.iteration = s.currentIteration) :
    Sees base (Client.applyEvent view (e.wire isoformat)) s := by
  have hplans := hchange.plans_ne_nil h.coherent
  exact {
    start := h.start
    orderly := h.orderly.change hchange
    coherent := h.coherent.change hchange
    later := h.later.trans hchange.grown.1
    grown := h.grown.trans hchange.grown.2
    settled := h.settled.trans hchange.settled
    loaded := by
      rw [Client.applyEvent_committed]
      exact h.loaded
    shown := Live.told h.orderly h.shown hchange hiteration
    drafts := h.drafts.told hchange
    planned := by
      rcases hchange.plans h.coherent with ⟨hsame, hne⟩ | ⟨plan, hevent, hpayload, hgrown, _⟩
      . rw [Client.applyEvent_plans_other (Option.some_inj.not.mp hne), hsame]
        exact h.planned
      . rw [Option.some_inj] at hevent
        have hwire : (e.wire isoformat).event = .revisionPlanned := hevent
        rw [hgrown]
        simp only [ne_eq, List.append_eq_nil_iff, List.cons_ne_nil, and_false, not_false_eq_true,
          iff_true]
        unfold Client.applyEvent
        dsimp only
        rw [hwire]
        exact applyPlan_planned hpayload
    pending := by
      intro hpending
      rcases hchange.plans h.coherent with ⟨hsame, hne⟩ | ⟨_, _, _, hgrown, _⟩
      . rw [hsame]
        apply h.pending
        rw [Client.applyEvent_pendingRevisionPlan_other (Option.some_inj.not.mp hne)] at hpending
        exact hpending
      . rw [hgrown]
        simp
    based := fun hbase => hplans (h.based hbase)
  }

theorem Sees.unseen {event : Option RunEventType} {payload : Payload} (h : Sees base view old)
    (hchange : Change old event payload s) (hunseen : event = none ∨ old.status.isTerminal = true) :
    Sees base view s := by
  have hplans := hchange.plans_quiet h.coherent hunseen
  exact {
    start := h.start
    orderly := h.orderly.change hchange
    coherent := h.coherent.change hchange
    later := h.later.trans hchange.grown.1
    grown := h.grown.trans hchange.grown.2
    settled := h.settled.trans hchange.settled
    loaded := h.loaded
    shown := by
      rw [stored_unseen hchange hunseen]
      exact h.shown
    drafts := h.drafts.mono hchange.grown.1
    planned := by
      rw [hplans]
      exact h.planned
    pending := by
      rw [hplans]
      exact h.pending
    based := by
      rw [hplans]
      exact h.based
  }

theorem Sees.stamped {sequence : Nat} (h : Sees base view s) (hstamped : Stamped s sequence new) :
    Sees base view new := by
  have hstored := stored_stamped hstamped
  have horderly := h.orderly.stamped hstamped
  have hcoherent := h.coherent.stamped hstamped
  obtain ⟨now, elapsed, _, rfl⟩ := hstamped
  exact {
    start := h.start
    orderly := horderly
    coherent := hcoherent
    later := h.later
    grown := h.grown
    settled := h.settled
    loaded := h.loaded
    shown := by
      rw [hstored]
      exact h.shown
    drafts := h.drafts
    planned := h.planned
    pending := h.pending
    based := h.based
  }

end Told

section Watches

open Cut

variable {prior journal : List Commit} {log : List RunEvent}

-- Every plan has been followed by an event of the generation that it was made for.
def Foreseen (log : List RunEvent) : Prop :=
  Followed (fun e => e.event = .revisionPlanned) (fun e => e.event.isStream = true) log

-- The run is open, or has failed.
def Going (s : RunSnapshot) : Prop :=
  s.status.isTerminal = true → s.status = .failed

theorem foreseen_planned (h : e.event = .revisionPlanned) : ¬Foreseen (log ++ [e]) := by
  unfold Foreseen
  rw [followed_concat]
  exact fun hforeseen => hforeseen.2 h

theorem foreseen_streamed (h : e.event.isStream = true) : Foreseen (log ++ [e]) := by
  unfold Foreseen
  rw [followed_concat]
  refine ⟨.inl h, ?_⟩
  intro hplanned
  rw [hplanned] at h
  contradiction

theorem foreseen_other (hstream : e.event.isStream ≠ true) (hplanned : e.event ≠ .revisionPlanned) :
    Foreseen (log ++ [e]) ↔ Foreseen log := by
  unfold Foreseen
  rw [followed_concat]
  simp only [hstream, hplanned, Bool.false_eq_true, false_or, not_false_eq_true, and_true]

theorem Knows.keep {view' : RunViewState} (h : Knows base view old)
    (hiteration : s.currentIteration = old.currentIteration)
    (hkeys : ∀ key ∈ Record.keys view.drafts, key ∈ Record.keys view'.drafts) :
    Knows base view' s := by
  unfold Knows at h ⊢
  rw [hiteration]
  exact h.imp id (hkeys _)

theorem knows_congr (hiteration : s.currentIteration = old.currentIteration) :
    Knows base view s ↔ Knows base view old := by
  unfold Knows
  rw [hiteration]

theorem knows_stamped {sequence : Nat} (h : Stamped s sequence new) :
    Knows base view new ↔ Knows base view s :=
  knows_congr (congrArg TextView.iteration h.text)

/--
What is kept while a view follows a run that is open or has failed. It knows the iteration once it
has been told of an event of the generation, and as long as a version streams.
-/
structure Watches (base : RunSnapshot) (prior journal : List Commit) (view : RunViewState)
    (s : RunSnapshot) : Prop where
  sees : Sees base view s
  matched : ∀ telling, Told (prior ++ journal) telling → Matches telling s.text
  streams :
    Going s → ∀ telling, Told (prior ++ journal) telling → telling.stream ≠ none →
      Knows base view s
  knows : Going s → (Knows base view s ↔ Foreseen (events journal))

theorem Watches.streamed {old : RunSnapshot} {telling next : Telling}
    (h : Watches base prior journal view old) (hgoing : Going old)
    (htold : Told (prior ++ journal) telling) (hmoves : Moves telling e next)
    (hchange : Change old (some e.event) e.payload s) (hstream : e.event.isStream = true) :
    Knows base (Client.applyEvent view (e.wire isoformat)) s := by
  obtain ⟨hiteration, _, rest, hpayload⟩ := hchange.streams hstream
  have hversion : Client.eventVersion (e.wire isoformat) = s.currentIteration := by
    rw [hiteration]
    exact eventVersion_wire hpayload
  have hdrafted : (s.currentIteration : ℚ) ∈ Record.keys (Client.eventDrafts view (e.wire isoformat)) →
      Knows base (Client.applyEvent view (e.wire isoformat)) s := by
    intro hkey
    right
    rw [Client.applyEvent_drafts]
    exact hkey
  rcases eventDrafts_cases view (e.wire isoformat) with ⟨hsame, hkept⟩ | ⟨draft, _, _, hset⟩
  . rcases hkept hstream with hkey | ⟨hdelta, hattempt⟩
    . rw [hversion] at hkey
      rw [hsame] at hdrafted
      exact hdrafted hkey
    . -- The first delta of a version that streams would start its draft.
      have hstreaming : telling.stream ≠ none := by
        have hevent : e.event = .prdDelta := hdelta
        cases hmoves with
        | @delta attempt text delta _ hdeltaPayload hbefore =>
          rcases hbefore with ⟨_, hone, _⟩ | hsome
          . have hsent : Client.numberPayload (e.wire isoformat).payload "attempt" 1 = attempt :=
              numberPayload_attempt hdeltaPayload
            rw [hsent, hone] at hattempt
            exact absurd Nat.cast_one hattempt
          . simp [hsome]
        | reset hother | generated hother =>
          rw [hevent] at hother
          contradiction
        | other hother =>
          rw [hevent] at hother
          contradiction
      exact (h.streams hgoing telling htold hstreaming).keep hiteration fun _ hkey =>
        keys_told hkey _
  . apply hdrafted
    rw [hset, hversion, Record.mem_keys_set]
    exact .inr rfl

theorem drafts_other (hstream : e.event.isStream ≠ true) :
    (Client.applyEvent view (e.wire isoformat)).drafts = view.drafts := by
  rw [Client.applyEvent_drafts]
  rcases eventDrafts_cases view (e.wire isoformat) with ⟨hsame, _⟩ | ⟨_, _, hstreams, _⟩
  . exact hsame
  . exact absurd hstreams hstream

-- An event that is neither of a generation nor a plan.
theorem knows_other (hstream : e.event.isStream ≠ true)
    (hiteration : s.currentIteration = old.currentIteration) :
    Knows base (Client.applyEvent view (e.wire isoformat)) s ↔ Knows base view old := by
  unfold Knows
  rw [drafts_other hstream, hiteration]

theorem Sees.unknown_planned (h : Sees base view old)
    (hiteration : s.currentIteration = old.currentIteration + 1)
    (hstream : e.event.isStream ≠ true) :
    ¬Knows base (Client.applyEvent view (e.wire isoformat)) s := by
  have hlater := h.later
  unfold Knows
  rw [drafts_other hstream, hiteration]
  rintro (hbase | hkey)
  . omega
  . obtain ⟨n, hn, heq⟩ := h.drafts.le _ hkey
    rw [Nat.cast_inj] at heq
    omega

theorem Change.iteration_cases {event : Option RunEventType} {payload : Payload}
    (h : Change old event payload s) :
    (event = some .revisionPlanned ∧ s.currentIteration = old.currentIteration + 1 ∧ old.Judged)
      ∨
    (event ≠ some .revisionPlanned ∧ s.currentIteration = old.currentIteration) := by
  cases h with
  | moved _ htransit =>
    right
    constructor
    . cases htransit <;> simp
    . unfold RunSnapshot.movedTo
      split <;> rfl
  | planned _ hjudged => exact .inl ⟨rfl, rfl, hjudged⟩
  | _ => exact .inr ⟨by simp, rfl⟩

theorem not_matches_judged {telling : Telling} (hmatches : Matches telling old.text)
    (hjudged : old.Judged) : telling.stream = none := by
  cases hstream : telling.stream with
  | none => rfl
  | some stream =>
    have hpending := (hmatches stream hstream).2.2.2
    have hiteration := hjudged.1
    unfold TextView.Pending RunSnapshot.text at hpending
    simp only [List.length_map] at hpending
    omega

theorem Moves.of_other {telling next : Telling} (h : Moves telling e next)
    (hstream : e.event.isStream ≠ true) : next = telling := by
  cases h with
  | other => rfl
  | delta hevent | reset hevent | generated hevent =>
    rw [hevent] at hstream
    contradiction

theorem watches_accompanies (isoformat : Timestamp → String) (base : RunSnapshot)
    (prior : List Commit) :
    Accompanies (RunEvent.wire isoformat)
      (fun journal => ∃ telling, Told (prior ++ journal) telling) (Watches base prior) :=
  {
    sends := sends_wire isoformat
    status := fun h => h.sees.status
    told := by
      rintro journal view old s new e ⟨next, hheard⟩ h hopen hchange hstamped hiteration
      have hsees : Sees base (Client.applyEvent view (e.wire isoformat)) s :=
        h.sees.told hchange hiteration
      have hgoing : Going old := by
        intro hterminal
        rw [hopen] at hterminal
        contradiction
      have hevents : events (journal ++ [{ snapshot := new, event := some e }])
          = events journal ++ [e] := by
        rw [events_append]
        rfl
      rw [← List.append_assoc] at hheard
      obtain ⟨telling, htold, hmoves, _⟩ := hheard.of_event
      refine {
        sees := hsees.stamped hstamped
        matched := ?_
        streams := ?_
        knows := ?_
      }
      . intro telling' htold'
        rw [← List.append_assoc] at htold'
        obtain ⟨_, _, _, hmatches⟩ := htold'.of_event
        exact hmatches
      . intro _ telling' htold' hstreaming
        rw [knows_stamped hstamped]
        rw [← List.append_assoc] at htold'
        obtain ⟨before, hbefore, hmoves', _⟩ := htold'.of_event
        by_cases hstream : e.event.isStream = true
        . exact h.streamed hgoing htold hmoves hchange hstream
        . rw [Moves.of_other hmoves' hstream] at hstreaming
          rcases Change.iteration_cases hchange with ⟨_, _, hjudged⟩ | ⟨_, hsameIteration⟩
          . exact absurd (not_matches_judged (h.matched _ hbefore) hjudged) hstreaming
          . rw [knows_other hstream hsameIteration]
            exact h.streams hgoing before hbefore hstreaming
      . intro _
        rw [knows_stamped hstamped, hevents]
        by_cases hstream : e.event.isStream = true
        . simp only [h.streamed hgoing htold hmoves hchange hstream, foreseen_streamed hstream]
        . rcases Change.iteration_cases hchange with ⟨hplanned, hnext, _⟩ | ⟨hother, hsameIteration⟩
          . have hevent : e.event = .revisionPlanned := Option.some_inj.mp hplanned
            simp only [h.sees.unknown_planned hnext hstream, foreseen_planned hevent]
          . rw [knows_other hstream hsameIteration,
              foreseen_other hstream (Option.some_inj.not.mp hother)]
            exact h.knows hgoing
    unseen := by
      intro journal view old s new event payload sequence h hchange hstamped hunseen
      have hquiet := hunseen.imp_left (congrArg (Option.map RunEvent.event))
      have hsees : Sees base view s := h.sees.unseen hchange hquiet
      have hother : event.map RunEvent.event ≠ some .revisionPlanned := by
        rcases hchange.plans h.sees.coherent with ⟨_, hne⟩ | ⟨_, _, _, hgrown, _⟩
        . exact hne
        . rw [hchange.plans_quiet h.sees.coherent hquiet] at hgrown
          simp at hgrown
      have hiteration : s.currentIteration = old.currentIteration := by
        rcases Change.iteration_cases hchange with ⟨hplanned, _⟩ | ⟨_, hsame⟩
        . contradiction
        . exact hsame
      have hsame : Knows base view new ↔ Knows base view old := by
        rw [knows_stamped hstamped]
        exact knows_congr hiteration
      have hgoing : Going new → Going old := by
        intro hgoing hterminal
        have hstatus := hchange.terminal hterminal
        rw [← hstatus, ← hstamped.status]
        apply hgoing
        rw [hstamped.status, hstatus]
        exact hterminal
      cases event with
      | none =>
        refine {
          sees := hsees.stamped hstamped
          matched := ?_
          streams := ?_
          knows := ?_
        }
        . intro telling htold
          rw [← List.append_assoc] at htold
          exact htold.of_silent.2
        . intro hopen telling htold hstreaming
          rw [← List.append_assoc] at htold
          rw [hsame]
          exact h.streams (hgoing hopen) telling htold.of_silent.1 hstreaming
        . intro hopen
          rw [hsame, events_append, Option.toList_none, List.append_nil]
          exact h.knows (hgoing hopen)
      | some e =>
        have hstream : Going new → e.event.isStream ≠ true := by
          intro hopen hstream
          have hended := hunseen.resolve_left (by simp)
          exact (hchange.streams hstream).2.1 (hgoing hopen hended)
        refine {
          sees := hsees.stamped hstamped
          matched := ?_
          streams := ?_
          knows := ?_
        }
        . intro telling htold
          rw [← List.append_assoc] at htold
          obtain ⟨_, _, _, hmatches⟩ := htold.of_event
          exact hmatches
        . intro hopen telling htold hstreaming
          rw [← List.append_assoc] at htold
          obtain ⟨before, hbefore, hmoves, _⟩ := htold.of_event
          rw [Moves.of_other hmoves (hstream hopen)] at hstreaming
          rw [hsame]
          exact h.streams (hgoing hopen) before hbefore hstreaming
        . intro hopen
          rw [hsame, events_append, Option.toList_some,
            foreseen_other (hstream hopen) (Option.some_inj.not.mp hother)]
          exact h.knows (hgoing hopen)
  }

end Watches

section Run

variable {env : WorkflowEnv} {runId : RunId} {request : CreateRunRequest} {outputLanguage : String}
  {bufferSize : Nat} {c : Workflow.Config} {journal : List Commit} {snapshot : RunSnapshot}
  {delivered : List RunEvent}

theorem Told.matches_last {start : RunSnapshot} {telling : Telling} (h : Told journal telling)
    (hhistory : History start journal s) : Matches telling s.text := by
  cases h with
  | nil => exact .of_none rfl
  | silent _ hmatches =>
    rw [← hhistory.last]
    exact hmatches
  | event _ _ hmatches =>
    rw [← hhistory.last]
    exact hmatches

theorem watches_load {start : RunSnapshot} (horder : Orderly s) (hcoherent : Coherent s)
    (hhistory : History start journal s) (before : RunViewState) :
    Watches s journal [] (Client.loadSnapshot before s.wire) s :=
  {
    sees := .load horder hcoherent before
    matched := by
      intro telling htold
      rw [List.append_nil] at htold
      exact Told.matches_last htold hhistory
    streams := fun _ _ _ _ => knows_load s _
    knows := by
      intro _
      unfold Foreseen
      simp [knows_load, events]
  }

/--
A view has loaded a stored snapshot and taken the events behind it, and another one loads the final
snapshot of the run, which has failed. They give the same notice, and what it says is so, exactly
when every plan in the events has been followed by an event of the generation from it.
-/
theorem notices_agree_iff (isoformat : Timestamp → String) (text toFixed : ℚ → String)
    (h : Workflow.Reachable env runId request outputLanguage bufferSize c)
    (hjournal : journal <+: c.world.journal)
    (hstores : Stores (Workflow.init env.toEnv runId request outputLanguage bufferSize).world.snapshot
      journal snapshot)
    (hdelivered : Redelivers (events journal) snapshot.latestEventSequence delivered)
    (hfailed :
      (latest (Workflow.init env.toEnv runId request outputLanguage bufferSize).world.snapshot
        journal).status = .failed)
    (before rebuilt : RunViewState) :
    let final :=
      latest (Workflow.init env.toEnv runId request outputLanguage bufferSize).world.snapshot journal
    let live :=
      receive (Client.loadSnapshot before snapshot.wire) (delivered.map (RunEvent.wire isoformat))
    let restored := Client.loadSnapshot rebuilt final.wire
    (failureNotice text toFixed live = failureNotice text toFixed restored
        ∧ Describes text (failureNotice text toFixed restored) final)
      ↔
    Foreseen ((events journal).filter fun e => snapshot.latestEventSequence < e.sequence) := by
  intro final live restored
  have hrun : (Client.loadSnapshot before snapshot.wire).runId = some snapshot.runId := rfl
  obtain ⟨prior, after, last, rfl, hhistory, hprior, hafter, hreceived⟩ :=
    Reachable.behind (sends_wire isoformat) h hjournal hstores hdelivered hrun rfl
  have hlast : final = last := latest_eq hhistory
  have horder : Orderly last := hhistory.orderly (orderly_create _ _ _ _ _)
  have hcoherent : Coherent last := hhistory.coherent (coherent_create _ _ _ _ _)
  have hheard : ∀ heard, heard <+: after → ∃ telling, Told (prior ++ heard) telling := by
    intro heard hgrown
    obtain ⟨telling, htold, _⟩ := h.keeps.sound.told
    obtain ⟨rest, hrest⟩ := ((List.prefix_append_right_inj prior).mpr hgrown).trans hjournal
    rw [← hrest] at htold
    obtain ⟨mid, hmid, _⟩ := htold.later
    exact ⟨mid, hmid⟩
  have hload : Tracks (Watches snapshot prior []) (Client.loadSnapshot before snapshot.wire) snapshot :=
    {
      runId := rfl
      sequence := fun _ => rfl
      related :=
        watches_load (hprior.orderly (orderly_create _ _ _ _ _))
          (hprior.coherent (coherent_create _ _ _ _ _)) hprior before
    }
  have hwatches := ((watches_accompanies isoformat snapshot prior).history hload hafter hheard).related
  rw [← hreceived] at hwatches
  have hrestored : Sees last restored last := by
    rw [← hlast]
    exact .load (hlast ▸ horder) (hlast ▸ hcoherent) rebuilt
  have hstatus : last.status = .failed := by rw [← hlast, hfailed]
  have hdescribes : Describes text (failureNotice text toFixed restored) last :=
    hrestored.describes (knows_load _ _) hstatus
  rw [events_after hprior hafter, ← hwatches.knows fun _ => hstatus, hlast]
  constructor
  . rintro ⟨hsame, _⟩
    by_contra hknows
    have hsilent : failureNotice text toFixed live = none := hwatches.sees.silent hknows
    rw [hsilent] at hsame
    apply hdescribes.unless_committed.mpr _ hsame.symm
    intro hcommitted
    exact hknows (hwatches.sees.knows_committed hcommitted)
  . intro hknows
    refine ⟨?_, hdescribes⟩
    apply Client.failureNotice_congr
    . rw [hwatches.sees.status, hrestored.status]
    . rw [hwatches.sees.loaded_isNone, hrestored.loaded_isNone]
    . exact hwatches.sees.agrees hrestored hknows (knows_load _ _)

-- The generator fails before it has streamed anything, for the first version or for the second one.
def failedGeneration (rounds : List Workflow.Label) : List Workflow.Label :=
  [.begin] ++ rounds ++ [.enterGenerator, .generatorWake (.raised .otherError)]

-- How a whole number is written.
def written (version : ℚ) : String :=
  toString version.num

theorem notices_agree_iff_first :
    ∃ c,
      exec (Workflow.step Workflow.answeringWorkflow) Workflow.answeringInit
          (failedGeneration []) = some c
        ∧
      ((failureNotice written written (followed c)
            = failureNotice written written (Client.loadSnapshot Client.initialRunViewState
                (latest Workflow.answeringInit.world.snapshot c.world.journal).wire)
          ∧ Describes written
              (failureNotice written written (Client.loadSnapshot Client.initialRunViewState
                (latest Workflow.answeringInit.world.snapshot c.world.journal).wire))
              (latest Workflow.answeringInit.world.snapshot c.world.journal))
        ↔
      Foreseen ((events c.world.journal).filter fun e =>
        Workflow.answeringInit.world.snapshot.latestEventSequence < e.sequence)) := by
  have hfailed :
      (exec (Workflow.step Workflow.answeringWorkflow) Workflow.answeringInit
          (failedGeneration [])).map
        (fun c => (latest Workflow.answeringInit.world.snapshot c.world.journal).status)
        = some .failed := by
    decide +kernel
  obtain ⟨c, hexec, hstatus⟩ := Option.map_eq_some_iff.mp hfailed
  have hreach : Workflow.Reachable Workflow.answeringWorkflow "run" mockRequest "English" 1000 c :=
    .of_exec hexec
  have hwhole := Redelivers.whole (Reachable.increasing hreach List.prefix_rfl)
  exact ⟨c, hexec, notices_agree_iff (fun _ => "") written written hreach List.prefix_rfl (.inl rfl)
    (hwhole _) hstatus _ _⟩

-- The second generation fails. The view that has followed the run has no notice of it.
theorem not_notices_agree :
    ∃ c,
      exec (Workflow.step Workflow.answeringWorkflow) Workflow.answeringInit
          (failedGeneration (plannedRound 1)) = some c
        ∧ (latest Workflow.answeringInit.world.snapshot c.world.journal).status = .failed
        ∧ failureNotice written written (followed c) = none
        ∧ (failureNotice written written (Client.loadSnapshot Client.initialRunViewState
            (latest Workflow.answeringInit.world.snapshot c.world.journal).wire)).map
              Client.FailureNotice.headline = some "v2 生成失败" := by
  have hrun :
      (exec (Workflow.step Workflow.answeringWorkflow) Workflow.answeringInit
          (failedGeneration (plannedRound 1))).map
        (fun c =>
          ((latest Workflow.answeringInit.world.snapshot c.world.journal).status,
            failureNotice written written (followed c),
            (failureNotice written written (Client.loadSnapshot Client.initialRunViewState
              (latest Workflow.answeringInit.world.snapshot c.world.journal).wire)).map
                Client.FailureNotice.headline))
        = some (.failed, none, some "v2 生成失败") := by
    decide +kernel
  obtain ⟨c, hexec, hc⟩ := Option.map_eq_some_iff.mp hrun
  rw [Prod.mk.injEq, Prod.mk.injEq] at hc
  exact ⟨c, hexec, hc.1, hc.2.1, hc.2.2⟩

end Run

end Live

end AgenticPrd
