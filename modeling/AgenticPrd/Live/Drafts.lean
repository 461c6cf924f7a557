import AgenticPrd.Live.Gaps

/-!
The text of a draft in progress: what the server has had in `current_prd` at some moment of the
attempt, and what an event or a snapshot makes of it.
-/

namespace AgenticPrd

namespace Live

open RunManager Suffix Transition
open Client (RunViewState RunAction VersionDraft Awaits shownContent runReducer Ignores)

-- The run has had `content` in `current_prd` during an attempt for the version.
def Shows (journal : List Commit) (version attempt : ℚ) (content : String) : Prop :=
  ∃ commit ∈ journal,
    commit.snapshot.currentIteration = version
      ∧ commit.snapshot.currentPrdAttempt = attempt
      ∧ commit.snapshot.currentPrd = content
      ∧ commit.snapshot.currentIteration = commit.snapshot.versions.length + 1

def Genuine (journal : List Commit) (version attempt : ℚ) (content : String) : Prop :=
  Shows journal version attempt content
    ∧
  ∃ rest, streamedText version attempt (events journal) = content ++ rest

def seen (log : List RunEvent) (cursor : Nat) : List RunEvent :=
  log.filter fun e => e.sequence ≤ cursor

-- The cursor is at an event of the log, or before all of them.
def Reached (log : List RunEvent) (cursor : Nat) : Prop :=
  cursor = 0 ∨ ∃ e ∈ log, e.sequence = cursor

/--
What is kept of the draft of a version. It holds all that its attempt has streamed so far, unless the
attempt is one of those that are `gone`.
-/
structure Kept (journal : List Commit) (seen : List RunEvent) (gone : ℚ → Prop) (version : ℚ)
    (draft : Option VersionDraft) : Prop where
  genuine : ∀ d ∈ draft, d.complete = false → Genuine journal version d.attempt d.content
  current :
    ∀ attempt, Awaits draft attempt →
      gone attempt ∨ shownContent draft = streamedText version attempt seen

section Journal

variable {journal journal' : List Commit} {version attempt : ℚ} {content : String}

theorem streamedText_mono {log log' : List RunEvent} (h : log <+: log') :
    ∃ rest, streamedText version attempt log' = streamedText version attempt log ++ rest := by
  obtain ⟨more, rfl⟩ := h
  induction more using List.reverseRecOn with
  | nil => exact ⟨"", by simp⟩
  | append_singleton more e ih =>
    obtain ⟨rest, hrest⟩ := ih
    rw [← List.append_assoc]
    by_cases hdelta : e.IsDelta version attempt
    . refine ⟨rest ++ e.delta, ?_⟩
      rw [streamedText_concat hdelta, hrest, String.append_assoc]
    . refine ⟨rest, ?_⟩
      rw [streamedText_append_of_not, hrest]
      simpa using hdelta

theorem Genuine.grow (h : Genuine journal version attempt content) (hgrown : journal <+: journal') :
    Genuine journal' version attempt content := by
  obtain ⟨⟨commit, hmem, hcommit⟩, rest, hrest⟩ := h
  obtain ⟨more, hmore⟩ := streamedText_mono (events_mono hgrown)
  refine ⟨⟨commit, hgrown.subset hmem, hcommit⟩, rest ++ more, ?_⟩
  rw [hmore, hrest, String.append_assoc]

theorem Genuine.of_commit {telling : Telling} {stream : Streamed} {commit : Commit}
    {before : List Commit} (hgrown : before <+: journal) (htold : Told before telling)
    (hstream : stream ∈ telling.stream) (hcommit : commit ∈ journal)
    (hmatches : Matches telling commit.snapshot.text) :
    Genuine journal telling.version stream.attempt stream.text := by
  obtain ⟨hiteration, hattempt, hprd, hpending⟩ := hmatches stream hstream
  constructor
  . refine ⟨commit, hcommit, ?_, ?_, hprd, ?_⟩
    . rw [← hiteration]
      rfl
    . rw [← hattempt]
      rfl
    . unfold TextView.Pending RunSnapshot.text at hpending
      simpa using hpending
  . rw [htold.text stream hstream]
    exact streamedText_mono (events_mono hgrown)

end Journal

section Kept

variable {journal : List Commit} {before between : List RunEvent} {gone gone' : ℚ → Prop}
  {version : ℚ} {draft : Option VersionDraft} {e : RunEvent}

theorem Kept.grow {journal' : List Commit} (h : Kept journal before gone version draft)
    (hgrown : journal <+: journal') (hgone : ∀ attempt, gone attempt → gone' attempt) :
    Kept journal' before gone' version draft :=
  {
    genuine := by
      intro d hd hcomplete
      exact (h.genuine d hd hcomplete).grow hgrown
    current := by
      intro attempt hawaits
      exact (h.current attempt hawaits).imp_left (hgone attempt)
  }

-- Events that do not go into the draft, with no delta of an attempt that it waits for.
theorem Kept.skip {rest : List RunEvent} (h : Kept journal before gone version draft)
    (hgone : ∀ attempt, gone attempt → gone' attempt)
    (hdelta :
      ∀ attempt, Awaits draft attempt → ∀ e ∈ rest, e.IsDelta version attempt → gone' attempt) :
    Kept journal (before ++ rest) gone' version draft :=
  {
    genuine := h.genuine
    current := by
      intro attempt hawaits
      by_cases hrest : ∃ e ∈ rest, e.IsDelta version attempt
      . obtain ⟨e, he, hdelta'⟩ := hrest
        exact .inl (hdelta attempt hawaits e he hdelta')
      . rw [streamedText_append_of_not fun e he hdelta' => hrest ⟨e, he, hdelta'⟩]
        exact (h.current attempt hawaits).imp_left (hgone attempt)
  }

-- A delta that goes into the draft.
theorem Kept.take {attempt : ℚ} {stream : String} (h : Kept journal before gone version draft)
    (hawaits : Awaits draft attempt) (hdelta : e.IsDelta version attempt) (hpresent : ¬gone attempt)
    (hwhole : ∀ m ∈ between, ¬m.IsDelta version attempt)
    (hstream : stream = streamedText version attempt (before ++ (between ++ [e])))
    (hgenuine : Genuine journal version attempt stream) :
    Kept journal (before ++ (between ++ [e])) gone' version
      (some { version, attempt, content := shownContent draft ++ e.delta, complete := false }) := by
  have hcontent : shownContent draft ++ e.delta = stream := by
    rw [hstream, ← List.append_assoc, streamedText_concat hdelta,
      streamedText_append_of_not hwhole, (h.current attempt hawaits).resolve_left hpresent]
  rw [hcontent]
  constructor
  . rintro d ⟨⟩ _
    exact hgenuine
  . intro attempt' hawaits'
    right
    rw [← hawaits'.2]
    exact hstream

theorem Kept.fresh {attempt : ℚ} {all : List RunEvent}
    (hempty : streamedText version attempt all = "") (hgenuine : Genuine journal version attempt "") :
    Kept journal all gone version
      (some { version, attempt, content := "", complete := false }) := by
  constructor
  . rintro d ⟨⟩ _
    exact hgenuine
  . intro attempt' hawaits
    right
    rw [← hawaits.2]
    exact hempty.symm

theorem Kept.of_complete {all : List RunEvent} {d : VersionDraft} (h : d.complete = true) :
    Kept journal all gone version (some d) := by
  constructor
  . rintro d' ⟨⟩ hcomplete
    rw [h] at hcomplete
    contradiction
  . intro attempt hawaits
    have hcomplete := hawaits.1
    rw [h] at hcomplete
    contradiction

end Kept

section Payload

variable {version attempt : Nat} {text : String} {isoformat : Timestamp → String} {e : RunEvent}

theorem eventVersion_wire {rest : Payload} (h : e.payload = ("version", .ofNat version) :: rest) :
    Client.eventVersion (e.wire isoformat) = version := by
  simp [Client.eventVersion, Client.numberPayload, Client.Value.field, Client.Value.number?,
    RunEvent.wire, h, Record.get?_cons, Json.ofNat]

theorem numberPayload_attempt {rest : Payload} {fallback : ℚ}
    (h : e.payload = ("version", .ofNat version) :: ("attempt", .ofNat attempt) :: rest) :
    Client.numberPayload e.payload "attempt" fallback = attempt := by
  simp [Client.numberPayload, Client.Value.field, Client.Value.number?, h, Record.get?_cons,
    Json.ofNat]

theorem stringPayload_delta (h : e.payload = deltaPayload version attempt text) :
    Client.stringPayload e.payload "delta" = some text := by
  simp [Client.stringPayload, Client.Value.field, Client.Value.string?, h, deltaPayload,
    Record.get?_cons]

end Payload

section Receive

variable (isoformat : Timestamp → String) {journal : List Commit} {view : RunViewState}
  {before between : List RunEvent} {e : RunEvent}

theorem received_run (view : RunViewState) (e : RunEvent) :
    ∃ connection,
      (Link.received isoformat e).foldl runReducer view
        = { runReducer view (.eventReceived (e.wire isoformat)) with connection } := by
  unfold Link.received
  rw [RunEvent.parseRunEvent_toJson]
  dsimp only
  split
  . exact ⟨.closed, rfl⟩
  . exact ⟨_, rfl⟩

-- An event that the reducer takes, after others that the view does not get to see.
theorem kept_received {old new : Telling} {gone gone' : ℚ → ℚ → Prop} (hmoves : Moves old e new)
    (hnew : ∀ stream ∈ new.stream,
      Genuine journal new.version stream.attempt stream.text
        ∧
      stream.text = streamedText new.version stream.attempt (before ++ (between ++ [e])))
    (hkept : ∀ version, Kept journal before (gone version) version (Record.get? view.drafts version))
    (hgone : ∀ version attempt, gone version attempt →
      gone' version attempt ∧ ¬e.IsDelta version attempt)
    (hbetween : ∀ m ∈ between, ∀ version attempt, m.IsDelta version attempt →
      gone' version attempt ∧ ¬e.IsDelta version attempt) (version : ℚ) :
    Kept journal (before ++ (between ++ [e])) (gone' version) version
      (Record.get? (Client.eventDrafts view (e.wire isoformat)) version) := by
  have hskip : ∀ version,
      (∀ attempt, Awaits (Record.get? view.drafts version) attempt → ¬e.IsDelta version attempt) →
        Kept journal (before ++ (between ++ [e])) (gone' version) version
          (Record.get? view.drafts version) := by
    intro version hnot
    apply (hkept version).skip fun attempt hpast => (hgone version attempt hpast).1
    intro attempt hawaits m hm hdelta
    rw [List.mem_append, List.mem_singleton] at hm
    rcases hm with hm | rfl
    . exact (hbetween m hm version attempt hdelta).1
    . exact absurd hdelta (hnot attempt hawaits)
  have hevent : (e.wire isoformat).event = e.event := rfl
  have hpayloadEq : (e.wire isoformat).payload = e.payload := rfl
  unfold Client.eventDrafts
  rw [hevent, hpayloadEq]
  cases hmoves with
  | @delta attempt text delta hdelta hpayload _ =>
    obtain ⟨hgenuine, hstream⟩ := hnew _ rfl
    have hversion : Client.eventVersion (e.wire isoformat) = old.version :=
      eventVersion_wire hpayload
    have hattempt : Client.numberPayload e.payload "attempt" 1 = attempt :=
      numberPayload_attempt hpayload
    have htext : (Client.stringPayload e.payload "delta").getD "" = e.delta := by
      rw [stringPayload_delta hpayload, RunEvent.delta_eq hpayload]
      rfl
    have hisDelta : ∀ v a : ℚ, e.IsDelta v a ↔ v = old.version ∧ a = attempt := by
      intro v a
      exact RunEvent.isDelta_iff hdelta hpayload
    have hsame : e.IsDelta old.version attempt := (hisDelta _ _).mpr ⟨rfl, rfl⟩
    rw [hdelta]
    dsimp only
    rw [Client.applyDelta_eq, hversion, hattempt, htext]
    by_cases hawaits : Awaits (Record.get? view.drafts old.version) attempt
    . rw [if_pos hawaits, Option.getD_some]
      by_cases hv : version = old.version
      . subst hv
        rw [Record.get?_set_self]
        apply (hkept old.version).take hawaits hsame _ _ hstream hgenuine
        . intro hpast
          exact (hgone _ _ hpast).2 hsame
        . intro m hm hdelta'
          exact (hbetween m hm _ _ hdelta').2 hsame
      . rw [Record.get?_set_ne _ _ hv]
        apply hskip
        intro a _ hdelta'
        exact hv ((hisDelta version a).mp hdelta').1
    . rw [if_neg hawaits, Option.getD_none]
      apply hskip
      intro a hawaits' hdelta'
      obtain ⟨rfl, rfl⟩ := (hisDelta version a).mp hdelta'
      exact hawaits hawaits'
  | @reset attempt hreset hpayload _ _ =>
    obtain ⟨hgenuine, hstream⟩ := hnew _ rfl
    have hversion : Client.eventVersion (e.wire isoformat) = old.version :=
      eventVersion_wire hpayload
    have hattempt : Client.numberPayload e.payload "attempt" 1 = attempt :=
      numberPayload_attempt hpayload
    have hkeep : Kept journal (before ++ (between ++ [e])) (gone' version) version
        (Record.get? view.drafts version) := by
      apply hskip
      intro a _ hdelta'
      rw [hdelta'.1] at hreset
      contradiction
    have hset : Kept journal (before ++ (between ++ [e])) (gone' version) version
        (Record.get? (Record.set view.drafts old.version
          { version := old.version, attempt, content := "", complete := false }) version) := by
      by_cases hsame : version = old.version
      . subst hsame
        rw [Record.get?_set_self]
        exact Kept.fresh hstream.symm hgenuine
      . rw [Record.get?_set_ne _ _ hsame]
        exact hkeep
    rw [hreset]
    dsimp only
    unfold Client.applyStreamReset
    rw [hversion, hattempt]
    dsimp only
    split
    . split
      . exact hkeep
      . exact hset
    . exact hset
  | generated hgenerated hpayload =>
    have hversion : Client.eventVersion (e.wire isoformat) = old.version :=
      eventVersion_wire hpayload
    rw [hgenerated]
    dsimp only
    rw [hversion]
    by_cases hsame : version = old.version
    . subst hsame
      rw [Record.get?_set_self]
      exact Kept.of_complete rfl
    . rw [Record.get?_set_ne _ _ hsame]
      apply hskip
      intro a _ hdelta'
      rw [hdelta'.1] at hgenerated
      contradiction
  | other hother =>
    have hkeep : Kept journal (before ++ (between ++ [e])) (gone' version) version
        (Record.get? view.drafts version) := by
      apply hskip
      intro a _ hdelta'
      rw [hdelta'.1] at hother
      contradiction
    generalize e.event = event at hother ⊢
    cases event with
    | prdDelta | prdStreamReset | prdGenerated => contradiction
    | _ => exact hkeep

end Receive

section Load

variable {journal before : List Commit} {snapshot : RunSnapshot}

/--
A snapshot that was in memory once the journal had come as far as `before`.
-/
structure Recorded (journal before : List Commit) (snapshot : RunSnapshot) : Prop where
  grown : before <+: journal
  told :
    ∃ telling,
      Told before telling ∧ Matches telling snapshot.text
        ∧ (telling.stream = none → snapshot.text.Idle)
  events_eq : seen (events journal) snapshot.latestEventSequence = events before
  reached : Reached (events before) snapshot.latestEventSequence

theorem versionsFromSnapshot_complete {versions : List Client.PRDVersion} {version : ℚ}
    {draft : VersionDraft}
    (h : Record.get? (Client.versionsFromSnapshot versions) version = some draft) :
    draft.complete = true := by
  cases Record.get?_update h with
  | inl hnil => contradiction
  | inr hmem =>
    obtain ⟨_, _, heq⟩ := List.mem_map.mp hmem
    cases heq
    rfl

-- A draft is only seeded from the text of an attempt in progress.
theorem streams_of_seedsDraft {telling : Telling}
    (hidle : telling.stream = none → snapshot.text.Idle)
    (h : Client.seedsDraft snapshot.wire = true) : ∃ stream, stream ∈ telling.stream := by
  cases hstream : telling.stream with
  | some stream => exact ⟨stream, rfl⟩
  | none =>
    exfalso
    unfold Client.seedsDraft at h
    simp only [Bool.and_eq_true, Bool.or_eq_true, decide_eq_true_eq, ne_eq] at h
    obtain ⟨⟨_, hbegun⟩, hlast⟩ := h
    cases hidle hstream with
    | inl hfresh =>
      obtain ⟨hprd, hattempt⟩ := hfresh
      have hprd' : snapshot.wire.currentPrd = "" := hprd
      have hattempt' : snapshot.wire.currentPrdAttempt = .ofNat 1 := congrArg Json.ofNat hattempt
      unfold Client.streamedAttempt at hbegun
      rw [hprd', hattempt', positiveInteger?_ofNat (Nat.le_refl 1)] at hbegun
      simp at hbegun
    | inr hcopy =>
      apply hlast
      rw [← List.getLast?_map]
      have hcontents : snapshot.wire.versions.map Client.PRDVersion.content
          = snapshot.text.contents := by
        simp only [RunSnapshot.wire, RunSnapshot.text, List.map_map]
        rfl
      rw [hcontents]
      exact hcopy

theorem streamedAttempt_wire (h : 1 ≤ snapshot.currentPrdAttempt) :
    Client.streamedAttempt snapshot.wire = snapshot.currentPrdAttempt := by
  unfold Client.streamedAttempt RunSnapshot.wire
  dsimp only
  rw [positiveInteger?_ofNat h, Option.getD_some]

theorem kept_version {gone : ℚ → Prop} {version : ℚ}
    (hgone :
      Record.get? (Client.versionsFromSnapshot snapshot.wire.versions) version = none →
        ∀ e ∈ events before, e.IsDelta version 1 → gone 1) :
    Kept journal (events before) gone version
      (Record.get? (Client.versionsFromSnapshot snapshot.wire.versions) version) := by
  cases hdraft : Record.get? (Client.versionsFromSnapshot snapshot.wire.versions) version with
  | some d => exact Kept.of_complete (versionsFromSnapshot_complete hdraft)
  | none =>
    constructor
    . simp
    . rintro attempt rfl
      by_cases hstreamed : ∃ e ∈ events before, e.IsDelta version 1
      . obtain ⟨e, he, hdelta⟩ := hstreamed
        exact .inl (hgone hdraft e he hdelta)
      . right
        symm
        exact streamedText_eq_empty fun e he hdelta => hstreamed ⟨e, he, hdelta⟩

theorem Recorded.kept {gone : ℚ → ℚ → Prop} (h : Recorded journal before snapshot)
    (hincreasing : Increasing RunEvent.sequence (events before))
    (hgone : ∀ e ∈ events before, ∀ last ∈ events before, e.sequence < last.sequence →
      settles last.event = true → ∀ version attempt, e.IsDelta version attempt →
        gone version attempt)
    (hseeds : Client.seedsDraft snapshot.wire = true
      ∨ 1 < snapshot.currentPrdAttempt
      ∨ ∀ e ∈ events before, ∀ version attempt, e.IsDelta version attempt → gone version attempt)
    (version : ℚ) :
    Kept journal (events before) (gone version) version
      (Record.get? (Client.draftsFromSnapshot snapshot.wire) version) := by
  obtain ⟨telling, htold, hmatches, hidle⟩ := h.told
  have hrest : (Client.seedsDraft snapshot.wire = true → version ≠ snapshot.currentIteration) →
      Kept journal (events before) (gone version) version
        (Record.get? (Client.versionsFromSnapshot snapshot.wire.versions) version) := by
    intro hother
    apply kept_version
    intro _ e he hdelta
    obtain ⟨v, a, rfl, ha⟩ := htold.natCast_of_isDelta he hdelta
    have hone : a = 1 := by exact_mod_cast ha.symm
    subst hone
    have hpast : Over telling v 1 → gone v 1 := by
      intro hover
      obtain ⟨last, hlast, hlt, hsettles⟩ := htold.settles_of_over hincreasing he hdelta hover
      exact_mod_cast hgone e he last hlast hlt hsettles v 1 hdelta
    rcases htold.bounded he hdelta with hearlier | ⟨rfl, stream, hstream, hle⟩
    . exact hpast (.inl hearlier)
    . by_cases hfirst : 1 < stream.attempt
      . exact hpast (.inr ⟨rfl, stream, hstream, hfirst⟩)
      . obtain ⟨hiteration, hattempt, _, _⟩ := hmatches stream hstream
        rcases hseeds with hseeds | hlater | hall
        . exfalso
          apply hother hseeds
          rw [← hiteration]
          rfl
        . have hsame : snapshot.currentPrdAttempt = stream.attempt := hattempt
          omega
        . exact hall e he _ _ hdelta
  unfold Client.draftsFromSnapshot
  dsimp only
  split
  . next hseeds =>
    obtain ⟨stream, hstream⟩ := streams_of_seedsDraft hidle hseeds
    by_cases hsame : version = snapshot.wire.currentIteration
    . subst hsame
      obtain ⟨hiteration, hattempt, hprd, _⟩ := hmatches stream hstream
      have hnone : telling.stream ≠ none := by
        rw [hstream]
        simp
      obtain ⟨commit, hcommit, hcommitMatches⟩ := htold.commit hnone
      have hgenuine := Genuine.of_commit h.grown htold hstream (h.grown.subset hcommit)
        hcommitMatches
      have htext := htold.text stream hstream
      have hversion : snapshot.wire.currentIteration = telling.version := by
        rw [← hiteration]
        rfl
      have hstreamed : Client.streamedAttempt snapshot.wire = stream.attempt := by
        have hpos := htold.attempt_pos stream hstream
        rw [← hattempt] at hpos ⊢
        exact streamedAttempt_wire hpos
      have hcontent : snapshot.wire.currentPrd = stream.text := hprd
      rw [Record.get?_set_self, hversion, hstreamed, hcontent]
      constructor
      . rintro d ⟨⟩ _
        exact hgenuine
      . intro attempt hawaits
        right
        rw [← hawaits.2]
        exact htext
    . rw [Record.get?_set_ne _ _ hsame]
      exact hrest fun _ => hsame
  . next hseeds => exact hrest fun hseeds' => absurd hseeds' hseeds

end Load

section Grow

variable {journal journal' : List Commit} {cursor : Nat} {log log' : List RunEvent}

theorem Reached.mono (h : Reached log cursor) (hgrown : log <+: log') : Reached log' cursor := by
  cases h with
  | inl hzero => exact .inl hzero
  | inr hmem =>
    obtain ⟨e, he, hsequence⟩ := hmem
    exact .inr ⟨e, hgrown.subset he, hsequence⟩

-- What a cursor has behind it does not change any more.
theorem seen_grow (hincreasing : Increasing RunEvent.sequence log') (hgrown : log <+: log')
    (hreached : Reached log cursor) : seen log' cursor = seen log cursor := by
  obtain ⟨more, rfl⟩ := hgrown
  apply filter_le_append_of_lt
  intro e he
  cases hreached with
  | inl hzero =>
    have := e.sequence_pos
    omega
  | inr hmem =>
    obtain ⟨old, hold, hsequence⟩ := hmem
    rw [← hsequence]
    exact (List.pairwise_append.mp hincreasing).2.2 old hold e he

theorem Recorded.mono {before : List Commit} {snapshot : RunSnapshot}
    (h : Recorded journal before snapshot) (hgrown : journal <+: journal')
    (hincreasing : Increasing RunEvent.sequence (events journal')) :
    Recorded journal' before snapshot :=
  {
    grown := h.grown.trans hgrown
    told := h.told
    events_eq := by
      rw [← h.events_eq]
      apply seen_grow hincreasing (events_mono hgrown)
      exact h.reached.mono (events_mono h.grown)
    reached := h.reached
  }

-- What has come up to a cursor that has been reached was there before.
theorem Reached.mem_of_grown {e : RunEvent} (h : Reached (events journal) cursor)
    (hgrown : events journal <+: events journal')
    (hincreasing : Increasing RunEvent.sequence (events journal')) (he : e ∈ events journal')
    (hle : e.sequence ≤ cursor) : e ∈ events journal := by
  cases h with
  | inl hzero =>
    have := e.sequence_pos
    omega
  | inr hmem =>
    obtain ⟨last, hlast, rfl⟩ := hmem
    exact RunManager.mem_of_grown hgrown hincreasing hlast he hle

end Grow

end Live

end AgenticPrd
