import AgenticPrd.Backend.EventStore.Replay
import AgenticPrd.Backend.RunManager.Basic

/-!
The text that a generation attempt streams, as the events of a run tell it: deltas that follow each
other, a reset that starts the next attempt, and the event that ends the generation of a version.
-/

namespace AgenticPrd

-- What of a snapshot belongs to the generation of versions.
structure TextView where
  iteration : Nat
  prd : String
  attempt : Nat
  contents : List String

def RunSnapshot.text (snapshot : RunSnapshot) : TextView :=
  {
    iteration := snapshot.currentIteration
    prd := snapshot.currentPrd
    attempt := snapshot.currentPrdAttempt
    contents := snapshot.versions.map PRDVersion.content
  }

namespace TextView

-- The version of the current iteration is the next one to come.
def Pending (text : TextView) : Prop :=
  text.iteration = text.contents.length + 1

-- `current_prd` holds nothing yet, or what the last generation left in it.
def Idle (text : TextView) : Prop :=
  (text.prd = "" ∧ text.attempt = 1) ∨ text.contents.getLast? = some text.prd

end TextView

def RunEventType.isStream : RunEventType → Bool
  | prdDelta => true
  | prdStreamReset => true
  | prdGenerated => true
  | _ => false

def deltaPayload (version attempt : Nat) (delta : String) : Payload :=
  [("version", .ofNat version), ("attempt", .ofNat attempt), ("delta", .str delta)]

def resetPayload (version attempt : Nat) : Payload :=
  [("version", .ofNat version), ("attempt", .ofNat attempt)]

def generatedPayload (version attempt : Nat) (content : String) : Payload :=
  [("version", .ofNat version), ("attempt", .ofNat attempt), ("content", .str content)]

namespace RunEvent

def number? (e : RunEvent) (key : String) : Option ℚ :=
  match Record.get? e.payload key with
  | some (.num q) => some q
  | _ => none

def delta (e : RunEvent) : String :=
  match Record.get? e.payload "delta" with
  | some (.str s) => s
  | _ => ""

def IsDelta (version attempt : ℚ) (e : RunEvent) : Prop :=
  e.event = .prdDelta ∧ e.number? "version" = some version ∧ e.number? "attempt" = some attempt

instance (version attempt : ℚ) (e : RunEvent) : Decidable (IsDelta version attempt e) :=
  inferInstanceAs (Decidable (_ ∧ _ ∧ _))

theorem isDelta_iff {e : RunEvent} {version attempt : Nat} {v a : ℚ} {delta : String}
    (hevent : e.event = .prdDelta) (hpayload : e.payload = deltaPayload version attempt delta) :
    e.IsDelta v a ↔ v = version ∧ a = attempt := by
  unfold IsDelta number?
  rw [hpayload]
  simp [hevent, deltaPayload, Record.get?_cons, Json.ofNat, eq_comm]

theorem delta_eq {e : RunEvent} {version attempt : Nat} {delta : String}
    (hpayload : e.payload = deltaPayload version attempt delta) : e.delta = delta := by
  unfold RunEvent.delta
  rw [hpayload]
  simp [deltaPayload, Record.get?_cons]

end RunEvent

-- The text that the deltas of an attempt make up.
def streamedText (version attempt : ℚ) (log : List RunEvent) : String :=
  String.join ((log.filter fun e => e.IsDelta version attempt).map RunEvent.delta)

section StreamedText

variable {version attempt : ℚ} {log rest : List RunEvent} {e : RunEvent}

theorem streamedText_eq_empty (h : ∀ e ∈ log, ¬e.IsDelta version attempt) :
    streamedText version attempt log = "" := by
  have hnil : log.filter (fun e => e.IsDelta version attempt) = [] := by
    rw [List.filter_eq_nil_iff]
    intro e he
    simpa using h e he
  unfold streamedText
  rw [hnil]
  rfl

theorem streamedText_append_of_not (h : ∀ e ∈ rest, ¬e.IsDelta version attempt) :
    streamedText version attempt (log ++ rest) = streamedText version attempt log := by
  have hnil : rest.filter (fun e => e.IsDelta version attempt) = [] := by
    rw [List.filter_eq_nil_iff]
    intro e he
    simpa using h e he
  unfold streamedText
  rw [List.filter_append, hnil, List.append_nil]

theorem streamedText_concat (h : e.IsDelta version attempt) :
    streamedText version attempt (log ++ [e]) = streamedText version attempt log ++ e.delta := by
  unfold streamedText
  rw [List.filter_append, List.map_append]
  simp [String.join, h]

end StreamedText

-- The attempt that streams, and the text so far.
structure Streamed where
  attempt : Nat
  text : String
  deriving DecidableEq

-- The version to come, and its stream once there is one.
structure Telling where
  version : Nat
  stream : Option Streamed
  deriving DecidableEq

namespace RunManager

def events (journal : List Commit) : List RunEvent :=
  journal.filterMap Commit.event

/--
`Moves old e new`: the event `e` takes what has been told from `old` to `new`. The first attempt
for a version starts without an event of its own.
-/
inductive Moves (old : Telling) (e : RunEvent) : Telling → Prop where
  | delta {attempt : Nat} {text delta : String} (hevent : e.event = .prdDelta)
    (hpayload : e.payload = deltaPayload old.version attempt delta)
    (hstream :
      (old.stream = none ∧ attempt = 1 ∧ text = "") ∨ old.stream = some { attempt, text }) :
    Moves old e { old with stream := some { attempt, text := text ++ delta } }
  | reset {attempt : Nat} (hevent : e.event = .prdStreamReset)
    (hpayload : e.payload = resetPayload old.version attempt) (hattempt : 1 ≤ attempt)
    (hstream : ∀ stream ∈ old.stream, stream.attempt < attempt) :
    Moves old e { old with stream := some { attempt, text := "" } }
  | generated {attempt : Nat} {content : String} (hevent : e.event = .prdGenerated)
    (hpayload : e.payload = generatedPayload old.version attempt content) :
    Moves old e { version := old.version + 1, stream := none }
  | other (hevent : e.event.isStream = false) : Moves old e old

-- A snapshot holds the text told so far.
def Matches (telling : Telling) (text : TextView) : Prop :=
  ∀ stream ∈ telling.stream,
    text.iteration = telling.version
      ∧ text.attempt = stream.attempt
      ∧ text.prd = stream.text
      ∧ text.Pending

/--
`Told journal telling`: the events of the journal tell the text of `telling`, and every
snapshot of the journal holds the text told up to it.
-/
inductive Told : List Commit → Telling → Prop where
  | nil : Told [] { version := 1, stream := none }
  | silent {journal : List Commit} {telling : Telling} {snapshot : RunSnapshot}
    (htold : Told journal telling) (hmatches : Matches telling snapshot.text) :
    Told (journal ++ [{ snapshot, event := none }]) telling
  | event {journal : List Commit} {old new : Telling} {snapshot : RunSnapshot} {e : RunEvent}
    (htold : Told journal old) (hmoves : Moves old e new)
    (hmatches : Matches new snapshot.text) :
    Told (journal ++ [{ snapshot, event := some e }]) new

/--
What the caller of a commit answers for with regard to the text. `streams` counts the streaming
calls for a version.
-/
inductive TextMove (old new : TextView) (streams : Nat → Nat) :
    Option RunEventType → Payload → Prop where
  | keep {event : Option RunEventType} {payload : Payload} (hnew : new = old)
    (hevent : ∀ e ∈ event, e.isStream = false) : TextMove old new streams event payload
  | start {payload : Payload} (hstreams : streams old.iteration = 0)
    (hnew : new = { old with prd := "", attempt := 1 }) : TextMove old new streams none payload
  | delta {delta : String} (hpending : old.Pending) (hstreams : 1 ≤ streams old.iteration)
    (hnew : new = { old with prd := old.prd ++ delta }) :
    TextMove old new streams (some .prdDelta) (deltaPayload old.iteration old.attempt delta)
  | reset {attempt : Nat} (hpending : old.Pending) (hstreams : 1 ≤ streams old.iteration)
    (hlt : old.attempt < attempt) (hnew : new = { old with prd := "", attempt }) :
    TextMove old new streams (some .prdStreamReset) (resetPayload old.iteration attempt)
  | generated {attempt : Nat} {content : String} (hpending : old.Pending)
    (hnew : new = { old with prd := content, attempt, contents := old.contents ++ [content] }) :
    TextMove old new streams (some .prdGenerated)
      (generatedPayload old.iteration attempt content)
  | planned {payload : Payload} (hversioned : ¬old.Pending)
    (hstreams : streams (old.iteration + 1) = 0)
    (hnew : new = { old with iteration := old.iteration + 1 }) :
    TextMove old new streams (some .revisionPlanned) payload

/--
How the text told so far, the snapshot in memory and the streaming calls hang together.
-/
structure Holds (telling : Telling) (text : TextView) (streams : Nat → Nat) : Prop where
  version : telling.version = text.contents.length + 1
  matches_text : Matches telling text
  called : telling.stream ≠ none → 1 ≤ streams telling.version
  idle : telling.stream = none → text.Idle
  begun : telling.stream = none → 1 ≤ streams text.iteration → text.Pending →
    text.prd = "" ∧ text.attempt = 1

theorem Matches.of_none {telling : Telling} {text : TextView} (h : telling.stream = none) :
    Matches telling text := by
  intro stream hstream
  rw [h] at hstream
  contradiction

-- One more streaming call.
theorem Holds.withCall {telling : Telling} {text : TextView} {streams streams' : Nat → Nat}
    (h : Holds telling text streams) (hle : ∀ i, streams i ≤ streams' i)
    (hbegun : streams text.iteration = 0 → text.prd = "" ∧ text.attempt = 1) :
    Holds telling text streams' := by
  constructor
  . exact h.version
  . exact h.matches_text
  . intro hstream
    exact (h.called hstream).trans (hle _)
  . exact h.idle
  . intro hnone _ hpending
    by_cases hzero : streams text.iteration = 0
    . exact hbegun hzero
    . exact h.begun hnone (by omega) hpending

section Step

variable {telling : Telling} {old new : TextView} {streams : Nat → Nat} {payload : Payload}

theorem Holds.silent (h : Holds telling old streams) (hmove : TextMove old new streams none payload) :
    Holds telling new streams := by
  cases hmove with
  | keep hnew _ =>
    rw [hnew]
    exact h
  | start hstreams hnew =>
    have hnone : telling.stream = none := by
      cases hstream : telling.stream with
      | none => rfl
      | some stream =>
        have hcalled := h.called (by simp [hstream])
        rw [(h.matches_text stream hstream).1] at hstreams
        omega
    subst hnew
    constructor
    . exact h.version
    . exact .of_none hnone
    . exact h.called
    . intro _
      exact .inl ⟨rfl, rfl⟩
    . intro _ _ _
      exact ⟨rfl, rfl⟩

theorem Holds.event {e : RunEvent} (h : Holds telling old streams)
    (hmove : TextMove old new streams (some e.event) e.payload) :
    ∃ next, Moves telling e next ∧ Holds next new streams := by
  generalize hevent : some e.event = event at hmove
  generalize hpayload : e.payload = payload at hmove
  cases hmove with
  | keep hnew hquiet =>
    subst hnew
    exact ⟨telling, .other (hquiet _ hevent.symm), h⟩
  | start => contradiction
  | @delta delta hpending hstreams hnew =>
    subst hnew
    have hversion : old.iteration = telling.version := hpending.trans h.version.symm
    simp only [Option.some.injEq] at hevent
    rw [hversion] at hpayload hstreams
    let stream : Streamed := { attempt := old.attempt, text := old.prd ++ delta }
    refine ⟨{ telling with stream := some stream }, .delta hevent hpayload ?_, ?_⟩
    . cases hstream : telling.stream with
      | none =>
        have hbegun := h.begun hstream (by rw [hversion]; exact hstreams) hpending
        exact .inl ⟨rfl, hbegun.2, hbegun.1⟩
      | some stream =>
        obtain ⟨_, hattempt, hprd, _⟩ := h.matches_text stream hstream
        right
        rw [hattempt, hprd]
    . constructor
      . exact h.version
      . intro stream hmem
        cases hmem
        exact ⟨hversion, rfl, rfl, hpending⟩
      . intro _
        exact hstreams
      . simp
      . simp
  | @reset attempt hpending hstreams hlt hnew =>
    subst hnew
    have hversion : old.iteration = telling.version := hpending.trans h.version.symm
    simp only [Option.some.injEq] at hevent
    rw [hversion] at hpayload hstreams
    refine ⟨_, .reset hevent hpayload (by omega) ?_, ?_⟩
    . intro stream hmem
      rw [← (h.matches_text stream hmem).2.1]
      exact hlt
    . constructor
      . exact h.version
      . intro stream hmem
        cases hmem
        exact ⟨hversion, rfl, rfl, hpending⟩
      . intro _
        exact hstreams
      . simp
      . simp
  | @generated attempt content hpending hnew =>
    subst hnew
    have hversion : old.iteration = telling.version := hpending.trans h.version.symm
    simp only [Option.some.injEq] at hevent
    rw [hversion] at hpayload
    refine ⟨_, .generated hevent hpayload, ?_⟩
    constructor
    . simp [h.version]
    . exact .of_none rfl
    . simp
    . intro _
      right
      simp
    . intro _ _ hnext
      unfold TextView.Pending at hpending hnext
      simp [hpending] at hnext
  | planned hversioned hstreams hnew =>
    subst hnew
    simp only [Option.some.injEq] at hevent
    have hnone : telling.stream = none := by
      cases hstream : telling.stream with
      | none => rfl
      | some stream => exact absurd (h.matches_text stream hstream).2.2.2 hversioned
    refine ⟨telling, .other ?_, ?_⟩
    . rw [hevent]
      rfl
    . constructor
      . exact h.version
      . exact .of_none hnone
      . exact h.called
      . exact h.idle
      . intro _ hcalled
        dsimp only at hcalled
        omega

end Step

theorem events_append (journal : List Commit) (commit : Commit) :
    events (journal ++ [commit]) = events journal ++ commit.event.toList := by
  unfold events
  rw [List.filterMap_append]
  cases h : commit.event <;> simp [h]

theorem events_mono {journal journal' : List Commit} (h : journal <+: journal') :
    events journal <+: events journal' := by
  obtain ⟨rest, rfl⟩ := h
  unfold events
  rw [List.filterMap_append]
  exact List.prefix_append _ _

section Told

variable {journal : List Commit} {telling : Telling}

theorem Told.of_silent {snapshot : RunSnapshot}
    (h : Told (journal ++ [{ snapshot, event := none }]) telling) :
    Told journal telling ∧ Matches telling snapshot.text := by
  generalize hwhole : journal ++ [{ snapshot, event := none }] = whole at h
  cases h with
  | nil => simp at hwhole
  | silent htold hmatches =>
    obtain ⟨rfl, hcommit⟩ := List.append_singleton_inj.mp hwhole
    cases hcommit
    exact ⟨htold, hmatches⟩
  | event =>
    have hcommit := (List.append_singleton_inj.mp hwhole).2
    cases hcommit

theorem Told.of_event {snapshot : RunSnapshot} {e : RunEvent}
    (h : Told (journal ++ [{ snapshot, event := some e }]) telling) :
    ∃ old, Told journal old ∧ Moves old e telling ∧ Matches telling snapshot.text := by
  generalize hwhole : journal ++ [{ snapshot, event := some e }] = whole at h
  cases h with
  | nil => simp at hwhole
  | silent =>
    have hcommit := (List.append_singleton_inj.mp hwhole).2
    cases hcommit
  | event htold hmoves hmatches =>
    obtain ⟨rfl, hcommit⟩ := List.append_singleton_inj.mp hwhole
    cases hcommit
    exact ⟨_, htold, hmoves, hmatches⟩

-- The deltas told so far belong to earlier attempts or to the one that streams.
theorem Told.bounded (h : Told journal telling) {e : RunEvent} (he : e ∈ events journal)
    {version attempt : Nat} (hdelta : e.IsDelta version attempt) :
    version < telling.version
      ∨
    (version = telling.version ∧ ∃ stream ∈ telling.stream, attempt ≤ stream.attempt) := by
  induction h with
  | nil => simp [events] at he
  | silent _ _ ih =>
    rw [events_append] at he
    exact ih (by simpa using he)
  | @event journal old new snapshot e' htold hmoves _ ih =>
    simp only [events_append, Option.toList_some, List.mem_append, List.mem_singleton] at he
    cases he with
    | inl hold =>
      have hbound := ih hold
      cases hmoves with
      | other => exact hbound
      | generated =>
        left
        dsimp only
        omega
      | @delta current text delta _ _ hstream =>
        apply hbound.imp id
        rintro ⟨hversion, stream, hmem, hle⟩
        refine ⟨hversion, _, rfl, ?_⟩
        rcases hstream with ⟨hnone, _⟩ | hsome
        . rw [hnone] at hmem
          contradiction
        . rw [hsome] at hmem
          cases hmem
          exact hle
      | reset _ _ _ hstream =>
        apply hbound.imp id
        rintro ⟨hversion, stream, hmem, hle⟩
        exact ⟨hversion, _, rfl, hle.trans (hstream stream hmem).le⟩
    | inr heq =>
      subst heq
      cases hmoves with
      | delta hevent hpayload =>
        rw [RunEvent.isDelta_iff hevent hpayload, Nat.cast_inj, Nat.cast_inj] at hdelta
        right
        exact ⟨hdelta.1, _, rfl, hdelta.2.le⟩
      | reset hevent _ _ _ => simp [RunEvent.IsDelta, hevent] at hdelta
      | generated hevent _ => simp [RunEvent.IsDelta, hevent] at hdelta
      | other hevent =>
        rw [hdelta.1] at hevent
        contradiction

-- The text that streams is made up of the deltas of its attempt.
theorem Told.text (h : Told journal telling) :
    ∀ stream ∈ telling.stream,
      stream.text = streamedText telling.version stream.attempt (events journal) := by
  induction h with
  | nil => simp
  | silent _ _ ih =>
    rw [events_append]
    simpa using ih
  | @event journal old new snapshot e htold hmoves _ ih =>
    rw [events_append]
    cases hmoves with
    | @delta attempt text delta hevent hpayload hstream =>
      rintro stream ⟨⟩
      have hdelta : e.IsDelta old.version attempt :=
        (RunEvent.isDelta_iff hevent hpayload).mpr ⟨rfl, rfl⟩
      have htext : text = streamedText old.version attempt (events journal) := by
        rcases hstream with ⟨hnone, _, hempty⟩ | hsome
        . rw [hempty, streamedText_eq_empty]
          intro e' he' hdelta'
          have hbound := htold.bounded he' hdelta'
          simp [hnone] at hbound
        . exact ih _ hsome
      dsimp only [Option.toList_some]
      rw [streamedText_concat hdelta, RunEvent.delta_eq hpayload, htext]
    | @reset attempt hevent _ _ hstream =>
      rintro stream ⟨⟩
      dsimp only [Option.toList_some]
      rw [streamedText_eq_empty]
      intro e' he' hdelta'
      rw [List.mem_append, List.mem_singleton] at he'
      cases he' with
      | inl hold =>
        have hbound := htold.bounded hold hdelta'
        simp only [lt_irrefl, true_and, false_or] at hbound
        obtain ⟨earlier, hearlier, hle⟩ := hbound
        have := hstream earlier hearlier
        omega
      | inr heq =>
        subst heq
        simp [RunEvent.IsDelta, hevent] at hdelta'
    | generated => simp
    | other hevent =>
      intro stream hmem
      rw [ih stream hmem, streamedText_append_of_not]
      intro e' he' hdelta'
      simp only [Option.toList_some, List.mem_singleton] at he'
      subst he'
      rw [hdelta'.1] at hevent
      contradiction

theorem Told.attempt_pos (h : Told journal telling) :
    ∀ stream ∈ telling.stream, 1 ≤ stream.attempt := by
  induction h with
  | nil => simp
  | silent _ _ ih => exact ih
  | @event journal old new snapshot e htold hmoves _ ih =>
    cases hmoves with
    | delta _ _ hstream =>
      rintro stream ⟨⟩
      rcases hstream with ⟨_, hattempt, _⟩ | hsome
      . exact hattempt.ge
      . have hpos := ih _ hsome
        exact hpos
    | reset _ _ hattempt _ =>
      rintro stream ⟨⟩
      exact hattempt
    | generated => simp
    | other => exact ih

-- What streams stands in a snapshot of the journal.
theorem Told.commit (h : Told journal telling) (hstream : telling.stream ≠ none) :
    ∃ commit ∈ journal, Matches telling commit.snapshot.text := by
  induction h with
  | nil => contradiction
  | silent _ _ ih =>
    obtain ⟨commit, hmem, hmatches⟩ := ih hstream
    exact ⟨commit, List.mem_append_left _ hmem, hmatches⟩
  | event _ _ hmatches => exact ⟨_, List.mem_append_right _ (List.mem_singleton.mpr rfl), hmatches⟩

-- What had been told before an event of the journal, and what it tells.
theorem Told.at_event (h : Told journal telling) {e : RunEvent} (he : e ∈ events journal) :
    ∃ before snapshot old new,
      before ++ [{ snapshot, event := some e }] <+: journal
        ∧ Told before old
        ∧ Moves old e new
        ∧ Matches new snapshot.text := by
  induction h with
  | nil => simp [events] at he
  | silent _ _ ih =>
    rw [events_append] at he
    obtain ⟨before, snapshot, old, new, hgrown, hrest⟩ := ih (by simpa using he)
    exact ⟨before, snapshot, old, new, hgrown.trans (List.prefix_append _ _), hrest⟩
  | @event journal old new snapshot e' htold hmoves hmatches ih =>
    simp only [events_append, Option.toList_some, List.mem_append, List.mem_singleton] at he
    cases he with
    | inl hold =>
      obtain ⟨before, snapshot, old, new, hgrown, hrest⟩ := ih hold
      exact ⟨before, snapshot, old, new, hgrown.trans (List.prefix_append _ _), hrest⟩
    | inr heq =>
      subst heq
      exact ⟨journal, snapshot, old, new, List.prefix_rfl, htold, hmoves, hmatches⟩

theorem Moves.version_le {old new : Telling} {e : RunEvent} (h : Moves old e new) :
    old.version ≤ new.version := by
  cases h with
  | generated => exact Nat.le_succ _
  | _ => exact Nat.le_refl _

-- The generations that have ended are told of.
theorem Told.generated (h : Told journal telling) {e : RunEvent} (he : e ∈ events journal)
    (hevent : e.event = .prdGenerated) :
    ∃ version attempt content,
      e.payload = generatedPayload version attempt content ∧ version < telling.version := by
  induction h with
  | nil => simp [events] at he
  | silent _ _ ih =>
    rw [events_append] at he
    exact ih (by simpa using he)
  | @event journal old new snapshot e' htold hmoves _ ih =>
    simp only [events_append, Option.toList_some, List.mem_append, List.mem_singleton] at he
    cases he with
    | inl hold =>
      obtain ⟨version, attempt, content, hpayload, hlt⟩ := ih hold
      exact ⟨version, attempt, content, hpayload, lt_of_lt_of_le hlt hmoves.version_le⟩
    | inr heq =>
      subst heq
      cases hmoves with
      | @generated attempt content _ hpayload =>
        exact ⟨old.version, attempt, content, hpayload, Nat.lt_succ_self _⟩
      | delta hother | reset hother =>
        rw [hevent] at hother
        contradiction
      | other hother =>
        rw [hevent] at hother
        contradiction

-- What is told after a part of the journal belongs to no version that has been generated by then.
theorem Told.later {before after : List Commit} (h : Told (before ++ after) telling) :
    ∃ mid, Told before mid
      ∧ mid.version ≤ telling.version
      ∧ ∀ e ∈ events after, ∀ version attempt : Nat, e.IsDelta version attempt →
          mid.version ≤ version := by
  generalize hwhole : before ++ after = whole at h
  induction h generalizing after with
  | nil =>
    rw [List.append_eq_nil_iff] at hwhole
    rw [hwhole.1, hwhole.2]
    exact ⟨_, .nil, Nat.le_refl _, by simp [events]⟩
  | silent htold hmatches ih =>
    rcases List.eq_nil_or_concat' after with rfl | ⟨rest, commit, rfl⟩
    . rw [List.append_nil] at hwhole
      rw [hwhole]
      exact ⟨_, .silent htold hmatches, Nat.le_refl _, by simp [events]⟩
    . rw [← List.append_assoc, List.append_singleton_inj] at hwhole
      obtain ⟨mid, hmid, hle, hrest⟩ := ih hwhole.1
      refine ⟨mid, hmid, hle, ?_⟩
      rw [hwhole.2, events_append]
      simpa using hrest
  | @event journal old new snapshot e' htold hmoves hmatches ih =>
    rcases List.eq_nil_or_concat' after with rfl | ⟨rest, commit, rfl⟩
    . rw [List.append_nil] at hwhole
      rw [hwhole]
      exact ⟨_, .event htold hmoves hmatches, Nat.le_refl _, by simp [events]⟩
    . rw [← List.append_assoc, List.append_singleton_inj] at hwhole
      obtain ⟨mid, hmid, hle, hrest⟩ := ih hwhole.1
      refine ⟨mid, hmid, hle.trans hmoves.version_le, ?_⟩
      rw [hwhole.2, events_append]
      simp only [Option.toList_some, List.forall_mem_append, List.forall_mem_singleton]
      refine ⟨hrest, ?_⟩
      intro version attempt hdelta
      cases hmoves with
      | delta hevent hpayload =>
        rw [RunEvent.isDelta_iff hevent hpayload, Nat.cast_inj, Nat.cast_inj] at hdelta
        rw [hdelta.1]
        exact hle
      | reset hother | generated hother =>
        rw [hdelta.1] at hother
        contradiction
      | other hother =>
        rw [hdelta.1] at hother
        contradiction

theorem generatedPayload_inj {version version' attempt attempt' : Nat} {content content' : String}
    (h : generatedPayload version attempt content = generatedPayload version' attempt' content') :
    version = version' ∧ attempt = attempt' ∧ content = content' := by
  simpa [generatedPayload, Json.ofNat] using h

-- The text of a version that has been generated is complete.
theorem Told.streamedText_generated {before after : List Commit} {version attempt other : Nat}
    {content : String} {e : RunEvent} (h : Told (before ++ after) telling) (he : e ∈ events before)
    (hevent : e.event = .prdGenerated)
    (hpayload : e.payload = generatedPayload version attempt content) :
    streamedText version other (events (before ++ after))
      =
    streamedText version other (events before) := by
  obtain ⟨mid, hmid, _, hlater⟩ := h.later
  obtain ⟨_, _, _, hsame, hlt⟩ := hmid.generated he hevent
  rw [hpayload] at hsame
  rw [← (generatedPayload_inj hsame).1] at hlt
  have hevents : events (before ++ after) = events before ++ events after := by
    unfold events
    rw [List.filterMap_append]
  rw [hevents, streamedText_append_of_not]
  intro e' he' hdelta
  have hle := hlater e' he' version other hdelta
  omega

-- `current_prd` behind a delta is the text that its attempt has streamed.
theorem Told.so_far {before : List Commit} {commit : Commit} {e : RunEvent} (h : Told journal telling)
    (hjournal : before ++ [commit] <+: journal) (he : commit.event = some e)
    (hevent : e.event = .prdDelta) :
    ∃ version attempt : Nat, ∃ delta,
      e.payload = deltaPayload version attempt delta
        ∧
      commit.snapshot.currentPrd
        = streamedText version attempt (events (before ++ [commit])) := by
  obtain ⟨after, rfl⟩ := hjournal
  obtain ⟨mid, hmid, _⟩ := h.later
  generalize hwhole : before ++ [commit] = whole at hmid ⊢
  cases hmid with
  | nil => simp at hwhole
  | silent =>
    rw [(List.append_singleton_inj.mp hwhole).2] at he
    contradiction
  | @event journal old new snapshot e' htold hmoves hmatches =>
    have htext := (Told.event htold hmoves hmatches).text
    obtain ⟨_, rfl⟩ := List.append_singleton_inj.mp hwhole
    cases he
    cases hmoves with
    | @delta attempt text delta _ hpayload =>
      refine ⟨old.version, attempt, delta, hpayload, ?_⟩
      rw [← htext _ rfl]
      exact (hmatches _ rfl).2.2.1
    | reset hother | generated hother =>
      rw [hevent] at hother
      contradiction
    | other hother =>
      rw [hevent] at hother
      contradiction

end Told

open Suffix

/--
The event store and the journal of a run within one process.
-/
structure Logged (store : SQLiteEventStore) (journal : List Commit) : Prop where
  increasing : Increasing RunEvent.sequence (events journal)
  le : ∀ e ∈ events journal, e.sequence ≤ store.sequence
  reached : store.sequence = 0 ∨ ∃ e ∈ events journal, e.sequence = store.sequence
  buffered : store.events <:+ events journal
  rows_eq : store.rows = (events journal).filter RunEvent.isDurable

section Logged

variable {store : SQLiteEventStore} {journal : List Commit} {snapshot : RunSnapshot}

theorem Logged.silent (h : Logged store journal) :
    Logged store (journal ++ [{ snapshot, event := none }]) := by
  have hevents : events (journal ++ [{ snapshot, event := none }]) = events journal := by
    simp [events_append]
  constructor
  . rw [hevents]
    exact h.increasing
  . rw [hevents]
    exact h.le
  . rw [hevents]
    exact h.reached
  . rw [hevents]
    exact h.buffered
  . rw [hevents]
    exact h.rows_eq

theorem Logged.event {e : RunEvent} (h : Logged store journal)
    (hsequence : e.sequence = store.sequence + 1) :
    Logged (store.pushRow e) (journal ++ [{ snapshot, event := some e }]) := by
  have hevents : events (journal ++ [{ snapshot, event := some e }]) = events journal ++ [e] := by
    simp [events_append]
  constructor
  . rw [hevents]
    apply increasing_append_singleton h.increasing
    intro a ha
    have := h.le a ha
    omega
  . rw [hevents]
    intro a ha
    change a.sequence ≤ e.sequence
    rw [List.mem_append, List.mem_singleton] at ha
    cases ha with
    | inl hold =>
      have := h.le a hold
      omega
    | inr heq => rw [heq]
  . rw [hevents]
    exact .inr ⟨e, by simp, rfl⟩
  . rw [hevents]
    change (store.events ++ [e]).rtake store.bufferSize <:+ _
    apply (rtake_suffix _ _).trans
    exact (List.suffix_append_inj_of_length_eq rfl).mpr ⟨h.buffered, rfl⟩
  . rw [hevents, List.filter_append, ← h.rows_eq]
    unfold SQLiteEventStore.pushRow
    cases hdurable : e.isDurable <;> simp [hdurable]

-- What a replay yields has been committed, and comes in order after the cursor.
theorem Logged.replay {afterSequence : Nat} {replayed : List RunEvent} (h : Logged store journal)
    (hreplay : store.replay afterSequence = .ok replayed) :
    Increasing RunEvent.sequence replayed
      ∧
    ∀ e ∈ replayed, afterSequence < e.sequence ∧ e ∈ events journal := by
  have hrows : Increasing RunEvent.sequence store.rows := by
    rw [h.rows_eq]
    exact h.increasing.filter _
  have hdurable :
      store.replayRows afterSequence = .ok replayed →
        replayed = [] ∨ replayed = store.rows.filter fun e => afterSequence < e.sequence := by
    intro hok
    unfold SQLiteEventStore.replayRows SQLiteEventStore.orderBySequence at hok
    rw [(hrows.filter fun e => afterSequence < e.sequence).insertionSort_eq] at hok
    split at hok
    . split at hok
      . contradiction
      . cases hok
        exact .inr rfl
    . cases hok
      exact .inl rfl
  have hfallback :
      store.replayRows afterSequence = .ok replayed →
        Increasing RunEvent.sequence replayed
          ∧
        ∀ e ∈ replayed, afterSequence < e.sequence ∧ e ∈ events journal := by
    intro hok
    cases hdurable hok with
    | inl hnil =>
      subst hnil
      exact ⟨List.Pairwise.nil, by simp⟩
    | inr heq =>
      subst heq
      refine ⟨hrows.filter _, ?_⟩
      intro e he
      rw [h.rows_eq] at he
      simp only [List.mem_filter, decide_eq_true_eq] at he
      exact ⟨he.2, he.1.1⟩
  unfold SQLiteEventStore.replay at hreplay
  split at hreplay
  . next first rest hbuffer =>
    split at hreplay
    . cases hreplay
      refine ⟨(h.increasing.of_suffix h.buffered).filter _, ?_⟩
      intro e he
      simp only [List.mem_filter, decide_eq_true_eq] at he
      exact ⟨he.2, h.buffered.subset he.1⟩
    . exact hfallback hreplay
  . exact hfallback hreplay

end Logged

end RunManager

end AgenticPrd
