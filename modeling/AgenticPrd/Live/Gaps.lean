import AgenticPrd.Live.Link

/-!
What a client is not sent. A replay from the rows leaves out the deltas, and only these. No harm is
done where a later event of the replay settles the text, provided that the client does not come back
in between and is served the rest of the attempt from the hot buffer.
-/

namespace AgenticPrd

-- A replay from here is served from the hot buffer.
def SQLiteEventStore.Buffers (store : SQLiteEventStore) (afterSequence : Nat) : Prop :=
  ∃ first ∈ store.events.head?, first.sequence ≤ afterSequence + 1

instance (store : SQLiteEventStore) (afterSequence : Nat) :
    Decidable (store.Buffers afterSequence) :=
  inferInstanceAs (Decidable (∃ first ∈ store.events.head?, _))

namespace Live

-- No delta follows of an attempt that has streamed before the event.
def settles : RunEventType → Bool
  | .prdStreamReset => true
  | .prdGenerated => true
  | event => event.ending.isSome

/--
The event settles the text behind the number `n`, and no replayed event in between is one from
where the hot buffer would serve.
-/
def Closes (store : SQLiteEventStore) (replayed : List RunEvent) (n : Nat) (e : RunEvent) : Prop :=
  n < e.sequence
    ∧ settles e.event = true
    ∧ ∀ between ∈ replayed, n < between.sequence ∧ between.sequence < e.sequence →
        ¬store.Buffers between.sequence

instance (store : SQLiteEventStore) (replayed : List RunEvent) (n : Nat) (e : RunEvent) :
    Decidable (Closes store replayed n e) :=
  inferInstanceAs (Decidable (_ ∧ _ ∧ ∀ between ∈ replayed, _ ∧ _ → _))

-- Whatever number the replay leaves out, a later event of it settles the text.
def Calibrated (store : SQLiteEventStore) (afterSequence : Nat) (replayed : List RunEvent) : Prop :=
  ∀ last ∈ replayed, ∀ n < last.sequence, afterSequence < n →
    (∀ e ∈ replayed, e.sequence ≠ n) → ∃ e ∈ replayed, Closes store replayed n e

instance (store : SQLiteEventStore) (afterSequence : Nat) (replayed : List RunEvent) :
    Decidable (Calibrated store afterSequence replayed) :=
  inferInstanceAs (Decidable (∀ last ∈ replayed, ∀ n < last.sequence, _))

-- Whatever number between the two has no row, a later row up to the second settles the text.
def Bridged (rows : List RunEvent) (first : ℚ) (last : Nat) : Prop :=
  ∀ n ≤ last, first < n → (∀ row ∈ rows, row.sequence ≠ n) →
    ∃ row ∈ rows, n < row.sequence ∧ row.sequence ≤ last ∧ settles row.event = true

instance (rows : List RunEvent) (first : ℚ) (last : Nat) : Decidable (Bridged rows first last) :=
  inferInstanceAs (Decidable (∀ n ≤ last, _))

end Live

namespace RunManager

open Suffix
open Live (settles)

section Over

variable {journal before after : List Commit} {telling old new : Telling} {version attempt : Nat}
  {e : RunEvent}

-- The attempt has ended, and streams nothing any more.
def Over (telling : Telling) (version attempt : Nat) : Prop :=
  version < telling.version
    ∨
  (version = telling.version ∧ ∃ stream ∈ telling.stream, attempt < stream.attempt)

theorem Over.moves (h : Over old version attempt) (hmoves : Moves old e new) :
    Over new version attempt ∧ ¬e.IsDelta version attempt := by
  cases hmoves with
  | @delta current text delta hevent hpayload hstream =>
    rw [RunEvent.isDelta_iff hevent hpayload, Nat.cast_inj, Nat.cast_inj]
    rcases h with hlt | ⟨rfl, stream, hmem, hlt⟩
    . exact ⟨.inl hlt, fun hsame => absurd hsame.1 hlt.ne⟩
    . rcases hstream with ⟨hnone, _⟩ | hsome
      . rw [hnone] at hmem
        contradiction
      . rw [hsome] at hmem
        cases hmem
        exact ⟨.inr ⟨rfl, _, rfl, hlt⟩, fun hsame => absurd hsame.2 hlt.ne⟩
  | reset hevent _ _ hstream =>
    constructor
    . rcases h with hlt | ⟨rfl, stream, hmem, hlt⟩
      . exact .inl hlt
      . exact .inr ⟨rfl, _, rfl, hlt.trans (hstream stream hmem)⟩
    . intro hdelta
      rw [hdelta.1] at hevent
      contradiction
  | generated hevent hpayload =>
    constructor
    . rcases h with hlt | ⟨rfl, _⟩
      . exact .inl (Nat.lt_succ_of_lt hlt)
      . exact .inl (Nat.lt_succ_self _)
    . intro hdelta
      rw [hdelta.1] at hevent
      contradiction
  | other hother =>
    refine ⟨h, ?_⟩
    intro hdelta
    rw [hdelta.1] at hother
    contradiction

theorem Told.over (h : Told (before ++ after) telling) :
    ∃ mid,
      Told before mid
        ∧ (Over mid version attempt →
          Over telling version attempt ∧ ∀ e ∈ events after, ¬e.IsDelta version attempt) := by
  generalize hwhole : before ++ after = whole at h
  induction h generalizing after with
  | nil =>
    rw [List.append_eq_nil_iff] at hwhole
    rw [hwhole.1, hwhole.2]
    exact ⟨_, .nil, fun hover => ⟨hover, by simp [events]⟩⟩
  | silent htold hmatches ih =>
    rcases List.eq_nil_or_concat' after with rfl | ⟨rest, commit, rfl⟩
    . rw [List.append_nil] at hwhole
      rw [hwhole]
      exact ⟨_, .silent htold hmatches, fun hover => ⟨hover, by simp [events]⟩⟩
    . rw [← List.append_assoc, List.append_singleton_inj] at hwhole
      obtain ⟨mid, hmid, hrest⟩ := ih hwhole.1
      refine ⟨mid, hmid, ?_⟩
      rw [hwhole.2, events_append]
      simpa using hrest
  | @event journal old new snapshot e' htold hmoves hmatches ih =>
    rcases List.eq_nil_or_concat' after with rfl | ⟨rest, commit, rfl⟩
    . rw [List.append_nil] at hwhole
      rw [hwhole]
      exact ⟨_, .event htold hmoves hmatches, fun hover => ⟨hover, by simp [events]⟩⟩
    . rw [← List.append_assoc, List.append_singleton_inj] at hwhole
      obtain ⟨mid, hmid, hrest⟩ := ih hwhole.1
      refine ⟨mid, hmid, ?_⟩
      intro hover
      obtain ⟨hold, hnone⟩ := hrest hover
      obtain ⟨hnew, hnot⟩ := hold.moves hmoves
      rw [hwhole.2, events_append]
      simp only [Option.toList_some, List.forall_mem_append, List.forall_mem_singleton]
      exact ⟨hnew, hnone, hnot⟩

end Over

section Log

variable {start s : RunSnapshot} {journal : List Commit} {telling : Telling} {version attempt : ℚ}
  {event : RunEventType} {payload : Payload} {e first last later : RunEvent}

theorem Told.natCast_of_isDelta (h : Told journal telling) (he : e ∈ events journal)
    (hdelta : e.IsDelta version attempt) : ∃ v a : Nat, version = v ∧ attempt = a := by
  obtain ⟨before, snapshot, old, new, _, _, hmoves, _⟩ := h.at_event he
  cases hmoves with
  | delta hevent hpayload =>
    obtain ⟨hversion, hattempt⟩ := (RunEvent.isDelta_iff hevent hpayload).mp hdelta
    exact ⟨_, _, hversion, hattempt⟩
  | reset hother | generated hother =>
    rw [hdelta.1] at hother
    contradiction
  | other hother =>
    rw [hdelta.1] at hother
    contradiction

-- An attempt that has ended is one whose text an event has settled.
theorem Told.settles_of_over {v a : Nat} (h : Told journal telling)
    (hincreasing : Increasing RunEvent.sequence (events journal)) (he : e ∈ events journal)
    (hdelta : e.IsDelta v a) (hover : Over telling v a) :
    ∃ last ∈ events journal, e.sequence < last.sequence ∧ settles last.event = true := by
  induction h with
  | nil => exact absurd he List.not_mem_nil
  | silent _ _ ih =>
    rw [events_append, Option.toList_none, List.append_nil] at hincreasing he ⊢
    exact ih hincreasing he hover
  | @event journal old new snapshot e' htold hmoves _ ih =>
    rw [events_append, Option.toList_some] at hincreasing he ⊢
    obtain ⟨hbefore, _, hbehind⟩ := List.pairwise_append.mp hincreasing
    rw [List.mem_append, List.mem_singleton] at he
    rcases he with hold | rfl
    . have hlast : e' ∈ events journal ++ [e'] := List.mem_append_right _ (List.mem_singleton_self _)
      have hlt := hbehind e hold e' (List.mem_singleton_self _)
      have hearlier : Over old v a →
          ∃ last ∈ events journal ++ [e'], e.sequence < last.sequence ∧ settles last.event = true := by
        intro hover'
        obtain ⟨last, hmem, hlast⟩ := ih hbefore hold hover'
        exact ⟨last, List.mem_append_left _ hmem, hlast⟩
      cases hmoves with
      | @delta current _ _ hevent _ hstream =>
        apply hearlier
        rcases hover with hversion | ⟨rfl, stream, hmem, hattempt⟩
        . exact .inl hversion
        . cases hmem
          have hbounded := htold.bounded hold hdelta
          refine hbounded.imp id ?_
          rintro ⟨hversion, stream, hmem, hle⟩
          rcases hstream with ⟨hnone, _⟩ | hsome
          . rw [hnone] at hmem
            contradiction
          . exact ⟨hversion, _, hsome, hattempt⟩
      | reset hevent => exact ⟨e', hlast, hlt, by rw [hevent]; rfl⟩
      | generated hevent => exact ⟨e', hlast, hlt, by rw [hevent]; rfl⟩
      | other => exact hearlier hover
    . cases hmoves with
      | delta hevent hpayload =>
        rw [RunEvent.isDelta_iff hevent hpayload, Nat.cast_inj, Nat.cast_inj] at hdelta
        obtain ⟨rfl, rfl⟩ := hdelta
        rcases hover with hlt | ⟨_, stream, hmem, hlt⟩
        . exact absurd hlt (Nat.lt_irrefl _)
        . cases hmem
          exact absurd hlt (Nat.lt_irrefl _)
      | reset hother | generated hother =>
        rw [hdelta.1] at hother
        contradiction
      | other hother =>
        rw [hdelta.1] at hother
        contradiction

theorem Change.ends (h : Change start (some event) payload s) (hending : event.ending.isSome = true) :
    s.status.isTerminal = true := by
  cases h with
  | moved hlegal htransit => cases htransit <;> first | contradiction | rfl
  | failed => rfl
  | _ => contradiction

theorem History.append {mid : RunSnapshot} {more : List Commit} (h : History start journal mid)
    (hmore : History mid more s) : History start (journal ++ more) s := by
  induction hmore with
  | nil =>
    rw [List.append_nil]
    exact h
  | silent _ hchange hstamped ih =>
    rw [← List.append_assoc]
    exact .silent ih hchange hstamped
  | event _ hchange hstamped hsequence hrun hiteration ih =>
    rw [← List.append_assoc]
    exact .event ih hchange hstamped hsequence hrun hiteration

-- A run that has ended streams nothing.
theorem History.quiet (h : History start journal s) (hterminal : start.status.isTerminal = true) :
    s.status.isTerminal = true ∧ ∀ e ∈ events journal, e.event ≠ .prdDelta := by
  induction h with
  | nil => exact ⟨hterminal, by simp [events]⟩
  | silent _ hchange hstamped ih =>
    rw [hstamped.status, hchange.terminal ih.1, events_append]
    simpa using ih
  | @event _ _ _ _ e _ hchange hstamped _ _ _ ih =>
    rw [hstamped.status, hchange.terminal ih.1, events_append]
    simp only [Option.toList_some, List.forall_mem_append, List.forall_mem_singleton]
    refine ⟨ih.1, ih.2, ?_⟩
    intro hdelta
    rw [hdelta] at hchange
    generalize e.payload = payload at hchange
    cases hchange with
    | moved _ htransit => cases htransit
    | streamed hopen =>
      rw [ih.1] at hopen
      contradiction

-- No delta of an attempt comes behind an event that has settled its text.
theorem not_isDelta_of_settles (htold : Told journal telling) (hhistory : History start journal s)
    (hincreasing : Increasing RunEvent.sequence (events journal)) (hfirst : first ∈ events journal)
    (hlast : last ∈ events journal) (hlater : later ∈ events journal)
    (hdelta : first.IsDelta version attempt) (hlt : first.sequence < last.sequence)
    (hsettles : settles last.event = true) (hlt' : last.sequence < later.sequence) :
    ¬later.IsDelta version attempt := by
  obtain ⟨v, a, rfl, rfl⟩ := htold.natCast_of_isDelta hfirst hdelta
  obtain ⟨before, snapshot, _, _, ⟨after, rfl⟩, _⟩ := htold.at_event hlast
  have hevents : events (before ++ [{ snapshot, event := some last }] ++ after)
      = events before ++ last :: events after := by
    unfold events
    simp
  rw [hevents] at hincreasing hfirst hlater
  obtain ⟨_, hbehind, hbefore⟩ := List.pairwise_append.mp hincreasing
  have hfirst' : first ∈ events before := by
    rw [List.mem_append, List.mem_cons] at hfirst
    rcases hfirst with hfirst | rfl | hfirst
    . exact hfirst
    . omega
    . have := (List.pairwise_cons.mp hbehind).1 first hfirst
      omega
  have hlater' : later ∈ events after := by
    rw [List.mem_append, List.mem_cons] at hlater
    rcases hlater with hlater | rfl | hlater
    . have := hbefore later hlater last List.mem_cons_self
      omega
    . omega
    . exact hlater
  obtain ⟨mid, hmid, hover⟩ := htold.over
  obtain ⟨old, hold, hmoves, _⟩ := hmid.of_event
  have hbounded := hold.bounded hfirst' hdelta
  by_cases hending : last.event.ending.isSome = true
  . obtain ⟨ended, hended, hrest⟩ := hhistory.split
    have hsnapshot : snapshot = ended := hended.last
    obtain ⟨_, _, hlastHistory⟩ := hended.split
    obtain ⟨changed, payload, sequence, hchange, hstamped⟩ := hlastHistory.of_singleton
    have hterminal : ended.status.isTerminal = true := by
      rw [hstamped.status]
      exact hchange.ends hending
    intro hdelta'
    exact (hrest.quiet hterminal).2 later hlater' hdelta'.1
  . apply (hover _).2 later hlater'
    cases hmoves with
    | delta hevent =>
      rw [hevent] at hsettles
      contradiction
    | reset hevent _ _ hstream =>
      refine hbounded.imp id ?_
      rintro ⟨hversion, stream, hmem, hle⟩
      exact ⟨hversion, _, rfl, hle.trans_lt (hstream stream hmem)⟩
    | generated =>
      left
      dsimp only
      omega
    | other hother =>
      exfalso
      generalize last.event = event at hsettles hending hother
      cases event <;> contradiction

end Log

section Buffer

variable {store store' : SQLiteEventStore} {journal journal' : List Commit} {n : Nat}
  {replayed : List RunEvent} {e last : RunEvent}

theorem mem_of_grown (hgrown : events journal <+: events journal')
    (hincreasing : Increasing RunEvent.sequence (events journal')) (hlast : last ∈ events journal)
    (he : e ∈ events journal') (hle : e.sequence ≤ last.sequence) : e ∈ events journal := by
  obtain ⟨more, hmore⟩ := hgrown
  rw [← hmore] at he hincreasing
  rw [List.mem_append] at he
  apply he.resolve_right
  intro hnew
  have := (List.pairwise_append.mp hincreasing).2.2 last hlast e hnew
  omega

theorem Logged.mem_buffered {first : RunEvent} {rest : List RunEvent} (h : Logged store journal)
    (hbuffer : store.events = first :: rest) (he : e ∈ events journal)
    (hle : first.sequence ≤ e.sequence) : e ∈ store.events := by
  have hsuffix := h.buffered
  rw [hbuffer] at hsuffix ⊢
  exact h.increasing.mem_of_suffix hsuffix he hle

-- A replay is served from the hot buffer with everything, or from the rows.
theorem Logged.replay_cases (h : Logged store journal) (hreplay : store.replay n = .ok replayed) :
    (store.Buffers n ∧ ∀ e ∈ events journal, n < e.sequence → e ∈ replayed)
      ∨
    (¬store.Buffers n
      ∧ (∀ e ∈ replayed, e.isDurable = true)
      ∧ (replayed ≠ [] →
        ∀ e ∈ events journal, e.isDurable = true → n < e.sequence → e ∈ replayed)) := by
  have hrows : Increasing RunEvent.sequence store.rows := by
    rw [h.rows_eq]
    exact h.increasing.filter _
  have hfallback :
      store.replayRows n = .ok replayed →
        (∀ e ∈ replayed, e.isDurable = true)
          ∧ (replayed ≠ [] →
            ∀ e ∈ events journal, e.isDurable = true → n < e.sequence → e ∈ replayed) := by
    intro hok
    unfold SQLiteEventStore.replayRows SQLiteEventStore.orderBySequence at hok
    rw [(hrows.filter fun e => n < e.sequence).insertionSort_eq] at hok
    split at hok
    . split at hok
      . contradiction
      . cases hok
        rw [h.rows_eq]
        constructor
        . intro e he
          exact (List.mem_filter.mp (List.mem_filter.mp he).1).2
        . intro _ e he hdurable hlt
          rw [List.mem_filter, List.mem_filter]
          exact ⟨⟨he, hdurable⟩, decide_eq_true hlt⟩
    . cases hok
      exact ⟨by simp, fun hne => absurd rfl hne⟩
  unfold SQLiteEventStore.replay at hreplay
  split at hreplay
  . next first rest hbuffer =>
    split at hreplay
    . next hle =>
      cases hreplay
      left
      constructor
      . refine ⟨first, ?_, hle⟩
        rw [hbuffer]
        rfl
      . intro e he hlt
        rw [List.mem_filter]
        exact ⟨h.mem_buffered hbuffer he (by omega), decide_eq_true hlt⟩
    . next hlt =>
      refine .inr ⟨?_, hfallback hreplay⟩
      rintro ⟨oldest, holdest, hle⟩
      rw [hbuffer] at holdest
      cases holdest
      exact hlt hle
  . next hbuffer =>
    refine .inr ⟨?_, hfallback hreplay⟩
    rintro ⟨oldest, holdest, _⟩
    rw [hbuffer] at holdest
    cases holdest

theorem History.numbered {start s : RunSnapshot} (h : History start journal s)
    (hlt : start.latestEventSequence < n) (hle : n ≤ s.latestEventSequence) :
    ∃ e ∈ events journal, e.sequence = n := by
  induction h with
  | nil => omega
  | silent _ hchange hstamped ih =>
    rw [hstamped.latest] at hle
    rw [events_append, Option.toList_none, List.append_nil]
    exact ih hle
  | event _ hchange hstamped hsequence _ _ ih =>
    rw [hstamped.latest] at hle
    rw [events_append, Option.toList_some]
    rcases Nat.eq_or_lt_of_le hle with rfl | hearlier
    . exact ⟨_, List.mem_append_right _ (List.mem_singleton_self _), rfl⟩
    . obtain ⟨e, he, heq⟩ := ih (by omega)
      exact ⟨e, List.mem_append_left _ he, heq⟩

-- Only deltas are left out, and only by a replay from the rows.
theorem isDelta_of_leftOut {env : WorkflowEnv} {runId : RunId} {request : CreateRunRequest}
    {outputLanguage : String} {bufferSize after : Nat} {c : Workflow.Config}
    (h : Workflow.Reachable env runId request outputLanguage bufferSize c)
    (hreplay : c.world.eventStore.replay after = .ok replayed) (hlast : last ∈ replayed)
    (hlt : after < n) (hle : n < last.sequence) (hnot : ∀ e ∈ replayed, e.sequence ≠ n) :
    ¬c.world.eventStore.Buffers after
      ∧
    ∃ e ∈ events c.world.journal, e.sequence = n ∧ e.event = .prdDelta := by
  have hsound := h.inv.sound
  have hlogged := hsound.logged
  have hbound := hlogged.le last ((hlogged.replay hreplay).2 last hlast).2
  rw [← hsound.latest] at hbound
  obtain ⟨e, he, rfl⟩ := h.history.numbered (Nat.zero_lt_of_lt hlt) (hle.le.trans hbound)
  rcases hlogged.replay_cases hreplay with ⟨_, hall⟩ | ⟨hfallback, _, hrows⟩
  . exact absurd rfl (hnot e (hall e he hlt))
  . refine ⟨hfallback, e, he, rfl, ?_⟩
    by_contra hother
    have hdurable : e.isDurable = true := by
      unfold RunEvent.isDurable RunEventType.isTransient
      cases hevent : e.event <;> first | rfl | exact absurd hevent hother
    exact hnot e (hrows (List.ne_nil_of_mem hlast) e he hdurable hlt) rfl

-- What the hot buffer does not serve it does not serve later on.
theorem not_buffers_of_grown (h : Logged store journal) (h' : Logged store' journal')
    (hgrown : events journal <+: events journal')
    (hevicted : ∀ e ∈ events journal, e ∈ store'.events → e ∈ store.events)
    (hlast : last ∈ events journal) (hlt : n < last.sequence) (hnot : ¬store.Buffers n) :
    ¬store'.Buffers n := by
  rintro ⟨first, hfirst, hle⟩
  have hmem : first ∈ store'.events := List.mem_of_head? hfirst
  have hlogged : first ∈ events journal :=
    mem_of_grown hgrown h'.increasing hlast (h'.buffered.subset hmem) (by omega)
  have hkept := hevicted first hlogged hmem
  cases hbuffer : store.events with
  | nil =>
    rw [hbuffer] at hkept
    exact absurd hkept List.not_mem_nil
  | cons oldest rest =>
    apply hnot
    refine ⟨oldest, by rw [hbuffer]; rfl, ?_⟩
    have hordered := h.increasing.of_suffix h.buffered
    rw [hbuffer] at hordered hkept
    have := hordered.head_le hkept
    omega

end Buffer

end RunManager

namespace Live

open RunManager Suffix

namespace Link

-- What is on its way.
def sent (link : Link) : List RunEvent :=
  match link.source with
  | .streaming sent => sent
  | _ => []

-- The client goes on from its cursor, or from a row that it is sent.
def Resumes (link : Link) (n : Nat) : Prop :=
  n = link.cursor ∨ ∃ e ∈ link.log, e.isDurable = true ∧ e.sequence = n

/--
From `first` on the client is sent no delta of the attempt. Its text is settled by `last`. Up to
there nothing but rows is on its way, and the hot buffer serves from none of these.
-/
structure Past (link : Link) (version attempt : ℚ) (first : Nat) (last : RunEvent) : Prop where
  mem : last ∈ link.log
  settles : settles last.event = true
  streamed : ∃ e ∈ link.log, e.sequence < last.sequence ∧ e.IsDelta version attempt
  durable :
    ∀ e ∈ link.sent, first < e.sequence → e.sequence < last.sequence → e.isDurable = true
  cut :
    ∀ n, first ≤ n → n < last.sequence → link.Resumes n →
      ¬link.server.world.eventStore.Buffers n

variable {start : RunSnapshot} {link link' : Link} {version attempt : ℚ} {first n : Nat}
  {e last : RunEvent}

theorem not_isDelta_of_durable (h : e.isDurable = true) : ¬e.IsDelta version attempt := by
  intro hdelta
  unfold RunEvent.isDurable at h
  rw [hdelta.1] at h
  contradiction

theorem Past.not_isDelta (h : link.Past version attempt first last)
    (hserver : Workflow.Inv link.server)
    (hhistory : History start link.server.world.journal link.server.world.snapshot)
    (he : e ∈ link.sent) (hlog : e ∈ link.log) (hlt : first < e.sequence) :
    ¬e.IsDelta version attempt := by
  rcases lt_trichotomy e.sequence last.sequence with hearlier | hsame | hlater
  . exact not_isDelta_of_durable (h.durable e he hlt hearlier)
  . have heq := hserver.sound.logged.increasing.eq_of_key hlog h.mem hsame
    intro hdelta
    have hsettles := h.settles
    rw [← heq, hdelta.1] at hsettles
    contradiction
  . obtain ⟨telling, htold, _⟩ := hserver.sound.told
    obtain ⟨old, hold, hearlier, hdelta⟩ := h.streamed
    exact not_isDelta_of_settles htold hhistory hserver.sound.logged.increasing hold h.mem hlog
      hdelta hearlier h.settles hlater

-- A step of the client.
theorem Past.move {first' : Nat} (h : link.Past version attempt first last)
    (hserver : link'.server = link.server) (hle : first ≤ first')
    (hsent :
      ∀ e ∈ link'.sent, first' < e.sequence → e.sequence < last.sequence → e.isDurable = true)
    (hcursor :
      first' ≤ link'.cursor → link'.cursor < last.sequence →
        ¬link.server.world.eventStore.Buffers link'.cursor) :
    link'.Past version attempt first' last := by
  have hlog : link'.log = link.log := by
    unfold log
    rw [hserver]
  constructor
  . rw [hlog]
    exact h.mem
  . exact h.settles
  . rw [hlog]
    exact h.streamed
  . exact hsent
  . rintro n hfirst hlast (rfl | ⟨e, he, hdurable, rfl⟩)
    . rw [hserver]
      exact hcursor hfirst hlast
    . rw [hlog] at he
      rw [hserver]
      exact h.cut _ (hle.trans hfirst) hlast (.inr ⟨e, he, hdurable, rfl⟩)

-- What is on its way may be lost.
theorem Past.quiet (h : link.Past version attempt first last) (hserver : link'.server = link.server)
    (hcursor : link'.cursor = link.cursor) (hsent : ∀ e ∈ link'.sent, e ∈ link.sent) :
    link'.Past version attempt first last := by
  apply h.move hserver (Nat.le_refl _)
  . intro e he
    exact h.durable e (hsent e he)
  . rw [hcursor]
    intro hfirst hlast
    exact h.cut _ hfirst hlast (.inl rfl)

theorem Past.receive {sent : List RunEvent} (h : link.Past version attempt first last)
    (hlog : e ∈ link.log) (hsent : link.sent = e :: sent) (hlt : first < e.sequence)
    (hserver : link'.server = link.server) (hcursor : link'.cursor = e.sequence)
    (hsent' : ∀ e ∈ link'.sent, e ∈ sent) : link'.Past version attempt e.sequence last := by
  apply h.move hserver hlt.le
  . intro later hlater hlt'
    apply h.durable later _ (hlt.trans hlt')
    rw [hsent]
    exact List.mem_cons_of_mem _ (hsent' later hlater)
  . rw [hcursor]
    intro _ hlast
    have hdurable : e.isDurable = true := by
      apply h.durable e _ hlt hlast
      rw [hsent]
      exact List.mem_cons_self
    exact h.cut _ hlt.le hlast (.inr ⟨e, hlog, hdurable, rfl⟩)

theorem Past.serve {server : Workflow.Config} (h : link.Past version attempt first last)
    (hlogged : Logged link.server.world.eventStore link.server.world.journal)
    (hsound : Sound link.server.world server.world) :
    ({ link with server } : Link).Past version attempt first last := by
  have hgrown := events_mono hsound.grown
  constructor
  . exact hgrown.subset h.mem
  . exact h.settles
  . obtain ⟨old, hold, hdelta⟩ := h.streamed
    exact ⟨old, hgrown.subset hold, hdelta⟩
  . exact h.durable
  . intro n hfirst hlast hresumes
    apply not_buffers_of_grown hlogged hsound.logged hgrown hsound.evicted h.mem hlast
    apply h.cut n hfirst hlast
    apply hresumes.imp_right
    rintro ⟨e, he, hdurable, rfl⟩
    exact ⟨e, mem_of_grown hgrown hsound.logged.increasing h.mem he hlast.le, hdurable, rfl⟩

section Send

variable {replayed : List RunEvent}

theorem yielded_nil (h : link.sent = []) : link.yielded link.sent = link.cursor := by
  unfold yielded
  rw [h]
  rfl

theorem exists_yielded (h : link.sent ≠ []) :
    ∃ e ∈ link.sent, e.sequence = link.yielded link.sent := by
  unfold yielded
  rw [List.getLast?_eq_some_getLast h]
  exact ⟨link.sent.getLast h, List.getLast_mem h, rfl⟩

theorem le_yielded (hordered : Increasing RunEvent.sequence link.sent) (he : e ∈ link.sent) :
    e.sequence ≤ link.yielded link.sent := by
  unfold yielded
  cases hsent : link.sent using List.reverseRecOn with
  | nil =>
    rw [hsent] at he
    exact absurd he List.not_mem_nil
  | append_singleton sent last =>
    rw [hsent] at he hordered
    rw [List.getLast?_append, List.getLast?_singleton, Option.some_or, Option.map_some,
      Option.getD_some]
    rw [List.mem_append, List.mem_singleton] at he
    rcases he with he | rfl
    . exact ((List.pairwise_append.mp hordered).2.2 e he last (List.mem_singleton_self _)).le
    . exact Nat.le_refl _

-- The connection with what is sent next.
def sending (link : Link) (replayed : List RunEvent) : Link :=
  { link with source := .streaming (link.sent ++ replayed) }

theorem Past.send (h : link.Past version attempt first last)
    (hlogged : Logged link.server.world.eventStore link.server.world.journal)
    (hreplay : link.server.world.eventStore.replay (link.yielded link.sent) = .ok replayed)
    (hahead : ∀ e ∈ link.sent, e ∈ link.log) (hfirst : first ≤ link.yielded link.sent)
    (hstrict : link.sent ≠ [] → first < link.yielded link.sent) :
    (link.sending replayed).Past version attempt first last := by
  have hnot : link.yielded link.sent < last.sequence →
      ¬link.server.world.eventStore.Buffers (link.yielded link.sent) := by
    intro hlast
    apply h.cut _ hfirst hlast
    by_cases hnil : link.sent = []
    . exact .inl (yielded_nil hnil)
    . obtain ⟨e, he, heq⟩ := exists_yielded hnil
      rw [← heq] at hlast hstrict ⊢
      exact .inr ⟨e, hahead e he, h.durable e he (hstrict hnil) hlast, rfl⟩
  have hserver : (link.sending replayed).server = link.server := rfl
  apply h.move hserver (Nat.le_refl _)
  . intro e he hlt hlast
    have hmem : e ∈ link.sent ++ replayed := he
    rw [List.mem_append] at hmem
    rcases hmem with hold | hnew
    . exact h.durable e hold hlt hlast
    . have hbehind := ((hlogged.replay hreplay).2 e hnew).1
      rcases hlogged.replay_cases hreplay with ⟨hbuffers, _⟩ | ⟨_, hdurable, _⟩
      . exact absurd hbuffers (hnot (hbehind.trans hlast))
      . exact hdurable e hnew
  . intro hle hlast
    exact h.cut _ hle hlast (.inl rfl)

-- A delta that a calibrated replay leaves out.
theorem past_of_calibrated
    (hlogged : Logged link.server.world.eventStore link.server.world.journal)
    (hreplay : link.server.world.eventStore.replay (link.yielded link.sent) = .ok replayed)
    (hcalibrated : Calibrated link.server.world.eventStore (link.yielded link.sent) replayed)
    (hordered : Increasing RunEvent.sequence link.sent)
    (hcursor : link.cursor ≤ link.yielded link.sent) (he : e ∈ link.log)
    (hlt : link.yielded link.sent < e.sequence) (hlast : last ∈ replayed)
    (hle : e.sequence < last.sequence) (hnot : e ∉ replayed) (hdelta : e.IsDelta version attempt) :
    ∃ last, (link.sending replayed).Past version attempt e.sequence last := by
  have hmem : ∀ e' ∈ replayed, e' ∈ link.log := fun e' he' => ((hlogged.replay hreplay).2 e' he').2
  have hleft : ∀ e' ∈ replayed, e'.sequence ≠ e.sequence := by
    intro e' he' hsame
    rw [hlogged.increasing.eq_of_key (hmem e' he') he hsame] at he'
    exact hnot he'
  obtain ⟨close, hclose, hbehind, hsettles, hbetween⟩ :=
    hcalibrated last hlast e.sequence hle hlt hleft
  rcases hlogged.replay_cases hreplay with ⟨_, hall⟩ | ⟨_, hdurable, hrows⟩
  . exact absurd (hall e he hlt) hnot
  . refine ⟨close, hmem close hclose, hsettles, ⟨e, he, hbehind, hdelta⟩, ?_, ?_⟩
    . intro later hlater hlt' _
      have hlater' : later ∈ link.sent ++ replayed := hlater
      rw [List.mem_append] at hlater'
      rcases hlater' with hold | hnew
      . have := le_yielded hordered hold
        omega
      . exact hdurable later hnew
    . rintro n hfirst hn (rfl | ⟨row, hrow, hrowDurable, rfl⟩)
      . have : (link.sending replayed).cursor = link.cursor := rfl
        omega
      . have hreplayed : row ∈ replayed :=
          hrows (List.ne_nil_of_mem hlast) row hrow hrowDurable (by omega)
        have hne := hleft row hreplayed
        exact hbetween row hreplayed ⟨by omega, hn⟩

end Send

theorem past_of_le (he : e ∈ link.log) (hlast : last ∈ link.log) (hlt : e.sequence < last.sequence)
    (hsettles : settles last.event = true) (hle : last.sequence ≤ link.cursor)
    (hdelta : e.IsDelta version attempt) : link.Past version attempt link.cursor last := by
  refine ⟨hlast, hsettles, ⟨e, he, hlt, hdelta⟩, ?_, ?_⟩
  . intro later _ hlater hlater'
    omega
  . intro n hfirst hn _
    omega

-- What has been left behind up to the cursor, when the rows up to there settle it.
theorem past_of_bridged {after : ℚ}
    (hlogged : Logged link.server.world.eventStore link.server.world.journal)
    (hbridged : Bridged link.server.world.eventStore.rows after n) (he : e ∈ link.log)
    (hlt : after < e.sequence) (hle : e.sequence ≤ n) (hn : n ≤ link.cursor)
    (hdelta : e.IsDelta version attempt) :
    ∃ last, link.Past version attempt link.cursor last := by
  have hrows : ∀ row ∈ link.server.world.eventStore.rows, row ∈ link.log ∧ row.isDurable = true := by
    rw [hlogged.rows_eq]
    exact fun row hrow => List.mem_filter.mp hrow
  have hleft : ∀ row ∈ link.server.world.eventStore.rows, row.sequence ≠ e.sequence := by
    intro row hrow hsame
    have hdurable := (hrows row hrow).2
    rw [hlogged.increasing.eq_of_key (hrows row hrow).1 he hsame] at hdurable
    exact not_isDelta_of_durable hdurable hdelta
  obtain ⟨last, hlast, hbehind, hupTo, hsettles⟩ := hbridged e.sequence hle hlt hleft
  exact ⟨last, past_of_le he (hrows last hlast).1 hbehind hsettles (hupTo.trans hn) hdelta⟩

end Link

end Live

end AgenticPrd
