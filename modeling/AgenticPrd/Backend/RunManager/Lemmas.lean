import AgenticPrd.Backend.EventStore.Replay
import AgenticPrd.Backend.RunManager.Basic

/-!
What the parts of a commit do, as rules for the weakest precondition of a program that runs them.
-/

namespace AgenticPrd

namespace RunManager

open Prog

variable {env : Env} {faults : Faults} {w : World} {α : Type}

def stored (envelope : RunEvent) (w : World) : World :=
  w.withEventStore (w.eventStore.pushRow envelope)

def published (envelope : RunEvent) (w : World) : World :=
  let written :=
    if envelope.isDurable then
      (stored envelope w).wrote (.insertEvent envelope)
    else
      stored envelope w
  written.mapSnapshot (RunSnapshot.withSequence envelope.sequence)

-- The hot buffer holds the envelope, and the row is missing.
def buffered (envelope : RunEvent) (w : World) : World :=
  w.withEventStore (w.eventStore.withBase (w.eventStore.push envelope))

def stamped (env : Env) (w : World) : World :=
  ((stamp env).run w).2

theorem activeElapsed_run (env : Env) (w : World) :
    ∃ elapsed ticks, 0 ≤ elapsed ∧ (activeElapsed env).run w = (.ok elapsed, { w with ticks }) := by
  obtain ⟨snapshot, eventStore, runRow, cancelSignal, resumeSignal, activeStarted, pausedStarted,
    pausedTotal, record, ticks, journal, disk, calls⟩ := w
  cases activeStarted with
  | none => exact ⟨0, ticks, le_rfl, rfl⟩
  | some started =>
    cases pausedStarted with
    | none => exact ⟨_, ticks + 1, le_max_left _ _, rfl⟩
    | some pausedAt => exact ⟨_, ticks + 2, le_max_left _ _, rfl⟩

theorem stamp_run (env : Env) (w : World) :
    ∃ now elapsed ticks,
      0 ≤ elapsed
        ∧
      (stamp env).run w
        =
      (
        .ok (),
        { w with snapshot := (w.snapshot.withUpdatedAt now).withElapsed elapsed, ticks }
      ) := by
  let read := w.tick.mapSnapshot (RunSnapshot.withUpdatedAt (env.utc w.ticks))
  obtain ⟨elapsed, ticks, hnonneg, helapsed⟩ := activeElapsed_run env read
  refine ⟨env.utc w.ticks, elapsed, ticks, hnonneg, ?_⟩
  have hbind : (stamp env).run w
      = (Prog.bind (activeElapsed env) fun elapsed =>
          modify (World.mapSnapshot (RunSnapshot.withElapsed elapsed))) read := rfl
  have helapsed' : activeElapsed env read = (.ok elapsed, { read with ticks }) := helapsed
  rw [hbind]
  unfold Prog.bind
  rw [helapsed']
  rfl

theorem stamped_eq (env : Env) (w : World) :
    ∃ now elapsed ticks,
      0 ≤ elapsed
        ∧
      stamped env w
        =
      { w with snapshot := (w.snapshot.withUpdatedAt now).withElapsed elapsed, ticks } := by
  obtain ⟨now, elapsed, ticks, hnonneg, h⟩ := stamp_run env w
  refine ⟨now, elapsed, ticks, hnonneg, ?_⟩
  unfold stamped
  rw [h]

@[simp]
theorem tick_snapshot : w.tick.snapshot = w.snapshot :=
  rfl

@[simp]
theorem tick_eventStore : w.tick.eventStore = w.eventStore :=
  rfl

@[simp]
theorem tick_runRow : w.tick.runRow = w.runRow :=
  rfl

section Rules

variable {E : Exn → World → Prop}

@[simp]
theorem wp_monotonic {Q : ℚ → World → Prop} :
    wp (monotonic env) w Q E ↔ Q (env.clock w.ticks) w.tick :=
  Iff.rfl

@[simp]
theorem wp_utcNow {Q : Timestamp → World → Prop} :
    wp (utcNow env) w Q E ↔ Q (env.utc w.ticks) w.tick :=
  Iff.rfl

@[simp]
theorem wp_stamp {Q : Unit → World → Prop} :
    wp (stamp env) w Q E ↔ Q () (stamped env w) := by
  obtain ⟨now, elapsed, ticks, _, h⟩ := stamp_run env w
  rw [wp_of_run_ok h]
  unfold stamped
  rw [h]

@[simp]
theorem wp_saveUnlocked {Q : Unit → World → Prop} :
    wp (saveUnlocked faults) w Q E
      ↔
    if faults.saveRaises then E .databaseError w else Q () (saved w) := by
  unfold saveUnlocked
  simp

@[simp]
theorem wp_finishCommit {event : Option RunEvent} {Q : RunSnapshot → World → Prop} :
    wp (finishCommit event) w Q E ↔ Q w.snapshot (journaled event w) := by
  unfold finishCommit
  simp [journaled]

def InsertFails (faults : Faults) (w : World) (envelope : RunEvent) : Prop :=
  envelope.isDurable = true
    ∧
  (faults.insertRaises = true ∨ ∃ row ∈ w.eventStore.rows, row.sequence = envelope.sequence)

instance (envelope : RunEvent) : Decidable (InsertFails faults w envelope) :=
  inferInstanceAs (Decidable (_ ∧ _))

def ValidIteration (iteration : Nat) : Prop :=
  1 ≤ iteration ∧ iteration ≤ 5

def envelope? (env : Env) (w : World) (event : RunEventType) (payload : Payload) :
    Option RunEvent :=
  RunEvent.validate? w.snapshot.runId (w.eventStore.sequence + 1) event (env.utc w.ticks)
    w.snapshot.currentIteration payload

theorem envelope?_eq_none_iff {event : RunEventType} {payload : Payload} :
    envelope? env w event payload = none ↔ ¬ValidIteration w.snapshot.currentIteration := by
  unfold envelope?
  apply RunEvent.validate?_eq_none_iff
  omega

theorem envelope?_runId {event : RunEventType} {payload : Payload} {e : RunEvent}
    (h : envelope? env w event payload = some e) : e.runId = w.snapshot.runId := by
  unfold envelope? RunEvent.validate? at h
  split at h
  . cases h
    rfl
  . contradiction

theorem envelope?_fields {event : RunEventType} {payload : Payload} {e : RunEvent}
    (h : envelope? env w event payload = some e) :
    e.sequence = w.eventStore.sequence + 1
      ∧
    e.isDurable = !event.isTransient
      ∧
    e.event = event ∧ e.payload = payload ∧ e.iteration = w.snapshot.currentIteration := by
  obtain ⟨hsequence, hevent, hiteration, hpayload⟩ := RunEvent.validate?_fields h
  refine ⟨hsequence, ?_, hevent, hpayload, hiteration⟩
  unfold RunEvent.isDurable
  rw [hevent]

theorem wp_appendEvent {event : RunEventType} {payload : Payload} {Q : RunEvent → World → Prop} :
    wp (appendEvent env faults event payload) w Q E
      ↔
    match envelope? env w event payload with
    | none => E .validationError w.tick
    | some e =>
      if InsertFails faults w e then
        E .databaseError (buffered e w.tick)
      else
        Q e (published e w.tick) := by
  unfold appendEvent envelope?
  simp only [wp_bind, wp_utcNow, wp_get, wp_zoom, SQLiteEventStore.wp_append]
  change (match RunEvent.validate? w.snapshot.runId (w.eventStore.sequence + 1) event
      (env.utc w.ticks) w.snapshot.currentIteration payload with | none => _ | some _ => _) ↔ _
  cases RunEvent.validate? w.snapshot.runId (w.eventStore.sequence + 1) event (env.utc w.ticks)
      w.snapshot.currentIteration payload with
  | none => rfl
  | some e =>
    dsimp only
    by_cases hfails : InsertFails faults w e
    . rw [if_pos hfails]
      split
      . rfl
      . contradiction
    . rw [if_neg hfails]
      split
      . contradiction
      . by_cases he : e.isDurable = true <;> simp [published, he] <;> rfl

theorem wp_publish {durable : Bool} {event : RunEventType} {payload : Payload}
    {Q : Option RunEvent → World → Prop} :
    wp (publish env faults durable (some event) payload) w Q E
      ↔
    match envelope? env w event payload with
    | none => E .validationError w.tick
    | some e =>
      if InsertFails faults w e then
        E .databaseError (buffered e w.tick)
      else if durable = false then
        Q (some e) (published e w.tick)
      else if faults.saveRaises then
        E .databaseError (published e w.tick)
      else
        Q (some e) (saved (published e w.tick)) := by
  unfold publish
  rw [wp_bind, wp_appendEvent]
  cases heq : envelope? env w event payload with
  | none => rfl
  | some e =>
    dsimp only
    by_cases hfails : InsertFails faults w e
    . rw [if_pos hfails, if_pos hfails]
    . rw [if_neg hfails, if_neg hfails, wp_ite]
      cases durable <;> simp

theorem wp_publish_none {durable : Bool} {payload : Payload} {Q : Option RunEvent → World → Prop} :
    wp (publish env faults durable none payload) w Q E
      ↔
    if faults.saveRaises then E .databaseError w else Q none (saved w) := by
  unfold publish
  simp

theorem wp_commit {mutation : Prog RunSnapshot Exn Unit} {event : Option RunEventType}
    {payload : RunSnapshot → Payload} {Q : RunSnapshot → World → Prop} :
    wp (commit env faults mutation event payload) w Q E
      ↔
    wp mutation w.snapshot
      (fun _ s =>
        wp (publish env faults (isSaved event) event (payload s)) (stamped env (w.withSnapshot s))
          (fun envelope w' => Q w'.snapshot (journaled envelope w')) E)
      (fun exn s => E exn (w.withSnapshot s)) := by
  unfold commit
  simp [World.withSnapshot]

-- The snapshot as `transition` writes it before the stamps.
def moved (env : Env) (target : RunStatus) (w : World) : World :=
  if target.isTerminal then
    (w.mapSnapshot (RunSnapshot.withStatus target)).tick.mapSnapshot
      (RunSnapshot.withEnd (env.utc w.ticks))
  else
    w.mapSnapshot (RunSnapshot.withStatus target)

def transitionPayload (previous target : RunStatus) (payload : Payload) : Payload :=
  Record.update [("previous", .str previous.value), ("current", .str target.value)] payload

theorem wp_transition {target : RunStatus} {event : RunEventType} {payload : Payload}
    {Q : RunSnapshot → World → Prop} :
    wp (transition env faults target event payload) w Q E
      ↔
    if w.snapshot.status.canTransition target then
      wp (publish env faults true (some event) (transitionPayload w.snapshot.status target payload))
        (stamped env (moved env target w))
        (fun envelope w' => Q w'.snapshot (journaled envelope w')) E
    else
      E (.illegalTransition w.snapshot.status target) w := by
  unfold transition
  simp only [wp_bind, wp_get, wp_requireTransition, wp_modify]
  by_cases hterminal : target.isTerminal = true
  . simp [hterminal, moved, transitionPayload]
    rfl
  . simp [hterminal, moved, transitionPayload]

end Rules

theorem moved_frame (env : Env) (target : RunStatus) (w : World) :
    (moved env target w).eventStore = w.eventStore ∧ (moved env target w).runRow = w.runRow
      ∧
    (moved env target w).snapshot.currentIteration = w.snapshot.currentIteration
      ∧
    (moved env target w).snapshot.status = target := by
  unfold moved
  split <;> exact ⟨rfl, rfl, rfl, rfl⟩

section Effects

/--
A commit that has left `s` apart from its stamps, and has announced it.
-/
structure Publishes (kind : RunEventType) (payload : Payload) (s : RunSnapshot) (w w' : World) :
    Prop where
  snapshot :
    ∃ now elapsed, w'.snapshot
      = ((s.withUpdatedAt now).withElapsed elapsed).withSequence (w.eventStore.sequence + 1)
  sequence : w'.eventStore.sequence = w.eventStore.sequence + 1
  journal :
    ∃ e, w'.journal = w.journal ++ [{ snapshot := w'.snapshot, event := some e }]
      ∧ e.runId = s.runId
      ∧ e.sequence = w.eventStore.sequence + 1
      ∧ e.event = kind ∧ e.payload = payload ∧ e.iteration = s.currentIteration

-- A commit without an event.
structure Saves (s : RunSnapshot) (w w' : World) : Prop where
  snapshot : ∃ now elapsed, w'.snapshot = (s.withUpdatedAt now).withElapsed elapsed
  sequence : w'.eventStore.sequence = w.eventStore.sequence
  journal : w'.journal = w.journal ++ [{ snapshot := w'.snapshot, event := none }]

theorem published_frame (e : RunEvent) (w : World) :
    (published e w).snapshot = w.snapshot.withSequence e.sequence
      ∧
    (published e w).eventStore.sequence = e.sequence ∧ (published e w).journal = w.journal := by
  unfold published
  split <;> exact ⟨rfl, rfl, rfl⟩

variable {mutation : Prog RunSnapshot Exn Unit} {payload : RunSnapshot → Payload}
  {P : RunSnapshot → Prop}

theorem Publishes.of_published {s : RunSnapshot} {w1 w2 : World} {kind : RunEventType}
    {payload : Payload} {e : RunEvent} {now : Timestamp} {elapsed : ℚ}
    (hsnapshot : w1.snapshot = (s.withUpdatedAt now).withElapsed elapsed)
    (hstore : w1.eventStore = w.eventStore) (hjournal : w1.journal = w.journal)
    (he : envelope? env w1 kind payload = some e)
    (hsnapshot2 : w2.snapshot = (published e w1.tick).snapshot)
    (hstore2 : w2.eventStore = (published e w1.tick).eventStore)
    (hjournal2 : w2.journal = (published e w1.tick).journal) :
    Publishes kind payload s w (journaled (some e) w2) := by
  obtain ⟨hsequence, _, hevent, hpayload, hiteration⟩ := envelope?_fields he
  have hrun := envelope?_runId he
  rw [hstore] at hsequence
  rw [hsnapshot] at hrun hiteration
  obtain ⟨hpublished, hpublishedStore, hpublishedJournal⟩ := published_frame e w1.tick
  exact {
    snapshot := by
      refine ⟨now, elapsed, ?_⟩
      change w2.snapshot = _
      rw [hsnapshot2, hpublished, tick_snapshot, hsnapshot, hsequence]
    sequence := by
      change w2.eventStore.sequence = _
      rw [hstore2, hpublishedStore, hsequence]
    journal := by
      refine ⟨e, ?_, hrun, hsequence, hevent, hpayload, hiteration⟩
      change w2.journal ++ _ = _
      rw [hjournal2, hpublishedJournal]
      change w1.journal ++ _ = _
      rw [hjournal]
      rfl
  }

theorem wp_commit_publishes {kind : RunEventType}
    (hmutation : wp mutation w.snapshot (fun _ => P) fun _ _ => True) :
    wp (commit env faults mutation (some kind) payload) w
      (fun _ w' => ∃ s, P s ∧ Publishes kind (payload s) s w w') fun _ _ => True := by
  rw [wp_commit]
  apply wp_mono hmutation
  . intro _ s hs
    obtain ⟨now, elapsed, ticks, _, hstamped⟩ := stamped_eq env (w.withSnapshot s)
    have hsnapshot := congrArg World.snapshot hstamped
    have hstore := congrArg World.eventStore hstamped
    have hjournal := congrArg World.journal hstamped
    rw [wp_publish]
    split
    . trivial
    . next e he =>
      split
      . trivial
      . split
        . exact ⟨s, hs, .of_published hsnapshot hstore hjournal he rfl rfl rfl⟩
        . split
          . trivial
          . exact ⟨s, hs, .of_published hsnapshot hstore hjournal he rfl rfl rfl⟩
  . intro _ _ _
    trivial

theorem wp_commit_saves (hmutation : wp mutation w.snapshot (fun _ => P) fun _ _ => True) :
    wp (commit env faults mutation none payload) w
      (fun _ w' => ∃ s, P s ∧ Saves s w w') fun _ _ => True := by
  rw [wp_commit]
  apply wp_mono hmutation
  . intro _ s hs
    obtain ⟨now, elapsed, ticks, _, hstamped⟩ := stamped_eq env (w.withSnapshot s)
    rw [hstamped, wp_publish_none]
    split
    . trivial
    . exact ⟨s, hs, { snapshot := ⟨now, elapsed, rfl⟩, sequence := rfl, journal := rfl }⟩
  . intro _ _ _
    trivial

end Effects

end RunManager

end AgenticPrd
