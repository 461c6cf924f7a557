import AgenticPrd.Backend.RunManager.Change
import AgenticPrd.Backend.RunStore

/-!
What every commit keeps of a run whose database does not fail, and the rules by which the programs
of the run manager are used. The rules say what becomes of the `View`: the part of the world that
the control flow of the workflow depends on.
-/

namespace AgenticPrd

def ProviderCall.isStreamOf (iteration : Nat) : ProviderCall → Bool
  | streamPrd _ _ _ i _ _ _ => i == iteration
  | _ => false

-- `streams` counts the streaming calls for a version.
structure LoopView where
  currentIteration : Nat
  attempt : Nat
  maxIterations : Nat
  qualityThreshold : ℚ
  versions : List PRDVersion
  reviews : ReviewRole → Option RoleReview
  pendingRevisionPlan : Option RevisionPlan
  pendingUserOverride : Option String
  streams : Nat → Nat

structure View where
  status : RunStatus
  cancelSignal : Bool
  resumeSignal : Bool
  loop : LoopView

def World.view (w : World) : View :=
  {
    status := w.snapshot.status
    cancelSignal := w.cancelSignal
    resumeSignal := w.resumeSignal
    loop := {
      currentIteration := w.snapshot.currentIteration
      attempt := w.snapshot.currentPrdAttempt
      maxIterations := w.snapshot.maxIterations
      qualityThreshold := w.snapshot.qualityThreshold
      versions := w.snapshot.versions
      reviews := w.snapshot.reviews
      pendingRevisionPlan := w.snapshot.pendingRevisionPlan
      pendingUserOverride := w.snapshot.pendingUserOverride
      streams := fun i => w.calls.countP (ProviderCall.isStreamOf i)
    }
  }

@[simp]
theorem World.view_status (w : World) : w.view.status = w.snapshot.status :=
  rfl

def View.withStatus (status : RunStatus) (v : View) : View :=
  { v with status }

namespace RunManager

open Prog SQLiteRunStore

def Legal (current target : RunStatus) : Prop :=
  target = current ∨ current.canTransition target = true

-- The event that ends the run is stored beyond a snapshot that has not ended.
def Ahead (db : Database) : Prop :=
  db.runRow.status.isTerminal = false
    ∧
  ∃ row ∈ db.rows,
    (∃ status, row.event.ending = some status) ∧ db.runRow.latestEventSequence < row.sequence

def Consistent (entry : DiskWrite × Database) : Prop :=
  (entry.1.endsRun → Ahead entry.2) ∧ (¬entry.1.endsRun → Agrees entry.2)

theorem Consistent.of_agrees {entry : DiskWrite × Database} (hagrees : Agrees entry.2)
    (hkeeps : ¬entry.1.endsRun) : Consistent entry :=
  ⟨fun h => absurd h hkeeps, fun _ => hagrees⟩

def statuses (w : World) : List RunStatus :=
  w.journal.map fun commit => commit.snapshot.status

-- What the table `runs` holds for the run, and what it has held.
def savedRows (w : World) : List RunSnapshot :=
  w.runRow :: w.disk.map fun entry => entry.2.runRow

structure Sound (origin w : World) : Prop where
  grown : origin.journal <+: w.journal
  rows_le : ∀ row ∈ w.eventStore.rows, row.sequence ≤ w.eventStore.sequence
  iteration : ValidIteration w.snapshot.currentIteration
  chain : (RunStatus.queued :: statuses w).IsChain Legal
  last : (statuses w).getLastD .queued = w.snapshot.status
  row_status : w.runRow.status = w.snapshot.status
  latest : w.snapshot.latestEventSequence = w.eventStore.sequence
  row_latest : w.runRow.latestEventSequence ≤ w.eventStore.sequence
  ended :
    ∀ row ∈ w.eventStore.rows, ∀ status, row.event.ending = some status →
      w.snapshot.status = status
  closed :
    w.snapshot.status.isTerminal = true →
      ∃ row ∈ w.eventStore.rows, row.event.ending = some w.snapshot.status
  disk : ∀ entry ∈ w.disk, Consistent entry
  logged : Logged w.eventStore w.journal
  evicted : ∀ e ∈ events origin.journal, e ∈ w.eventStore.events → e ∈ origin.eventStore.events
  told :
    ∃ telling,
      Told w.journal telling
        ∧ Holds telling w.snapshot.text w.view.loop.streams
  history :
    ∃ later, w.journal = origin.journal ++ later ∧ History origin.snapshot later w.snapshot
  rows :
    ∀ row ∈ savedRows w, row ∈ savedRows origin ∨ ∃ commit ∈ w.journal, commit.snapshot = row

-- What the caller of a commit answers for: `s` is the snapshot that the mutation leaves.
structure Lawful (w : World) (s : RunSnapshot) (event : Option RunEventType)
    (payload : Payload) : Prop where
  iteration : ValidIteration s.currentIteration
  latest : s.latestEventSequence = w.snapshot.latestEventSequence
  status : Legal w.snapshot.status s.status
  transient : ∀ e ∈ event, e.isTransient = true → s.status = w.snapshot.status
  ending :
    ∀ e ∈ event, ∀ status, e.ending = some status →
      w.snapshot.status.isTerminal = false ∧ s.status = status
  closing :
    s.status.isTerminal = true →
      s.status = w.snapshot.status ∨ ∃ e ∈ event, e.ending = some s.status
  text : TextMove w.snapshot.text s.text w.view.loop.streams event payload
  change : Change w.snapshot event payload s

-- `w'` is `w` with the mutated snapshot `s` in memory, stamped but not yet published.
structure Prepared (w : World) (s : RunSnapshot) (w' : World) : Prop where
  eventStore : w'.eventStore = w.eventStore
  runRow : w'.runRow = w.runRow
  journal : w'.journal = w.journal
  disk : w'.disk = w.disk
  stamps :
    ∃ now elapsed, 0 ≤ elapsed ∧ w'.snapshot = (s.withUpdatedAt now).withElapsed elapsed
  view : w'.view = (w.withSnapshot s).view

variable {env : Env} {origin w w' : World} {s : RunSnapshot}

theorem Prepared.latest (h : Prepared w s w') :
    w'.snapshot.latestEventSequence = s.latestEventSequence := by
  obtain ⟨now, elapsed, _, heq⟩ := h.stamps
  rw [heq]
  rfl

theorem Prepared.text (h : Prepared w s w') : w'.snapshot.text = s.text := by
  obtain ⟨now, elapsed, _, heq⟩ := h.stamps
  rw [heq]
  rfl

theorem Prepared.stamped_event (h : Prepared w s w') (sequence : Nat) :
    Stamped s sequence (w'.snapshot.withSequence sequence) := by
  obtain ⟨now, elapsed, hnonneg, heq⟩ := h.stamps
  refine ⟨now, elapsed, hnonneg, ?_⟩
  rw [heq]

theorem Prepared.stamped_silent (h : Prepared w s w') :
    Stamped s s.latestEventSequence w'.snapshot := by
  obtain ⟨now, elapsed, hnonneg, heq⟩ := h.stamps
  refine ⟨now, elapsed, hnonneg, ?_⟩
  rw [heq]
  rfl

theorem Prepared.status (h : Prepared w s w') : w'.snapshot.status = s.status :=
  congrArg View.status h.view

theorem Prepared.iteration (h : Prepared w s w') :
    w'.snapshot.currentIteration = s.currentIteration :=
  congrArg (fun v => v.loop.currentIteration) h.view

theorem Prepared.stamped (env : Env) (w : World) (s : RunSnapshot) :
    Prepared w s (stamped env (w.withSnapshot s)) := by
  obtain ⟨now, elapsed, ticks, hnonneg, h⟩ := stamped_eq env (w.withSnapshot s)
  rw [h]
  exact {
    eventStore := rfl
    runRow := rfl
    journal := rfl
    disk := rfl
    stamps := ⟨now, elapsed, hnonneg, rfl⟩
    view := rfl
  }

-- Signals, clocks and the record of the attempt do not matter to `Sound`.
theorem Sound.congr (hw : Sound origin w) (hsnapshot : w'.snapshot = w.snapshot)
    (hstore : w'.eventStore = w.eventStore) (hrow : w'.runRow = w.runRow)
    (hjournal : w'.journal = w.journal) (hdisk : w'.disk = w.disk)
    (hstreams : w'.view.loop.streams = w.view.loop.streams) : Sound origin w' := by
  have htold := hw.told
  rw [← hstreams] at htold
  obtain ⟨_, _, _, _, _, _, _, _, _, _, _, _, _⟩ := w
  obtain ⟨_, _, _, _, _, _, _, _, _, _, _, _, _⟩ := w'
  dsimp only at hsnapshot hstore hrow hjournal hdisk htold
  subst hsnapshot hstore hrow hjournal hdisk
  exact {
    grown := hw.grown
    rows_le := hw.rows_le
    iteration := hw.iteration
    chain := hw.chain
    last := hw.last
    row_status := hw.row_status
    latest := hw.latest
    row_latest := hw.row_latest
    ended := hw.ended
    closed := hw.closed
    disk := hw.disk
    logged := hw.logged
    evicted := hw.evicted
    told := htold
    history := hw.history
    rows := hw.rows
  }

theorem World.le_streams_called (call : ProviderCall) (w : World) (i : Nat) :
    w.view.loop.streams i ≤ (w.called call).view.loop.streams i := by
  unfold World.view World.called
  simp only [List.countP_append]
  omega

theorem Sound.called (hw : Sound origin w) (call : ProviderCall)
    (hbegun :
      w.view.loop.streams w.snapshot.text.iteration = 0 →
        w.snapshot.text.prd = "" ∧ w.snapshot.text.attempt = 1) :
    Sound origin (w.called call) := by
  obtain ⟨telling, htold, hholds⟩ := hw.told
  have hcalled := hholds.withCall (World.le_streams_called call w) hbegun
  exact { hw with told := ⟨telling, htold, hcalled⟩ }

theorem Sound.restart (hw : Sound origin w) : Sound w w :=
  {
    grown := List.prefix_rfl
    rows_le := hw.rows_le
    iteration := hw.iteration
    chain := hw.chain
    last := hw.last
    row_status := hw.row_status
    latest := hw.latest
    row_latest := hw.row_latest
    ended := hw.ended
    closed := hw.closed
    disk := hw.disk
    logged := hw.logged
    evicted := fun _ _ hbuffered => hbuffered
    told := hw.told
    history := ⟨[], (List.append_nil _).symm, .nil⟩
    rows := fun _ hrow => .inl hrow
  }

theorem agrees_iff {db : Database} :
    Agrees db
      ↔
    ∀ row ∈ db.rows, ∀ status, row.event.ending = some status →
      (if db.runRow.status.isTerminal then db.runRow.status else .failed) = status := by
  unfold Agrees
  simp only [loadSnapshot_status]
  constructor
  . intro h
    exact h 0
  . intro h _
    exact h

-- A row that ends the run is only there when the stored snapshot has that end.
theorem agrees_of_ended {db : Database}
    (h : ∀ row ∈ db.rows, ∀ status, row.event.ending = some status → db.runRow.status = status) :
    Agrees db := by
  rw [agrees_iff]
  intro row hrow status hending
  have hstatus := h row hrow status hending
  rw [hstatus, if_pos (RunEventType.isTerminal_of_ending hending)]

theorem consistent_save {db : Database}
    (h : ∀ row ∈ db.rows, ∀ status, row.event.ending = some status → db.runRow.status = status) :
    Consistent (.saveSnapshot, db) := by
  unfold Consistent
  simp [agrees_of_ended h, DiskWrite.endsRun]

theorem consistent_insert {rows : List RunEvent} {runRow : RunSnapshot} {e : RunEvent}
    (hold : ∀ row ∈ rows, ∀ status, row.event.ending = some status → runRow.status = status)
    (hlatest : runRow.latestEventSequence < e.sequence)
    (hending : ∀ status, e.event.ending = some status → runRow.status.isTerminal = false) :
    Consistent (.insertEvent e, { rows := rows ++ [e], runRow }) := by
  have hnew : ∀ row ∈ rows ++ [e], row ∈ rows ∨ row = e := by
    intro row hrow
    rw [List.mem_append, List.mem_singleton] at hrow
    exact hrow
  cases he : e.event.ending with
  | none =>
    apply Consistent.of_agrees
    . apply agrees_of_ended
      intro row hrow status hstatus
      cases hnew row hrow with
      | inl hmem => exact hold row hmem status hstatus
      | inr heq =>
        rw [heq, he] at hstatus
        contradiction
    . rintro ⟨status, heq, _⟩
      rw [he] at heq
      contradiction
  | some status =>
    have hopen := hending status he
    have hnone : ∀ row ∈ rows, row.event.ending = none := by
      intro row hrow
      cases hrowEnding : row.event.ending with
      | none => rfl
      | some old =>
        have hterminal := RunEventType.isTerminal_of_ending hrowEnding
        rw [← hold row hrow old hrowEnding, hopen] at hterminal
        contradiction
    by_cases hfailed : status = .failed
    . apply Consistent.of_agrees
      . rw [agrees_iff, hopen]
        intro row hrow other hother
        cases hnew row hrow with
        | inl hmem =>
          rw [hnone row hmem] at hother
          contradiction
        | inr heq =>
          rw [heq, he, hfailed] at hother
          cases hother
          rfl
      . rintro ⟨other, heq, hne⟩
        rw [he, hfailed] at heq
        cases heq
        exact hne rfl
    . constructor
      . intro _
        exact ⟨hopen, e, by simp, ⟨status, he⟩, hlatest⟩
      . intro hkeeps
        exfalso
        apply hkeeps
        exact ⟨status, he, hfailed⟩

theorem isChain_concat {l : List RunStatus} {a b : RunStatus} (h : (a :: l).IsChain Legal)
    (hlast : Legal (l.getLastD a) b) : (a :: (l ++ [b])).IsChain Legal := by
  induction l generalizing a with
  | nil =>
    apply List.IsChain.cons_cons hlast
    apply List.isChain_singleton
  | cons c l ih =>
    rw [List.isChain_cons_cons] at h
    rw [List.cons_append, List.isChain_cons_cons]
    refine ⟨h.1, ih h.2 ?_⟩
    rw [List.getLastD_cons] at hlast
    exact hlast

theorem Prepared.tick (h : Prepared w s w') : Prepared w s w'.tick :=
  {
    eventStore := h.eventStore
    runRow := h.runRow
    journal := h.journal
    disk := h.disk
    stamps := h.stamps
    view := h.view
  }

-- The world after the commit of an event, and after one without an event.
def settled (e : RunEvent) (w : World) : World :=
  journaled (some e) (if e.isDurable then saved (published e w) else published e w)

def settledQuietly (w : World) : World :=
  journaled none (saved w)

theorem settled_view (e : RunEvent) (w : World) : (settled e w).view = w.view := by
  unfold settled published
  cases e.isDurable <;> rfl

theorem settled_eventStore (e : RunEvent) (w : World) :
    (settled e w).eventStore = w.eventStore.pushRow e := by
  unfold settled published
  cases e.isDurable <;> rfl

theorem settled_journal (e : RunEvent) (w : World) :
    (settled e w).journal
      =
    w.journal ++ [{ snapshot := w.snapshot.withSequence e.sequence, event := some e }] := by
  unfold settled published
  cases e.isDurable <;> rfl

theorem settled_statuses (e : RunEvent) (w : World) :
    statuses (settled e w) = statuses w ++ [w.snapshot.status] := by
  unfold settled published statuses
  cases e.isDurable <;> simp [journaled] <;> exact ⟨rfl, rfl⟩

theorem settled_status (e : RunEvent) (w : World) :
    (settled e w).snapshot.status = w.snapshot.status :=
  congrArg View.status (settled_view e w)

theorem settled_runRow (e : RunEvent) (w : World) :
    (settled e w).runRow.status = if e.isDurable then w.snapshot.status else w.runRow.status := by
  unfold settled published
  cases e.isDurable <;> rfl

theorem settled_latest (e : RunEvent) (w : World) :
    (settled e w).snapshot.latestEventSequence = e.sequence := by
  unfold settled published
  cases e.isDurable <;> rfl

theorem settled_row_latest (e : RunEvent) (w : World) :
    (settled e w).runRow.latestEventSequence
      =
    if e.isDurable then e.sequence else w.runRow.latestEventSequence := by
  unfold settled published
  cases e.isDurable <;> rfl

theorem settled_snapshot (e : RunEvent) (w : World) :
    (settled e w).snapshot = w.snapshot.withSequence e.sequence := by
  unfold settled published
  cases e.isDurable <;> rfl

theorem settled_text (e : RunEvent) (w : World) : (settled e w).snapshot.text = w.snapshot.text := by
  unfold settled published
  cases e.isDurable <;> rfl

theorem settled_disk (e : RunEvent) (w : World) :
    ∃ saved,
      saved.status = w.snapshot.status
        ∧
      (settled e w).disk
        =
      if e.isDurable then
        w.disk ++ [
          (.insertEvent e, { rows := w.eventStore.rows ++ [e], runRow := w.runRow }),
          (.saveSnapshot, { rows := w.eventStore.rows ++ [e], runRow := saved })
        ]
      else
        w.disk := by
  refine ⟨w.snapshot.withSequence e.sequence, rfl, ?_⟩
  unfold settled published
  cases he : e.isDurable with
  | true => simp [journaled, saved, World.wrote, World.database, World.mapSnapshot,
      World.withSnapshot, stored, World.withEventStore, SQLiteEventStore.pushRow, he]
  | false => rfl

theorem mem_savedRows_settled {e : RunEvent} {w : World} {row : RunSnapshot}
    (h : row ∈ savedRows (settled e w)) :
    row ∈ savedRows w ∨ row = w.snapshot.withSequence e.sequence := by
  unfold savedRows settled published at h
  cases hdurable : e.isDurable with
  | false =>
    rw [hdurable] at h
    exact .inl h
  | true =>
    rw [hdurable] at h
    simp only [if_true, journaled, saved, stored, World.wrote, World.database, World.mapSnapshot,
      World.withSnapshot, World.withEventStore, List.map_append, List.map_cons, List.map_nil,
      List.mem_cons, List.mem_append, List.not_mem_nil, or_false] at h
    unfold savedRows
    rw [List.mem_cons]
    rcases h with hnew | (hold | hrow) | hnew
    . exact .inr hnew
    . exact .inl (.inr hold)
    . exact .inl (.inl hrow)
    . exact .inr hnew

theorem mem_savedRows_settledQuietly {w : World} {row : RunSnapshot}
    (h : row ∈ savedRows (settledQuietly w)) : row ∈ savedRows w ∨ row = w.snapshot := by
  unfold savedRows settledQuietly journaled saved World.wrote World.database at h
  simp only [List.map_append, List.map_cons, List.map_nil, List.mem_cons, List.mem_append,
    List.not_mem_nil, or_false] at h
  unfold savedRows
  rw [List.mem_cons]
  rcases h with hnew | hold | hnew
  . exact .inr hnew
  . exact .inl (.inr hold)
  . exact .inr hnew

theorem Prepared.savedRows (h : Prepared w s w') : savedRows w' = RunManager.savedRows w := by
  unfold RunManager.savedRows
  rw [h.runRow, h.disk]

section Settled

variable {e : RunEvent} {event : Option RunEventType} {payload : Payload}

theorem Lawful.ended (hlaw : Lawful w s event payload)
    (hw : Sound origin w) {row : RunEvent} {status : RunStatus} (hrow : row ∈ w.eventStore.rows)
    (hending : row.event.ending = some status) : s.status = status := by
  have hstatus := hw.ended row hrow status hending
  cases hlaw.status with
  | inl heq =>
    rw [heq]
    exact hstatus
  | inr hlegal =>
    have hterminal := RunEventType.isTerminal_of_ending hending
    rw [hstatus, RunStatus.not_canTransition_of_isTerminal hterminal] at hlegal
    contradiction

theorem Lawful.chain (hlaw : Lawful w s event payload)
    (hw : Sound origin w) : (RunStatus.queued :: (statuses w ++ [s.status])).IsChain Legal := by
  apply isChain_concat hw.chain
  rw [hw.last]
  exact hlaw.status

-- What the log of the run is to the snapshot after the event `e` has been appended.
theorem Lawful.ended_append (hlaw : Lawful w s (some e.event) payload) (hw : Sound origin w) :
    ∀ row ∈ (w.eventStore.pushRow e).rows, ∀ status, row.event.ending = some status →
      s.status = status := by
  intro row hrow status hending
  cases SQLiteEventStore.mem_pushRow_rows.mp hrow with
  | inl hold => exact hlaw.ended hw hold hending
  | inr hnew =>
    rw [hnew.2] at hending
    exact (hlaw.ending e.event rfl status hending).2

theorem Sound.settled (hw : Sound origin w) (hpre : Prepared w s w')
    (hlaw : Lawful w s (some e.event) e.payload)
    (hsequence : e.sequence = w.eventStore.sequence + 1) (hrun : e.runId = w.snapshot.runId)
    (hiteration : e.iteration = s.currentIteration) :
    Sound origin (settled e w') := by
  have hstatus : (RunManager.settled e w').snapshot.status = s.status := by
    rw [settled_status, hpre.status]
  have hstatuses : statuses (RunManager.settled e w') = statuses w ++ [s.status] := by
    rw [settled_statuses, hpre.status]
    unfold statuses
    rw [hpre.journal]
  have hstore : (RunManager.settled e w').eventStore = w.eventStore.pushRow e := by
    rw [settled_eventStore, hpre.eventStore]
  have htext : (RunManager.settled e w').snapshot.text = s.text := by
    rw [settled_text, hpre.text]
  have hstreams : (RunManager.settled e w').view.loop.streams = w.view.loop.streams := by
    rw [settled_view, hpre.view]
    rfl
  exact {
    grown := by
      rw [settled_journal, hpre.journal]
      exact hw.grown.trans (List.prefix_append _ _)
    rows_le := by
      rw [hstore]
      intro row hrow
      change row.sequence ≤ e.sequence
      cases SQLiteEventStore.mem_pushRow_rows.mp hrow with
      | inl hold =>
        have := hw.rows_le row hold
        omega
      | inr hnew => rw [hnew.2]
    iteration := by
      change ValidIteration (RunManager.settled e w').view.loop.currentIteration
      rw [settled_view, hpre.view]
      exact hlaw.iteration
    chain := by
      rw [hstatuses]
      exact hlaw.chain hw
    last := by
      rw [hstatuses, hstatus, List.getLastD_concat]
    row_status := by
      rw [settled_runRow, hstatus, hpre.status, hpre.runRow, hw.row_status]
      split
      . rfl
      . next htransient =>
        apply (hlaw.transient e.event rfl _).symm
        simpa [RunEvent.isDurable] using htransient
    latest := by
      rw [settled_latest, hstore]
      rfl
    row_latest := by
      rw [settled_row_latest, hstore, hpre.runRow]
      change _ ≤ e.sequence
      have hold := hw.row_latest
      split <;> omega
    ended := by
      rw [hstore, hstatus]
      exact hlaw.ended_append hw
    closed := by
      rw [hstore, hstatus]
      intro hterminal
      cases hlaw.closing hterminal with
      | inl heq =>
        rw [heq] at hterminal ⊢
        obtain ⟨row, hrow, hending⟩ := hw.closed hterminal
        exact ⟨row, SQLiteEventStore.mem_pushRow_rows.mpr (.inl hrow), hending⟩
      | inr hnew =>
        obtain ⟨event, hevent, hending⟩ := hnew
        cases hevent
        refine ⟨e, SQLiteEventStore.mem_pushRow_rows.mpr (.inr ⟨?_, rfl⟩), hending⟩
        simp [RunEvent.isDurable, RunEventType.isTransient_of_ending hending]
    disk := by
      obtain ⟨last, hlast, hdisk⟩ := settled_disk e w'
      rw [hdisk, hpre.disk, hpre.eventStore, hpre.runRow]
      split
      . next hdurable =>
        have hinsert : Consistent
            (.insertEvent e, { rows := w.eventStore.rows ++ [e], runRow := w.runRow }) := by
          apply consistent_insert
          . intro row hrow status hending
            rw [hw.row_status]
            exact hw.ended row hrow status hending
          . have hold := hw.row_latest
            omega
          . intro status hending
            rw [hw.row_status]
            exact (hlaw.ending e.event rfl status hending).1
        have hsave : Consistent
            (.saveSnapshot, { rows := w.eventStore.rows ++ [e], runRow := last }) := by
          apply consistent_save
          intro row hrow status hending
          dsimp only at hrow ⊢
          rw [hlast, hpre.status]
          apply hlaw.ended_append hw row _ status hending
          unfold SQLiteEventStore.pushRow
          rw [if_pos hdurable]
          exact hrow
        intro entry hentry
        simp only [List.mem_append, List.mem_cons, List.not_mem_nil, or_false] at hentry
        rcases hentry with hold | rfl | rfl
        . exact hw.disk entry hold
        . exact hinsert
        . exact hsave
      . exact hw.disk
    logged := by
      rw [settled_journal, hstore, hpre.journal]
      exact hw.logged.event hsequence
    evicted := by
      intro old hold hbuffered
      rw [hstore] at hbuffered
      apply hw.evicted old hold
      apply (SQLiteEventStore.mem_pushRow_events hbuffered).resolve_right
      rintro rfl
      have hle := hw.logged.le old ((events_mono hw.grown).subset hold)
      omega
    told := by
      rw [settled_journal, hpre.journal, hstreams, htext]
      obtain ⟨telling, htold, hholds⟩ := hw.told
      obtain ⟨next, hmoves, hnext⟩ := hholds.event hlaw.text
      have hmatches : Matches next (w'.snapshot.withSequence e.sequence).text := by
        rw [← hpre.text] at hnext
        exact hnext.matches_text
      exact ⟨next, htold.event hmoves hmatches, hnext⟩
    history := by
      obtain ⟨later, hlater, hhistory⟩ := hw.history
      refine ⟨later ++ [{ snapshot := w'.snapshot.withSequence e.sequence, event := some e }], ?_, ?_⟩
      . rw [settled_journal, hpre.journal, hlater, List.append_assoc]
      . rw [settled_snapshot]
        have hnext : e.sequence = w.snapshot.latestEventSequence + 1 := by rw [hsequence, hw.latest]
        exact .event hhistory hlaw.change (hpre.stamped_event e.sequence) hnext hrun hiteration
    rows := by
      intro row hrow
      rw [settled_journal, hpre.journal]
      cases mem_savedRows_settled hrow with
      | inl hold =>
        rw [hpre.savedRows] at hold
        exact (hw.rows row hold).imp_right fun ⟨commit, hmem, heq⟩ =>
          ⟨commit, List.mem_append_left _ hmem, heq⟩
      | inr hnew => exact .inr ⟨_, List.mem_append_right _ (List.mem_singleton.mpr rfl), hnew.symm⟩
  }

theorem Sound.settledQuietly (hw : Sound origin w) (hpre : Prepared w s w')
    (hlaw : Lawful w s none payload) : Sound origin (settledQuietly w') := by
  have hstatus : (RunManager.settledQuietly w').snapshot.status = s.status := hpre.status
  have hstatuses : statuses (RunManager.settledQuietly w') = statuses w ++ [s.status] := by
    rw [← hpre.status]
    unfold statuses RunManager.settledQuietly journaled saved
    rw [← hpre.journal]
    simp [World.wrote]
  have hstore : (RunManager.settledQuietly w').eventStore = w.eventStore := hpre.eventStore
  have hlatest : w'.snapshot.latestEventSequence = w.eventStore.sequence := by
    rw [hpre.latest, hlaw.latest, hw.latest]
  have hjournal : (RunManager.settledQuietly w').journal
      = w'.journal ++ [{ snapshot := w'.snapshot, event := none }] := rfl
  exact {
    grown := by
      rw [hjournal, hpre.journal]
      exact hw.grown.trans (List.prefix_append _ _)
    rows_le := by
      rw [hstore]
      exact hw.rows_le
    iteration := by
      change ValidIteration w'.snapshot.currentIteration
      rw [hpre.iteration]
      exact hlaw.iteration
    chain := by
      rw [hstatuses]
      exact hlaw.chain hw
    last := by
      rw [hstatuses, hstatus, List.getLastD_concat]
    row_status := rfl
    latest := by
      rw [hstore]
      exact hlatest
    row_latest := by
      rw [hstore]
      exact hlatest.le
    ended := by
      rw [hstore, hstatus]
      intro row hrow status hending
      exact hlaw.ended hw hrow hending
    closed := by
      rw [hstore, hstatus]
      intro hterminal
      cases hlaw.closing hterminal with
      | inl heq =>
        rw [heq] at hterminal ⊢
        exact hw.closed hterminal
      | inr hnew => simp at hnew
    disk := by
      have hdisk : (RunManager.settledQuietly w').disk
          = w.disk ++ [(.saveSnapshot, { rows := w.eventStore.rows, runRow := w'.snapshot })] := by
        unfold RunManager.settledQuietly journaled saved World.wrote World.database
        rw [← hpre.disk, ← hpre.eventStore]
      rw [hdisk]
      intro entry hentry
      rw [List.mem_append, List.mem_singleton] at hentry
      cases hentry with
      | inl hold => exact hw.disk entry hold
      | inr heq =>
        rw [heq]
        apply consistent_save
        intro row hrow status hending
        change w'.snapshot.status = status
        rw [hpre.status]
        exact hlaw.ended hw hrow hending
    logged := by
      rw [hjournal, hstore, hpre.journal]
      exact hw.logged.silent
    evicted := by
      rw [hstore]
      exact hw.evicted
    told := by
      have htext : (RunManager.settledQuietly w').snapshot.text = s.text := hpre.text
      have hstreams : (RunManager.settledQuietly w').view.loop.streams = w.view.loop.streams :=
        congrArg (fun v => v.loop.streams) hpre.view
      obtain ⟨telling, htold, hholds⟩ := hw.told
      have hnext := hholds.silent hlaw.text
      rw [hjournal, hpre.journal, hstreams, htext]
      refine ⟨telling, htold.silent ?_, hnext⟩
      rw [hpre.text]
      exact hnext.matches_text
    history := by
      obtain ⟨later, hlater, hhistory⟩ := hw.history
      refine ⟨later ++ [{ snapshot := w'.snapshot, event := none }], ?_, ?_⟩
      . rw [hjournal, hpre.journal, hlater, List.append_assoc]
      . have hstamped := hpre.stamped_silent
        rw [hlaw.latest] at hstamped
        exact .silent hhistory hlaw.change hstamped
    rows := by
      intro row hrow
      rw [hjournal, hpre.journal]
      cases mem_savedRows_settledQuietly hrow with
      | inl hold =>
        rw [hpre.savedRows] at hold
        exact (hw.rows row hold).imp_right fun ⟨commit, hmem, heq⟩ =>
          ⟨commit, List.mem_append_left _ hmem, heq⟩
      | inr hnew => exact .inr ⟨_, List.mem_append_right _ (List.mem_singleton.mpr rfl), hnew.symm⟩
  }

end Settled

section Rules

variable {E : Exn → World → Prop} {Q : RunSnapshot → World → Prop}

theorem not_insertFails (hw : Sound origin w) {e : RunEvent} (hstore : w'.eventStore = w.eventStore)
    (hsequence : e.sequence = w.eventStore.sequence + 1) : ¬InsertFails .none w' e := by
  intro hfails
  obtain ⟨_, hraises | ⟨row, hrow, heq⟩⟩ := hfails
  . contradiction
  . rw [hstore] at hrow
    have := hw.rows_le row hrow
    omega

theorem wp_publish_sound {durable : Bool} {event : RunEventType} {payload : Payload}
    (hw : Sound origin w) (hpre : Prepared w s w') (hlaw : Lawful w s (some event) payload)
    (hdurable : durable = !event.isTransient)
    (hQ : ∀ w', Sound origin w' → w'.view = (w.withSnapshot s).view →
      (∃ sequence, Stamped s sequence w'.snapshot) → Q w'.snapshot w') :
    wp (publish env .none durable (some event) payload) w'
      (fun envelope w' => Q w'.snapshot (journaled envelope w')) E := by
  rw [wp_publish, hdurable]
  cases heq : envelope? env w' event payload with
  | none =>
    rw [envelope?_eq_none_iff, hpre.iteration] at heq
    exact absurd hlaw.iteration heq
  | some e =>
    obtain ⟨hsequence, hkept, hevent, hpayload, hiteration⟩ := envelope?_fields heq
    have hrun := envelope?_runId heq
    obtain ⟨now, elapsed, _, hsnapshot⟩ := hpre.stamps
    rw [hpre.eventStore] at hsequence
    rw [hsnapshot] at hrun hiteration
    rw [← hevent, ← hpayload] at hlaw
    have hsound := hw.settled hpre.tick hlaw hsequence (hrun.trans hlaw.change.sameRequest.runId)
      hiteration
    have hview : (settled e w'.tick).view = (w.withSnapshot s).view := by
      rw [settled_view]
      exact hpre.view
    have hstamped : ∃ sequence, Stamped s sequence (settled e w'.tick).snapshot := by
      rw [settled_snapshot]
      exact ⟨e.sequence, hpre.stamped_event e.sequence⟩
    have hfinal := hQ (settled e w'.tick) hsound hview hstamped
    dsimp only
    rw [if_neg (not_insertFails hw hpre.eventStore hsequence), ← hkept]
    unfold settled at hfinal
    cases hstored : e.isDurable with
    | true =>
      rw [hstored] at hfinal
      exact hfinal
    | false =>
      rw [hstored] at hfinal
      exact hfinal

theorem wp_publish_none_sound {durable : Bool} {payload : Payload} (hw : Sound origin w) (hpre : Prepared w s w')
    (hlaw : Lawful w s none payload)
    (hQ : ∀ w', Sound origin w' → w'.view = (w.withSnapshot s).view →
      (∃ sequence, Stamped s sequence w'.snapshot) → Q w'.snapshot w') :
    wp (publish env .none durable none payload) w'
      (fun envelope w' => Q w'.snapshot (journaled envelope w')) E := by
  rw [wp_publish_none]
  exact hQ (settledQuietly w') (hw.settledQuietly hpre hlaw) hpre.view ⟨_, hpre.stamped_silent⟩

-- The rule for callers that go on with the snapshot that the commit leaves.
theorem wp_commit_stamped {mutation : Prog RunSnapshot Exn Unit} {event : Option RunEventType}
    {payload : RunSnapshot → Payload} (hw : Sound origin w)
    (hmutation : wp mutation w.snapshot
      (fun _ s =>
        Lawful w s event (payload s)
          ∧
        ∀ w', Sound origin w' → w'.view = (w.withSnapshot s).view →
          (∃ sequence, Stamped s sequence w'.snapshot) → Q w'.snapshot w')
      (fun exn s => E exn (w.withSnapshot s))) :
    wp (commit env .none mutation event payload) w Q E := by
  rw [wp_commit]
  apply wp_mono hmutation
  . intro _ s hs
    have hpre := Prepared.stamped env w s
    cases event with
    | none => exact wp_publish_none_sound hw hpre hs.1 hs.2
    | some event => exact wp_publish_sound hw hpre hs.1 rfl hs.2
  . intro exn s hexn
    exact hexn

theorem wp_commit_sound {mutation : Prog RunSnapshot Exn Unit} {event : Option RunEventType}
    {payload : RunSnapshot → Payload} (hw : Sound origin w)
    (hmutation : wp mutation w.snapshot
      (fun _ s =>
        Lawful w s event (payload s)
          ∧
        ∀ w', Sound origin w' → w'.view = (w.withSnapshot s).view → Q w'.snapshot w')
      (fun exn s => E exn (w.withSnapshot s))) :
    wp (commit env .none mutation event payload) w Q E := by
  apply wp_commit_stamped hw
  apply wp_mono hmutation
  . intro _ s hs
    refine ⟨hs.1, ?_⟩
    intro w' hw' hview _
    exact hs.2 w' hw' hview
  . intro exn s hexn
    exact hexn

theorem Prepared.moved (env : Env) (target : RunStatus) (w : World) :
    Prepared w (moved env target w).snapshot (RunManager.stamped env (moved env target w)) := by
  obtain ⟨now, elapsed, ticks, hnonneg, h⟩ := stamped_eq env (RunManager.moved env target w)
  rw [h]
  obtain ⟨hstore, hrow, _⟩ := moved_frame env target w
  exact {
    eventStore := hstore
    runRow := hrow
    journal := by
      unfold RunManager.moved
      split <;> rfl
    disk := by
      unfold RunManager.moved
      split <;> rfl
    stamps := ⟨now, elapsed, hnonneg, rfl⟩
    view := by
      unfold RunManager.moved
      split <;> rfl
  }

theorem moved_view (env : Env) (target : RunStatus) (w : World) :
    (w.withSnapshot (moved env target w).snapshot).view = w.view.withStatus target := by
  unfold moved
  split <;> rfl

theorem moved_snapshot (env : Env) (target : RunStatus) (w : World) :
    (moved env target w).snapshot = w.snapshot.movedTo (env.utc w.ticks) target := by
  unfold moved RunSnapshot.movedTo
  split <;> rfl

theorem moved_latest (env : Env) (target : RunStatus) (w : World) :
    (moved env target w).snapshot.latestEventSequence = w.snapshot.latestEventSequence := by
  unfold moved
  split <;> rfl

theorem moved_text (env : Env) (target : RunStatus) (w : World) :
    (moved env target w).snapshot.text = w.snapshot.text := by
  unfold moved
  split <;> rfl

theorem Lawful.moved {target : RunStatus} {event : RunEventType} {payload : Payload}
    (hw : Sound origin w) (hlegal : w.snapshot.status.canTransition target = true)
    (hevent : event.isTransient = false) (hstream : event.isStream = false)
    (hending : event.ending = if target.isTerminal then some target else none)
    (htransit : Transit w.snapshot target event payload) :
    Lawful w (moved env target w).snapshot (some event)
      (transitionPayload w.snapshot.status target payload) := by
  have hframe := moved_frame env target w
  have hstatus := hframe.2.2.2
  exact {
    iteration := by
      rw [hframe.2.2.1]
      exact hw.iteration
    latest := moved_latest env target w
    status := by
      right
      rw [hstatus]
      exact hlegal
    transient := by
      intro e he htransient
      cases he
      rw [hevent] at htransient
      contradiction
    ending := by
      intro e he status hstatusEnding
      cases he
      rw [hending] at hstatusEnding
      split at hstatusEnding
      . cases hstatusEnding
        refine ⟨?_, hstatus⟩
        cases hterminal : w.snapshot.status.isTerminal with
        | false => rfl
        | true =>
          rw [RunStatus.not_canTransition_of_isTerminal hterminal] at hlegal
          contradiction
      . contradiction
    closing := by
      rw [hstatus]
      intro hterminal
      right
      refine ⟨event, rfl, ?_⟩
      rw [hending, if_pos hterminal]
    text := by
      apply TextMove.keep (moved_text env target w)
      intro e he
      cases he
      exact hstream
    change := by
      rw [moved_snapshot]
      exact .moved hlegal htransit
  }

-- `transition` to a status that the current one leads to.
theorem wp_transition_sound {target : RunStatus} {event : RunEventType} {payload : Payload}
    (hw : Sound origin w) (hlegal : w.snapshot.status.canTransition target = true)
    (hstream : event.isTransient = false ∧ event.isStream = false)
    (hending : event.ending = if target.isTerminal then some target else none)
    (htransit : Transit w.snapshot target event payload)
    (hQ : ∀ w', Sound origin w' → w'.view = w.view.withStatus target → Q w'.snapshot w') :
    wp (transition env .none target event payload) w Q E := by
  rw [wp_transition, if_pos hlegal]
  apply wp_publish_sound hw (Prepared.moved env target w)
    (Lawful.moved hw hlegal hstream.1 hstream.2 hending htransit) (by rw [hstream.1]; rfl)
  intro w' hsound hview _
  apply hQ w' hsound
  rw [hview, moved_view]

end Rules

end RunManager

end AgenticPrd
