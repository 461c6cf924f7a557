import AgenticPrd.Backend.EventStore.Basic
import AgenticPrd.Lib.Transition

/-!
Replay from the hot buffer and from the durable rows agree on the durable events. `Valid` is what
appends and process restarts keep of a store whose first event is durable.
-/

namespace AgenticPrd

namespace SQLiteEventStore

open Suffix

structure Valid (store : SQLiteEventStore) : Prop where
  size_pos : 1 ≤ store.bufferSize
  rows_increasing : Increasing RunEvent.sequence store.rows
  events_increasing : Increasing RunEvent.sequence store.events
  rows_le : ∀ e ∈ store.rows, e.sequence ≤ store.sequence
  events_le : ∀ e ∈ store.events, e.sequence ≤ store.sequence
  rows_durable : ∀ e ∈ store.rows, e.isDurable = true
  buffered_rows : ∀ e ∈ store.events, e.isDurable = true → e ∈ store.rows
  covers :
    ∀ first ∈ store.events.head?, ∀ e ∈ store.rows, first.sequence ≤ e.sequence → e ∈ store.events
  first_row : ∀ first ∈ store.rows.head?, first.sequence = 1
  fresh : store.rows = [] → store.sequence = 0

def pushRow (store : SQLiteEventStore) (e : RunEvent) : SQLiteEventStore :=
  {
    bufferSize := store.bufferSize
    events := (store.events ++ [e]).rtake store.bufferSize
    sequence := e.sequence
    rows := if e.isDurable then store.rows ++ [e] else store.rows
  }

section Append

variable {store : SQLiteEventStore} {runId : RunId} {event : RunEventType} {iteration : Nat}
  {payload : Payload} {timestamp : Timestamp} {insertRaises : Bool}

theorem wp_append {Q : RunEvent → SQLiteEventStore → Prop} {E : Exn → SQLiteEventStore → Prop} :
    Prog.wp (append runId event iteration payload timestamp insertRaises) store Q E
      ↔
    match RunEvent.validate? runId (store.sequence + 1) event timestamp iteration payload with
    | none => E .validationError store
    | some e =>
      if e.isDurable = true
          ∧ (insertRaises = true ∨ ∃ row ∈ store.rows, row.sequence = e.sequence) then
        E .databaseError (store.withBase (store.push e))
      else
        Q e (store.pushRow e) := by
  unfold append EventStore.append insertRow
  rw [Prog.wp_bind, Prog.wp_zoom, Prog.wp_bind, Prog.wp_get]
  cases heq : RunEvent.validate? runId (store.sequence + 1) event timestamp iteration payload with
  | none =>
    simp [heq, withBase]
  | some e =>
    have hdurable : e.isDurable = !event.isTransient := by
      unfold RunEvent.isDurable
      rw [(RunEvent.validate?_fields heq).2.1]
    simp only [heq, Prog.wp_bind, Prog.wp_set, Prog.wp_pure]
    cases htransient : event.isTransient with
    | true => simp [pushRow, withBase, hdurable, htransient, EventStore.push]
    | false => simp [pushRow, withBase, hdurable, htransient, EventStore.push]

theorem append_ok {e : RunEvent} {store' : SQLiteEventStore}
    (h : (append runId event iteration payload timestamp insertRaises).run store = (.ok e, store')) :
    e.event = event ∧ e.sequence = store.sequence + 1 ∧ store' = store.pushRow e := by
  have hwp : Prog.wp (append runId event iteration payload timestamp insertRaises) store
      (fun e s => e.event = event ∧ e.sequence = store.sequence + 1 ∧ s = store.pushRow e)
      (fun _ _ => True) := by
    rw [wp_append]
    split
    . trivial
    . next e heq =>
      have hfields := RunEvent.validate?_fields heq
      split
      . trivial
      . exact ⟨hfields.2.1, hfields.1, rfl⟩
  exact (Prog.wp_of_run_ok h).mp hwp

end Append

theorem Valid.createRun {bufferSize : Nat} (h : 1 ≤ bufferSize) : (createRun bufferSize).Valid := by
  constructor <;> simp [SQLiteEventStore.createRun, EventStore.createRun, h]

theorem mem_pushRow_events {store : SQLiteEventStore} {e b : RunEvent}
    (h : b ∈ (store.pushRow e).events) : b ∈ store.events ∨ b = e := by
  have := (rtake_suffix _ _).subset h
  simpa using this

theorem mem_pushRow_rows {store : SQLiteEventStore} {e b : RunEvent} :
    b ∈ (store.pushRow e).rows ↔ b ∈ store.rows ∨ (e.isDurable = true ∧ b = e) := by
  unfold pushRow
  cases e.isDurable <;> simp

theorem Valid.mem_appended {store : SQLiteEventStore} {e b kept : RunEvent} (h : store.Valid)
    (hsequence : e.sequence = store.sequence + 1) (hb : b ∈ (store.pushRow e).rows)
    (hkept : kept ∈ (store.pushRow e).events) (hle : kept.sequence ≤ b.sequence) :
    b ∈ store.events ++ [e] := by
  rw [List.mem_append, List.mem_singleton]
  cases mem_pushRow_rows.mp hb with
  | inr heq => exact .inr heq.2
  | inl hrow =>
    left
    have hlast := h.rows_le b hrow
    cases mem_pushRow_events hkept with
    | inr heq =>
      subst heq
      omega
    | inl hold =>
      cases hevents : store.events with
      | nil => simp [hevents] at hold
      | cons oldest rest =>
        have hincreasing := h.events_increasing
        rw [hevents] at hincreasing hold
        have holdest := Increasing.head_le hincreasing hold
        rw [← hevents]
        apply h.covers oldest _ b hrow
        . omega
        . simp [hevents]

theorem Valid.pushRow {store : SQLiteEventStore} {e : RunEvent} (h : store.Valid)
    (hsequence : e.sequence = store.sequence + 1)
    (hfirst : store.sequence = 0 → e.isDurable = true) : (store.pushRow e).Valid := by
  have hevents : Increasing RunEvent.sequence (store.events ++ [e]) := by
    apply increasing_append_singleton h.events_increasing
    intro b hb
    have := h.events_le b hb
    omega
  constructor
  . exact h.size_pos
  . unfold SQLiteEventStore.pushRow
    split
    . apply increasing_append_singleton h.rows_increasing
      intro b hb
      have := h.rows_le b hb
      omega
    . exact h.rows_increasing
  . exact Increasing.of_suffix hevents (rtake_suffix _ _)
  . intro b hb
    change b.sequence ≤ e.sequence
    cases mem_pushRow_rows.mp hb with
    | inl hmem =>
      have := h.rows_le b hmem
      omega
    | inr heq => rw [heq.2]
  . intro b hb
    change b.sequence ≤ e.sequence
    cases mem_pushRow_events hb with
    | inl hmem =>
      have := h.events_le b hmem
      omega
    | inr heq => rw [heq]
  . intro b hb
    cases mem_pushRow_rows.mp hb with
    | inl hmem => exact h.rows_durable b hmem
    | inr heq =>
      rw [heq.2]
      exact heq.1
  . intro b hb hdurable
    apply mem_pushRow_rows.mpr
    cases mem_pushRow_events hb with
    | inl hmem => exact .inl (h.buffered_rows b hmem hdurable)
    | inr heq =>
      subst heq
      exact .inr ⟨hdurable, rfl⟩
  . intro first hhead b hb hle
    have hbuffered := h.mem_appended hsequence hb (List.mem_of_mem_head? hhead) hle
    cases hnew : (store.pushRow e).events with
    | nil => simp [hnew] at hhead
    | cons oldest rest =>
      rw [hnew] at hhead
      simp only [List.head?_cons, Option.mem_def, Option.some.injEq] at hhead
      subst hhead
      apply Increasing.mem_of_suffix hevents _ hbuffered hle
      rw [← hnew]
      exact rtake_suffix _ _
  . intro first hhead
    cases hrows : store.rows with
    | nil =>
      have hzero := h.fresh hrows
      simp only [SQLiteEventStore.pushRow, hfirst hzero, hrows] at hhead
      simp at hhead
      subst hhead
      omega
    | cons oldest rest =>
      apply h.first_row
      unfold SQLiteEventStore.pushRow at hhead
      rw [hrows] at hhead ⊢
      split at hhead
      . simpa using hhead
      . simpa using hhead
  . intro hrows
    have hnone : store.rows = [] := by
      unfold SQLiteEventStore.pushRow at hrows
      split at hrows <;> simp_all
    have hdurable := hfirst (h.fresh hnone)
    simp [SQLiteEventStore.pushRow, hdurable] at hrows

theorem le_foldl_max (events : List RunEvent) (initial : Nat) :
    initial ≤ events.foldl (fun sequence e => max sequence e.sequence) initial
      ∧
    ∀ e ∈ events, e.sequence ≤ events.foldl (fun sequence e => max sequence e.sequence) initial := by
  induction events generalizing initial with
  | nil => simp
  | cons a events ih =>
    have h := ih (max initial a.sequence)
    constructor
    . simp only [List.foldl_cons]
      omega
    . intro e he
      simp only [List.foldl_cons]
      cases he with
      | head => omega
      | tail _ hmem => exact h.2 e hmem

theorem Valid.adopt {store : SQLiteEventStore} {bufferSize initialSequence : Nat} (h : store.Valid)
    (hsize : 1 ≤ bufferSize) (hinitial : initialSequence ≤ store.sequence) :
    (adopt bufferSize initialSequence store.rows).Valid := by
  have horder : orderBySequence store.rows = store.rows := h.rows_increasing.insertionSort_eq
  have hsuffix := rtake_suffix bufferSize store.rows
  unfold SQLiteEventStore.adopt
  rw [horder]
  have hmax := le_foldl_max (store.rows.rtake bufferSize) initialSequence
  -- A row that is no longer in the buffer precedes some row that is.
  have hrow : ∀ first ∈ (store.rows.rtake bufferSize).head?, ∀ e ∈ store.rows,
      first.sequence ≤ e.sequence → e ∈ store.rows.rtake bufferSize := by
    intro first hhead e he hle
    cases hnewest : store.rows.rtake bufferSize with
    | nil => simp [hnewest] at hhead
    | cons oldest rest =>
      rw [hnewest] at hhead hsuffix
      simp only [List.head?_cons, Option.mem_def, Option.some.injEq] at hhead
      subst hhead
      exact h.rows_increasing.mem_of_suffix hsuffix he hle
  constructor
  . exact hsize
  . exact h.rows_increasing
  . exact h.rows_increasing.of_suffix hsuffix
  . intro e he
    change e.sequence ≤ (store.rows.rtake bufferSize).foldl _ initialSequence
    cases hnewest : store.rows.rtake bufferSize with
    | nil =>
      have hne := rtake_ne_nil hsize (List.ne_nil_of_mem he)
      contradiction
    | cons oldest rest =>
      rw [← hnewest]
      by_cases hle : oldest.sequence ≤ e.sequence
      . exact hmax.2 e (hrow oldest (by simp [hnewest]) e he hle)
      . have := hmax.2 oldest (by simp [hnewest])
        omega
  . exact hmax.2
  . exact h.rows_durable
  . intro e he _
    exact hsuffix.subset he
  . exact hrow
  . exact h.first_row
  . intro hrows
    have hrows' : store.rows = [] := hrows
    have := h.fresh hrows'
    simp [hrows']
    omega

theorem Valid.minSequence_rows {store : SQLiteEventStore} (h : store.Valid) :
    minSequence store.rows = none ∧ store.rows = [] ∨ minSequence store.rows = some 1 := by
  unfold minSequence
  cases hrows : store.rows with
  | nil => simp
  | cons first rest =>
    right
    have hfirst := h.first_row first (by simp [hrows])
    have hincreasing := h.rows_increasing
    rw [hrows] at hincreasing
    rw [List.min?_eq_some_iff]
    constructor
    . simp [hfirst]
    . intro b hb
      rw [List.mem_map] at hb
      obtain ⟨e, he, rfl⟩ := hb
      have := Increasing.head_le hincreasing he
      omega

theorem Valid.replayRows_eq {store : SQLiteEventStore} (h : store.Valid) (afterSequence : Nat) :
    store.replayRows afterSequence
      =
    .ok (store.rows.filter fun e => afterSequence < e.sequence) := by
  unfold replayRows
  have horder := (h.rows_increasing.filter fun e => afterSequence < e.sequence).insertionSort_eq
  cases h.minSequence_rows with
  | inl hnone =>
    rw [hnone.1, hnone.2]
    rfl
  | inr hone =>
    rw [hone]
    have hle : ¬(afterSequence + 1 < 1) := by omega
    simp only [hle, if_false]
    exact congrArg Except.ok horder

theorem Valid.replay_eq {store : SQLiteEventStore} (h : store.Valid) (afterSequence : Nat) :
    store.replay afterSequence
      =
    if ∃ first ∈ store.events.head?, first.sequence ≤ afterSequence + 1 then
      .ok (store.events.filter fun e => afterSequence < e.sequence)
    else
      .ok (store.rows.filter fun e => afterSequence < e.sequence) := by
  unfold replay
  cases hevents : store.events with
  | nil => simp [h.replayRows_eq]
  | cons first rest =>
    simp only [List.head?_cons, Option.mem_def, Option.some.injEq, exists_eq_left']
    rw [h.replayRows_eq]
    rfl

theorem Valid.durable_buffered {store : SQLiteEventStore} {first : RunEvent} {afterSequence : Nat}
    (h : store.Valid) (hhead : first ∈ store.events.head?)
    (hfirst : first.sequence ≤ afterSequence + 1) :
    (store.events.filter fun e => afterSequence < e.sequence).filter RunEvent.isDurable
      =
    store.rows.filter fun e => afterSequence < e.sequence := by
  apply Increasing.ext ((h.events_increasing.filter _).filter _) (h.rows_increasing.filter _)
  intro e
  simp only [List.mem_filter, decide_eq_true_eq]
  constructor
  . intro he
    exact ⟨h.buffered_rows e he.1.1 he.2, he.1.2⟩
  . intro he
    refine ⟨⟨?_, he.2⟩, h.rows_durable e he.1⟩
    apply h.covers first hhead e he.1
    omega

-- A subscriber at `afterSequence` has missed a buffered event that is gone.
def Behind (store : SQLiteEventStore) (afterSequence : Nat) : Prop :=
  ∃ first ∈ store.events.head?, afterSequence + 1 < first.sequence

theorem Valid.replay_spec {store : SQLiteEventStore} (h : store.Valid) (afterSequence : Nat) :
    ∃ events,
      store.replay afterSequence = .ok events
        ∧
      Increasing RunEvent.sequence events
        ∧
      (∀ e ∈ events, afterSequence < e.sequence ∧ (e ∈ store.rows ∨ e ∈ store.events))
        ∧
      (events.filter RunEvent.isDurable = store.rows.filter fun e => afterSequence < e.sequence)
        ∧
      (
        events = []
          ↔
        (∀ e ∈ store.rows, e.sequence ≤ afterSequence)
          ∧
        ((∀ e ∈ store.events, e.sequence ≤ afterSequence) ∨ store.Behind afterSequence)
      ) := by
  rw [h.replay_eq]
  split
  . next hcached =>
    obtain ⟨first, hhead, hfirst⟩ := hcached
    have hbuffered := h.durable_buffered hhead hfirst
    refine ⟨_, rfl, h.events_increasing.filter _, ?_, hbuffered, ?_⟩
    . intro e he
      rw [List.mem_filter] at he
      exact ⟨by simpa using he.2, .inr he.1⟩
    . constructor
      . intro hnil
        rw [hnil, List.filter_nil] at hbuffered
        rw [List.filter_eq_nil_iff] at hnil
        have hrows := List.filter_eq_nil_iff.mp hbuffered.symm
        refine ⟨?_, .inl ?_⟩
        . intro e he
          simpa using hrows e he
        . intro e he
          simpa using hnil e he
      . intro hempty
        rw [List.filter_eq_nil_iff]
        intro e he
        cases hempty.2 with
        | inl hle => simpa using hle e he
        | inr hbehind =>
          obtain ⟨oldest, holdest, hlt⟩ := hbehind
          rw [Option.mem_unique holdest hhead] at hlt
          omega
  . next hmissed =>
    refine ⟨_, rfl, h.rows_increasing.filter _, ?_, ?_, ?_⟩
    . intro e he
      rw [List.mem_filter] at he
      exact ⟨by simpa using he.2, .inl he.1⟩
    . rw [List.filter_eq_self]
      intro e he
      exact h.rows_durable e (List.mem_filter.mp he).1
    . rw [List.filter_eq_nil_iff]
      constructor
      . intro hrows
        refine ⟨fun e he => by simpa using hrows e he, ?_⟩
        cases hevents : store.events with
        | nil => simp
        | cons first rest =>
          right
          refine ⟨first, by simp [hevents], ?_⟩
          simp [hevents] at hmissed
          omega
      . intro hempty e he
        simpa using hempty.1 e he

inductive StoreOp where
  | append (event : RunEventType) (iteration : Nat) (payload : Payload) (timestamp : Timestamp)
  | restart (bufferSize initialSequence : Nat)

-- `log` are the events appended so far, over all processes.
structure StoreRun where
  store : SQLiteEventStore
  log : List RunEvent

def StoreRun.init (bufferSize : Nat) : StoreRun :=
  {
    store := createRun bufferSize
    log := []
  }

-- The first event of a run is durable, and a snapshot never is ahead of the event stream.
def StoreRun.step (runId : RunId) (run : StoreRun) : StoreOp → Option StoreRun
  | .append event iteration payload timestamp =>
    if run.log.isEmpty && event.isTransient then
      none
    else
      match (SQLiteEventStore.append runId event iteration payload timestamp false).run run.store with
      | (.ok envelope, store) => some { store, log := run.log ++ [envelope] }
      | (.error _, _) => none
  | .restart bufferSize initialSequence =>
    if 1 ≤ bufferSize ∧ initialSequence ≤ run.store.sequence then
      some { run with store := adopt bufferSize initialSequence run.store.rows }
    else
      none

structure StoreRun.Inv (run : StoreRun) : Prop where
  valid : run.store.Valid
  rows_eq : run.store.rows = run.log.filter RunEvent.isDurable
  log_nil : run.store.rows = [] → run.log = []

theorem StoreRun.Inv.init {bufferSize : Nat} (h : 1 ≤ bufferSize) : (init bufferSize).Inv :=
  {
    valid := Valid.createRun h
    rows_eq := by simp [StoreRun.init, SQLiteEventStore.createRun]
    log_nil := by simp [StoreRun.init]
  }

theorem StoreRun.Inv.push {run : StoreRun} {e : RunEvent} (h : run.Inv)
    (hsequence : e.sequence = run.store.sequence + 1) (hfirst : run.log = [] → e.isDurable = true) :
    Inv { store := run.store.pushRow e, log := run.log ++ [e] } := by
  refine {
    valid := ?_
    rows_eq := ?_
    log_nil := ?_
  }
  . apply h.valid.pushRow hsequence
    intro hzero
    apply hfirst
    apply h.log_nil
    rw [List.eq_nil_iff_forall_not_mem]
    intro row hrow
    have := h.valid.rows_le row hrow
    have := row.sequence_pos
    omega
  . rw [List.filter_append, ← h.rows_eq]
    unfold SQLiteEventStore.pushRow
    cases he : e.isDurable <;> simp [he]
  . intro hrows
    unfold SQLiteEventStore.pushRow at hrows
    split at hrows
    . simp at hrows
    . next hnot =>
      have := hfirst (h.log_nil hrows)
      contradiction

theorem StoreRun.step_append {runId : RunId} {run run' : StoreRun} {event : RunEventType}
    {iteration : Nat} {payload : Payload} {timestamp : Timestamp}
    (hstep : run.step runId (.append event iteration payload timestamp) = some run') :
    ∃ e,
      e.event = event
        ∧
      e.sequence = run.store.sequence + 1
        ∧
      (run.log = [] → e.isDurable = true)
        ∧
      run' = { store := run.store.pushRow e, log := run.log ++ [e] } := by
  simp only [StoreRun.step] at hstep
  split at hstep
  . contradiction
  . next hfirst =>
    split at hstep
    . next e store heq =>
      cases hstep
      have happend := append_ok heq
      refine ⟨e, happend.1, happend.2.1, ?_, ?_⟩
      . intro hlog
        unfold RunEvent.isDurable
        rw [happend.1]
        simpa [hlog] using hfirst
      . rw [happend.2.2]
    . contradiction

theorem StoreRun.Inv.step {runId : RunId} {run run' : StoreRun} {op : StoreOp} (h : run.Inv)
    (hstep : run.step runId op = some run') : run'.Inv := by
  cases op with
  | append event iteration payload timestamp =>
    obtain ⟨e, _, hsequence, hfirst, rfl⟩ := step_append hstep
    exact h.push hsequence hfirst
  | restart bufferSize initialSequence =>
    simp only [StoreRun.step] at hstep
    split at hstep
    . next hle =>
      cases hstep
      exact {
        valid := h.valid.adopt hle.1 hle.2
        rows_eq := h.rows_eq
        log_nil := h.log_nil
      }
    . contradiction

theorem StoreRun.reaches_inv {runId : RunId} {bufferSize : Nat} {run : StoreRun}
    (hsize : 1 ≤ bufferSize) (hrun : Transition.Reaches (step runId) (init bufferSize) run) :
    run.Inv := by
  apply hrun.invariant (Inv.init hsize)
  intro run op run' hinv _ hstep
  exact hinv.step hstep

/--
Replay after any cursor raises nothing and returns, in order, every durable event beyond the cursor.
It returns nothing only if the store holds nothing beyond the cursor, or holds nothing but deltas
whose predecessors are gone.
-/
theorem replay_correct {runId : RunId} {bufferSize : Nat} {run : StoreRun} (hsize : 1 ≤ bufferSize)
    (hrun : Transition.Reaches (StoreRun.step runId) (StoreRun.init bufferSize) run)
    (afterSequence : Nat) :
    ∃ events,
      run.store.replay afterSequence = .ok events
        ∧
      Increasing RunEvent.sequence events
        ∧
      (∀ e ∈ events, afterSequence < e.sequence ∧ (e ∈ run.store.rows ∨ e ∈ run.store.events))
        ∧
      (
        events.filter RunEvent.isDurable
          =
        (run.log.filter RunEvent.isDurable).filter fun e => afterSequence < e.sequence
      )
        ∧
      (
        events = []
          ↔
        (∀ e ∈ run.store.rows, e.sequence ≤ afterSequence)
          ∧
        ((∀ e ∈ run.store.events, e.sequence ≤ afterSequence) ∨ run.store.Behind afterSequence)
      ) := by
  have hinv := StoreRun.reaches_inv hsize hrun
  rw [← hinv.rows_eq]
  exact hinv.valid.replay_spec afterSequence

def deltaOps : List StoreOp :=
  .append .runStarted 1 [] 0 :: List.replicate 11 (.append .prdDelta 1 [] 0)

theorem replay_correct_deltas :
    ∃ run events,
      Transition.exec (StoreRun.step "run") (StoreRun.init 10) deltaOps = some run
        ∧
      run.store.replay 5 = .ok events
        ∧
      Increasing RunEvent.sequence events := by
  have hexec : (Transition.exec (StoreRun.step "run") (StoreRun.init 10) deltaOps).isSome := by
    decide +kernel
  rw [Option.isSome_iff_exists] at hexec
  obtain ⟨run, hrun⟩ := hexec
  obtain ⟨events, hreplay, hincreasing, _⟩ := replay_correct (by omega) (.of_exec hrun) 5
  exact ⟨run, events, hrun, hreplay, hincreasing⟩

def StoreRun.replaysNothing (run : StoreRun) (afterSequence : Nat) : Bool :=
  match run.store.replay afterSequence with
  | .ok events => events.isEmpty
  | .error _ => false

-- Ten buffer places hold the deltas 3 to 12, and a subscriber at 1 is given none of them.
theorem not_replay_complete :
    ¬∀ (runId : RunId) (bufferSize : Nat) (run : StoreRun) (afterSequence : Nat),
      1 ≤ bufferSize
        → Transition.Reaches (StoreRun.step runId) (StoreRun.init bufferSize) run
        → run.store.replay afterSequence = .ok []
        → ∀ e, e ∈ run.store.rows ∨ e ∈ run.store.events → e.sequence ≤ afterSequence := by
  intro hclaim
  have hexec :
      (Transition.exec (StoreRun.step "run") (StoreRun.init 10) deltaOps).any (fun run =>
        run.replaysNothing 1 && run.store.events.any fun e => 1 < e.sequence) := by
    decide +kernel
  rw [Option.any_eq_true] at hexec
  obtain ⟨run, hrun, hstall⟩ := hexec
  rw [Bool.and_eq_true, List.any_eq_true] at hstall
  obtain ⟨hnothing, e, he, hlt⟩ := hstall
  have hreplay : run.store.replay 1 = .ok [] := by
    unfold StoreRun.replaysNothing at hnothing
    split at hnothing
    . next events heq =>
      rw [List.isEmpty_iff] at hnothing
      rw [heq, hnothing]
    . contradiction
  have hle := hclaim "run" 10 run 1 (by omega) (.of_exec hrun) hreplay e (.inr he)
  simp only [decide_eq_true_eq] at hlt
  omega

end SQLiteEventStore

end AgenticPrd
