import AgenticPrd.Backend.EventStore.Replay

/-!
The subscription behind `RunManager.stream_events`. Its task is switched only where it suspends: at
a `yield`, in the wait for the condition, and between the timer of that wait and the resumption. A
timer may fire although the wait was notified, as the waiter then has not run yet.
-/

namespace AgenticPrd

open SQLiteEventStore Suffix

inductive SubscriberPc where
  | idle
  | yielding (cursor : Nat) (pending : List RunEvent)
  | waiting (cursor : Nat) (notified : Bool)
  | expired (cursor : Nat)
  | heartbeat (cursor : Nat)
  | returned (cursor : Nat)
  | raised (exn : Exn)

-- `yielded` and `start` are those of the current subscription, `interrupted` holds of a run that
-- `_load_snapshots` failed.
structure Subscription where
  run : StoreRun
  status : RunStatus
  accepting : Bool
  interrupted : Bool
  start : Nat
  yielded : List RunEvent
  pc : SubscriberPc

inductive SubscriptionOp where
  | append (event : RunEventType) (iteration : Nat) (payload : Payload) (timestamp : Timestamp)
  | finish (event : RunEventType) (iteration : Nat) (payload : Payload) (timestamp : Timestamp)
  | wake
  | subscribe (afterSequence : Nat)
  | resume
  | timeout
  | shutdown
  | restart (bufferSize initialSequence : Nat) (persisted : RunStatus)

namespace SubscriberPc

def notify : SubscriberPc → SubscriberPc
  | waiting cursor _ => waiting cursor true
  | pc => pc

def isExpired : SubscriberPc → Bool
  | expired _ => true
  | _ => false

def reached : SubscriberPc → Option Nat
  | returned cursor => some cursor
  | _ => none

theorem eq_returned {pc : SubscriberPc} {cursor : Nat} (h : pc.reached = some cursor) :
    pc = returned cursor := by
  cases pc <;> simp_all [reached]

end SubscriberPc

-- The steps in which the generator of the subscription runs.
def SubscriptionOp.isResume : SubscriptionOp → Bool
  | .resume => true
  | .subscribe _ => true
  | _ => false

namespace Subscription

def init (bufferSize : Nat) : Subscription :=
  {
    run := StoreRun.init bufferSize
    status := .queued
    accepting := true
    interrupted := false
    start := 0
    yielded := []
    pc := .idle
  }

def isTerminal (sub : Subscription) : Bool :=
  !sub.accepting || sub.status.isTerminal

-- The second replay, under the condition, reads the same store as the first.
def loop (sub : Subscription) (cursor : Nat) : Subscription :=
  match sub.run.store.replay cursor with
  | .error exn => { sub with pc := .raised exn }
  | .ok (e :: pending) =>
    {
      sub with
      yielded := sub.yielded ++ [e]
      pc := .yielding e.sequence pending
    }
  | .ok [] =>
    if sub.isTerminal then
      { sub with pc := .returned cursor }
    else
      { sub with pc := .waiting cursor false }

def resume (sub : Subscription) : Option Subscription :=
  match sub.pc with
  | .yielding _ (e :: pending) =>
    some {
      sub with
      yielded := sub.yielded ++ [e]
      pc := .yielding e.sequence pending
    }
  | .yielding cursor [] => some (sub.loop cursor)
  | .waiting cursor true => some (sub.loop cursor)
  | .expired cursor =>
    if sub.isTerminal then
      some { sub with pc := .returned cursor }
    else
      some { sub with pc := .heartbeat cursor }
  | .heartbeat cursor => some (sub.loop cursor)
  | _ => none

def opened (sub : Subscription) (afterSequence : Nat) : Subscription :=
  {
    sub with
    start := afterSequence
    yielded := []
    pc := .idle
  }

-- A run that has ended appends no delta, and a snapshot that is stored as ended has that end.
def step (runId : RunId) (sub : Subscription) : SubscriptionOp → Option Subscription
  | .append event iteration payload timestamp =>
    if sub.status.isTerminal && event.isTransient then
      none
    else
      (sub.run.step runId (.append event iteration payload timestamp)).map fun run =>
        { sub with run, pc := sub.pc.notify }
  | .finish event iteration payload timestamp =>
    match event.ending with
    | none => none
    | some target =>
      if sub.status.isTerminal then
        none
      else
        (sub.run.step runId (.append event iteration payload timestamp)).map fun run =>
          { sub with run, status := target, pc := sub.pc.notify }
  | .wake => some { sub with pc := sub.pc.notify }
  | .subscribe afterSequence =>
    some ((sub.opened afterSequence).loop afterSequence)
  | .resume => sub.resume
  | .timeout =>
    match sub.pc with
    | .waiting cursor _ => some { sub with pc := .expired cursor }
    | _ => none
  | .shutdown => some { sub with accepting := false, pc := sub.pc.notify }
  | .restart bufferSize initialSequence persisted =>
    if persisted.isTerminal && !(persisted == sub.status) then
      none
    else
      (sub.run.step runId (.restart bufferSize initialSequence)).map fun run =>
        {
          sub with
          run
          status := if persisted.isTerminal then persisted else .failed
          accepting := true
          interrupted := sub.interrupted || !persisted.isTerminal
          pc := .idle
        }

-- Everything durable between `start` and `bound` is among `events`.
def Delivered (start : Nat) (store : SQLiteEventStore) (events : List RunEvent) (bound : Nat) :
    Prop :=
  bound ≤ max start store.sequence
    ∧
  (∀ e ∈ events, e.sequence ≤ store.sequence)
    ∧
  ∀ row ∈ store.rows, start < row.sequence → row.sequence ≤ bound → row ∈ events

def reach (cursor : Nat) (pending : List RunEvent) : Nat :=
  pending.foldl (fun _ e => e.sequence) cursor

def NothingBeyond (store : SQLiteEventStore) (cursor : Nat) : Prop :=
  ∀ row ∈ store.rows, row.sequence ≤ cursor

-- If the run has ended, then by an event that has not been yielded.
def Unheard (status : RunStatus) (store : SQLiteEventStore) (yielded : List RunEvent) : Prop :=
  status.isTerminal = true → ∃ row ∈ store.rows, row.event.ending = some status ∧ row ∉ yielded

-- A subscriber waits from a replay on that has found nothing, of a run that has not ended.
def PcInv (start : Nat) (status : RunStatus) (store : SQLiteEventStore) (yielded : List RunEvent) :
    SubscriberPc → Prop
  | .yielding cursor pending => Delivered start store (yielded ++ pending) (reach cursor pending)
  | .waiting cursor _ => Delivered start store yielded cursor ∧ Unheard status store yielded
  | .expired cursor => Delivered start store yielded cursor ∧ Unheard status store yielded
  | .heartbeat cursor => Delivered start store yielded cursor
  | _ => True

structure Inv (sub : Subscription) : Prop where
  run : sub.run.Inv
  settled :
    sub.status.isTerminal = true →
      ∀ e ∈ sub.run.store.events, ∃ row ∈ sub.run.store.rows, e.sequence ≤ row.sequence
  ending :
    sub.status.isTerminal = true → sub.interrupted = false →
      ∃ row ∈ sub.run.store.rows, row.event.ending = some sub.status
  pc : PcInv sub.start sub.status sub.run.store sub.yielded sub.pc

theorem Delivered.pushRow {start bound : Nat} {store : SQLiteEventStore} {events : List RunEvent}
    {e : RunEvent} (h : Delivered start store events bound)
    (hsequence : e.sequence = store.sequence + 1) :
    Delivered start (store.pushRow e) events bound := by
  obtain ⟨hbound, hle, hrows⟩ := h
  refine ⟨?_, ?_, ?_⟩
  . change bound ≤ max start e.sequence
    omega
  . intro a ha
    have hold := hle a ha
    change a.sequence ≤ e.sequence
    omega
  . intro row hrow hstart hreached
    cases mem_pushRow_rows.mp hrow with
    | inl hold => exact hrows row hold hstart hreached
    | inr heq =>
      rw [heq.2] at hstart hreached
      omega

theorem Unheard.pushRow {status : RunStatus} {store : SQLiteEventStore} {yielded : List RunEvent}
    {e : RunEvent} (h : Unheard status store yielded) : Unheard status (store.pushRow e) yielded := by
  intro hterminal
  obtain ⟨row, hrow, hending⟩ := h hterminal
  exact ⟨row, mem_pushRow_rows.mpr (.inl hrow), hending⟩

-- The event that ends the run is a new one.
theorem Unheard.finish {start cursor : Nat} {target : RunStatus} {store : SQLiteEventStore}
    {yielded : List RunEvent} {e : RunEvent} (h : Delivered start store yielded cursor)
    (hsequence : e.sequence = store.sequence + 1) (hending : e.event.ending = some target) :
    Unheard target (store.pushRow e) yielded := by
  intro _
  refine ⟨e, ?_, hending, ?_⟩
  . apply mem_pushRow_rows.mpr
    right
    simp [RunEvent.isDurable, RunEventType.isTransient_of_ending hending]
  . intro hmem
    have hle := h.2.1 e hmem
    omega

theorem PcInv.pushRow {start : Nat} {status : RunStatus} {store : SQLiteEventStore}
    {yielded : List RunEvent} {pc : SubscriberPc} {e : RunEvent}
    (h : PcInv start status store yielded pc) (hsequence : e.sequence = store.sequence + 1) :
    PcInv start status (store.pushRow e) yielded pc.notify := by
  cases pc with
  | yielding cursor pending => exact Delivered.pushRow h hsequence
  | waiting cursor notified => exact ⟨h.1.pushRow hsequence, h.2.pushRow⟩
  | expired cursor => exact ⟨h.1.pushRow hsequence, h.2.pushRow⟩
  | heartbeat cursor => exact Delivered.pushRow h hsequence
  | idle => trivial
  | returned cursor => trivial
  | raised exn => trivial

theorem PcInv.finish {start : Nat} {status target : RunStatus} {store : SQLiteEventStore}
    {yielded : List RunEvent} {pc : SubscriberPc} {e : RunEvent}
    (h : PcInv start status store yielded pc) (hsequence : e.sequence = store.sequence + 1)
    (hending : e.event.ending = some target) :
    PcInv start target (store.pushRow e) yielded pc.notify := by
  cases pc with
  | yielding cursor pending => exact Delivered.pushRow h hsequence
  | waiting cursor notified => exact ⟨h.1.pushRow hsequence, .finish h.1 hsequence hending⟩
  | expired cursor => exact ⟨h.1.pushRow hsequence, .finish h.1 hsequence hending⟩
  | heartbeat cursor => exact Delivered.pushRow h hsequence
  | idle => trivial
  | returned cursor => trivial
  | raised exn => trivial

theorem PcInv.notify {start : Nat} {status : RunStatus} {store : SQLiteEventStore}
    {yielded : List RunEvent} {pc : SubscriberPc} (h : PcInv start status store yielded pc) :
    PcInv start status store yielded pc.notify := by
  cases pc with
  | waiting cursor notified => exact h
  | _ => exact h

theorem foldl_sequence_le {pending : List RunEvent} {cursor bound : Nat} (hcursor : cursor ≤ bound)
    (hpending : ∀ e ∈ pending, e.sequence ≤ bound) : reach cursor pending ≤ bound := by
  induction pending generalizing cursor with
  | nil => exact hcursor
  | cons e pending ih =>
    apply ih
    . exact hpending e (List.mem_cons_self ..)
    . intro a ha
      exact hpending a (List.mem_cons_of_mem _ ha)

section Loop

variable {sub : Subscription} {cursor : Nat}

theorem Inv.beyond (h : sub.Inv) (hterminal : sub.status.isTerminal = true)
    (hrows : NothingBeyond sub.run.store cursor) :
    ∀ e ∈ sub.run.store.events, e.sequence ≤ cursor := by
  intro e he
  obtain ⟨row, hrow, hle⟩ := h.settled hterminal e he
  have := hrows row hrow
  omega

/--
The three ways in which one pass of the loop ends.
-/
theorem loop_cases (cursor : Nat) (h : sub.run.Inv) :
    (
      ∃ e pending,
        sub.run.store.replay cursor = .ok (e :: pending)
          ∧
        sub.loop cursor
          =
        { sub with yielded := sub.yielded ++ [e], pc := .yielding e.sequence pending }
    )
      ∨
    (
      NothingBeyond sub.run.store cursor
        ∧
      sub.isTerminal = true
        ∧
      sub.loop cursor = { sub with pc := .returned cursor }
    )
      ∨
    (
      NothingBeyond sub.run.store cursor
        ∧
      sub.isTerminal = false
        ∧
      sub.loop cursor = { sub with pc := .waiting cursor false }
    ) := by
  obtain ⟨events, hreplay, _, _, _, hempty⟩ := h.valid.replay_spec cursor
  unfold loop
  rw [hreplay]
  cases events with
  | cons e pending =>
    left
    exact ⟨e, pending, rfl, rfl⟩
  | nil =>
    right
    have hrows := (hempty.mp rfl).1
    cases hterminal : sub.isTerminal with
    | true =>
      left
      exact ⟨hrows, rfl, by simp⟩
    | false =>
      right
      exact ⟨hrows, rfl, by simp⟩

theorem Inv.loop (h : sub.Inv)
    (hdelivered : Delivered sub.start sub.run.store sub.yielded cursor) : (sub.loop cursor).Inv := by
  obtain ⟨e, pending, hreplay, heq⟩ | ⟨_, _, heq⟩ | ⟨_, hopen, heq⟩ := loop_cases cursor h.run
  . rw [heq]
    refine { h with pc := ?_ }
    obtain ⟨events, hok, hincreasing, hmem, hdurable, _⟩ := h.run.valid.replay_spec cursor
    rw [hreplay] at hok
    cases hok
    have hle : ∀ a ∈ e :: pending, a.sequence ≤ sub.run.store.sequence := by
      intro a ha
      cases (hmem a ha).2 with
      | inl hrow => exact h.run.valid.rows_le a hrow
      | inr hbuffered => exact h.run.valid.events_le a hbuffered
    refine ⟨?_, ?_, ?_⟩
    . have hbound : reach e.sequence pending ≤ sub.run.store.sequence := by
        apply foldl_sequence_le
        . exact hle e (List.mem_cons_self ..)
        . intro a ha
          exact hle a (List.mem_cons_of_mem _ ha)
      dsimp only
      omega
    . intro a ha
      rw [List.append_assoc, List.singleton_append, List.mem_append] at ha
      cases ha with
      | inl hold => exact hdelivered.2.1 a hold
      | inr hnew => exact hle a hnew
    . intro row hrow hstart hle
      by_cases hcursor : row.sequence ≤ cursor
      . have := hdelivered.2.2 row hrow hstart hcursor
        simp [this]
      . have : row ∈ (e :: pending).filter RunEvent.isDurable := by
          rw [hdurable, List.mem_filter]
          simp [hrow]
          omega
        rw [List.mem_filter] at this
        rw [List.append_assoc, List.singleton_append, List.mem_append]
        exact .inr this.1
  . rw [heq]
    exact { h with pc := trivial }
  . rw [heq]
    refine { h with pc := ⟨hdelivered, ?_⟩ }
    intro hterminal
    unfold Subscription.isTerminal at hopen
    rw [hterminal, Bool.or_true] at hopen
    contradiction

end Loop

theorem Inv.init {bufferSize : Nat} (h : 1 ≤ bufferSize) : (init bufferSize).Inv :=
  {
    run := StoreRun.Inv.init h
    settled := by simp [Subscription.init, RunStatus.isTerminal]
    ending := by simp [Subscription.init, RunStatus.isTerminal]
    pc := trivial
  }

theorem Inv.append {runId : RunId} {sub : Subscription} {run : StoreRun} {event : RunEventType}
    {iteration : Nat} {payload : Payload} {timestamp : Timestamp} (h : sub.Inv)
    (hdurable : sub.status.isTerminal = true → event.isTransient = false)
    (hrun : sub.run.step runId (.append event iteration payload timestamp) = some run) :
    Inv { sub with run, pc := sub.pc.notify } := by
  have hinv := h.run.step hrun
  obtain ⟨e, hevent, hsequence, _, heq⟩ := StoreRun.step_append hrun
  subst heq
  refine {
    run := hinv
    settled := ?_
    ending := ?_
    pc := h.pc.pushRow hsequence
  }
  . intro hterminal a ha
    have hrow : e ∈ (sub.run.store.pushRow e).rows := by
      apply mem_pushRow_rows.mpr
      right
      simp [RunEvent.isDurable, hevent, hdurable hterminal]
    refine ⟨e, hrow, ?_⟩
    exact hinv.valid.events_le a ha
  . intro hterminal hinterrupted
    obtain ⟨row, hrow, hending⟩ := h.ending hterminal hinterrupted
    exact ⟨row, mem_pushRow_rows.mpr (.inl hrow), hending⟩

theorem Inv.finish {runId : RunId} {sub : Subscription} {run : StoreRun} {event : RunEventType}
    {target : RunStatus} {iteration : Nat} {payload : Payload} {timestamp : Timestamp}
    (h : sub.Inv) (hending : event.ending = some target)
    (hrun : sub.run.step runId (.append event iteration payload timestamp) = some run) :
    Inv { sub with run, status := target, pc := sub.pc.notify } := by
  have hinv := h.run.step hrun
  obtain ⟨e, hevent, hsequence, _, heq⟩ := StoreRun.step_append hrun
  subst heq
  have hrow : e ∈ (sub.run.store.pushRow e).rows := by
    apply mem_pushRow_rows.mpr
    right
    simp [RunEvent.isDurable, hevent, RunEventType.isTransient_of_ending hending]
  refine {
    run := hinv
    settled := ?_
    ending := ?_
    pc := h.pc.finish hsequence (by rw [hevent]; exact hending)
  }
  . intro _ a ha
    exact ⟨e, hrow, hinv.valid.events_le a ha⟩
  . intro _ _
    refine ⟨e, hrow, ?_⟩
    rw [hevent]
    exact hending

theorem Inv.restart {runId : RunId} {sub : Subscription} {run : StoreRun}
    {bufferSize initialSequence : Nat} {persisted : RunStatus} (h : sub.Inv)
    (hpersisted : persisted.isTerminal = true → persisted = sub.status)
    (hrun : sub.run.step runId (.restart bufferSize initialSequence) = some run) :
    Inv {
      sub with
      run
      status := if persisted.isTerminal then persisted else .failed
      accepting := true
      interrupted := sub.interrupted || !persisted.isTerminal
      pc := .idle
    } := by
  have hinv := h.run.step hrun
  have hrows : run.store.rows = sub.run.store.rows
      ∧ ∀ e ∈ run.store.events, e ∈ sub.run.store.rows := by
    simp only [StoreRun.step] at hrun
    split at hrun
    . cases hrun
      refine ⟨rfl, ?_⟩
      intro e he
      have horder := h.run.valid.rows_increasing.insertionSort_eq
      have := (rtake_suffix bufferSize _).subset he
      unfold orderBySequence at this
      rwa [horder] at this
    . contradiction
  refine {
    run := hinv
    settled := ?_
    ending := ?_
    pc := trivial
  }
  . intro _ e he
    dsimp only at he ⊢
    rw [hrows.1]
    exact ⟨e, hrows.2 e he, Nat.le_refl _⟩
  . intro _ hinterrupted
    simp only [Bool.or_eq_false_iff, Bool.not_eq_false'] at hinterrupted
    have hstatus := hpersisted hinterrupted.2
    dsimp only
    rw [hrows.1, if_pos hinterrupted.2, hstatus]
    apply h.ending
    . rw [← hstatus]
      exact hinterrupted.2
    . exact hinterrupted.1

theorem Inv.resume {sub sub' : Subscription} (h : sub.Inv) (hresume : sub.resume = some sub') :
    sub'.Inv := by
  have hpc := h.pc
  unfold Subscription.resume at hresume
  split at hresume
  . next cursor e pending heq =>
    cases hresume
    rw [heq] at hpc
    refine { h with pc := ?_ }
    dsimp only [PcInv] at hpc ⊢
    rw [List.append_assoc, List.singleton_append]
    exact hpc
  . next cursor heq =>
    cases hresume
    rw [heq] at hpc
    apply h.loop
    dsimp only [PcInv] at hpc
    rw [List.append_nil] at hpc
    exact hpc
  . next cursor heq =>
    cases hresume
    rw [heq] at hpc
    exact h.loop hpc.1
  . next cursor heq =>
    rw [heq] at hpc
    split at hresume
    . cases hresume
      exact { h with pc := trivial }
    . cases hresume
      exact { h with pc := hpc.1 }
  . next cursor heq =>
    cases hresume
    rw [heq] at hpc
    exact h.loop hpc
  . contradiction

theorem delivered_start (start : Nat) (store : SQLiteEventStore) : Delivered start store [] start := by
  refine ⟨?_, ?_, ?_⟩
  . omega
  . simp
  . intro row _ hlt hle
    omega

theorem Inv.step {runId : RunId} {sub sub' : Subscription} {op : SubscriptionOp} (h : sub.Inv)
    (hstep : sub.step runId op = some sub') : sub'.Inv := by
  cases op with
  | append event iteration payload timestamp =>
    simp only [Subscription.step] at hstep
    split at hstep
    . contradiction
    . next hdurable =>
      rw [Option.map_eq_some_iff] at hstep
      obtain ⟨run, hrun, rfl⟩ := hstep
      apply h.append _ hrun
      intro hterminal
      simpa [hterminal] using hdurable
  | finish event iteration payload timestamp =>
    simp only [Subscription.step] at hstep
    split at hstep
    . contradiction
    . next target hending =>
      split at hstep
      . contradiction
      . rw [Option.map_eq_some_iff] at hstep
        obtain ⟨run, hrun, rfl⟩ := hstep
        exact h.finish hending hrun
  | wake =>
    cases hstep
    exact { h with pc := h.pc.notify }
  | subscribe afterSequence =>
    cases hstep
    apply Inv.loop
    . exact { h with pc := trivial }
    . apply delivered_start
  | resume => exact h.resume hstep
  | timeout =>
    simp only [Subscription.step] at hstep
    split at hstep
    . next cursor notified heq =>
      cases hstep
      have hpc := h.pc
      rw [heq] at hpc
      exact { h with pc := hpc }
    . contradiction
  | shutdown =>
    cases hstep
    exact { h with pc := h.pc.notify }
  | restart bufferSize initialSequence persisted =>
    simp only [Subscription.step] at hstep
    split at hstep
    . contradiction
    . next hpersisted =>
      rw [Option.map_eq_some_iff] at hstep
      obtain ⟨run, hrun, rfl⟩ := hstep
      apply h.restart _ hrun
      intro hterminal
      simpa [hterminal] using hpersisted

theorem loop_returned {sub : Subscription} {cursor reached : Nat} (h : sub.run.Inv)
    (hreturned : (sub.loop cursor).pc = .returned reached) :
    reached = cursor
      ∧
    NothingBeyond sub.run.store cursor
      ∧
    sub.loop cursor = { sub with pc := .returned cursor } := by
  obtain ⟨e, pending, _, heq⟩ | ⟨hrows, _, heq⟩ | ⟨_, _, heq⟩ := loop_cases cursor h
  . rw [heq] at hreturned
    contradiction
  . rw [heq] at hreturned
    cases hreturned
    exact ⟨rfl, hrows, heq⟩
  . rw [heq] at hreturned
    contradiction

/--
A return from the head of the loop has reached a cursor beyond which nothing durable is stored, and
the events up to it are delivered.
-/
theorem Inv.returned {runId : RunId} {sub sub' : Subscription} {op : SubscriptionOp} {reached : Nat}
    (h : sub.Inv) (hop : op.isResume = true) (hhead : sub.pc.isExpired = false) (hstep : sub.step runId op = some sub')
    (hreturned : sub'.pc = .returned reached) :
    Delivered sub'.start sub'.run.store sub'.yielded reached
      ∧
    NothingBeyond sub'.run.store reached := by
  cases op with
  | resume =>
    have hpc := h.pc
    simp only [Subscription.step] at hstep
    unfold Subscription.resume at hstep
    split at hstep
    . cases hstep
      contradiction
    . next cursor heq =>
      cases hstep
      rw [heq] at hpc
      obtain ⟨rfl, hrows, hloop⟩ := loop_returned h.run hreturned
      rw [hloop]
      dsimp only [PcInv] at hpc
      rw [List.append_nil] at hpc
      exact ⟨hpc, hrows⟩
    . next cursor heq =>
      cases hstep
      rw [heq] at hpc
      obtain ⟨rfl, hrows, hloop⟩ := loop_returned h.run hreturned
      rw [hloop]
      exact ⟨hpc.1, hrows⟩
    . next heq =>
      rw [heq] at hhead
      contradiction
    . next cursor heq =>
      cases hstep
      rw [heq] at hpc
      obtain ⟨rfl, hrows, hloop⟩ := loop_returned h.run hreturned
      rw [hloop]
      exact ⟨hpc, hrows⟩
    . contradiction
  | subscribe afterSequence =>
    cases hstep
    have hrun : (sub.opened afterSequence).run.Inv := h.run
    obtain ⟨rfl, hrows, hloop⟩ := loop_returned hrun hreturned
    rw [hloop]
    exact ⟨delivered_start _ _, hrows⟩
  | _ => contradiction

theorem reaches_inv {runId : RunId} {bufferSize : Nat} {sub : Subscription}
    (hsize : 1 ≤ bufferSize)
    (hrun : Transition.Reaches (step runId) (init bufferSize) sub) : sub.Inv := by
  apply hrun.invariant (Inv.init hsize)
  intro sub op sub' hinv _ hstep
  exact hinv.step hstep

/--
A subscription that returns from the head of its loop because the run is terminal has yielded every
durable event beyond its start, and nothing is stored beyond the cursor that it reached. Unless a
restart failed the run, its terminal event was yielded or lies at or below the start.
-/
theorem returned_complete {runId : RunId} {bufferSize : Nat} {sub sub' : Subscription}
    {op : SubscriptionOp} {reached : Nat} (hsize : 1 ≤ bufferSize)
    (hrun : Transition.Reaches (step runId) (init bufferSize) sub)
    (hop : op.isResume = true) (hhead : sub.pc.isExpired = false)
    (hstep : sub.step runId op = some sub') (hreturned : sub'.pc = .returned reached)
    (hterminal : sub'.status.isTerminal = true) :
    (∀ e ∈ sub'.run.store.rows, sub'.start < e.sequence → e ∈ sub'.yielded)
      ∧
    (∀ e, e ∈ sub'.run.store.rows ∨ e ∈ sub'.run.store.events → e.sequence ≤ reached)
      ∧
    (
      sub'.interrupted = false →
        ∃ e ∈ sub'.run.store.rows,
          e.event.ending = some sub'.status ∧ (e ∈ sub'.yielded ∨ e.sequence ≤ sub'.start)
    ) := by
  have hinv := reaches_inv hsize hrun
  have hinv' := hinv.step hstep
  obtain ⟨hdelivered, hrows⟩ := hinv.returned hop hhead hstep hreturned
  have hyielded : ∀ e ∈ sub'.run.store.rows, sub'.start < e.sequence → e ∈ sub'.yielded := by
    intro e he hstart
    exact hdelivered.2.2 e he hstart (hrows e he)
  refine ⟨hyielded, ?_, ?_⟩
  . intro e he
    cases he with
    | inl hrow => exact hrows e hrow
    | inr hbuffered => exact hinv'.beyond hterminal hrows e hbuffered
  . intro hinterrupted
    obtain ⟨e, he, hending⟩ := hinv'.ending hterminal hinterrupted
    refine ⟨e, he, hending, ?_⟩
    by_cases hstart : sub'.start < e.sequence
    . exact .inl (hyielded e he hstart)
    . exact .inr (by omega)

def finishOps : List SubscriptionOp :=
  [.append .runStarted 1 [] 0, .subscribe 0, .resume, .finish .runCompleted 1 [] 0, .resume]

theorem returned_complete_finish :
    ∃ (sub sub' : Subscription) (cursor : Nat),
      sub.step "run" .resume = some sub'
        ∧
      sub'.pc = .returned cursor
        ∧
      ∃ e ∈ sub'.run.store.rows,
        e.event.ending = some sub'.status ∧ (e ∈ sub'.yielded ∨ e.sequence ≤ sub'.start) := by
  have hexec :
      (Transition.exec (step "run") (init 10) finishOps).any (fun (sub : Subscription) =>
        !sub.pc.isExpired && (sub.step "run" .resume).any fun sub' =>
          sub'.pc.reached == some 2 && sub'.status == .completed && !sub'.interrupted) := by
    decide +kernel
  simp only [Option.any_eq_true, Bool.and_eq_true, beq_iff_eq, Bool.not_eq_true'] at hexec
  obtain ⟨sub, hrun, hhead, sub', hstep, ⟨hreached, hstatus⟩, hinterrupted⟩ := hexec
  have hreturned := SubscriberPc.eq_returned hreached
  have hterminal : sub'.status.isTerminal = true := by
    rw [hstatus]
    rfl
  have hcomplete :=
    returned_complete (by omega) (.of_exec hrun) rfl hhead hstep hreturned hterminal
  exact ⟨sub, sub', 2, hstep, hreturned, hcomplete.2.2 hinterrupted⟩

def restartOps : List SubscriptionOp :=
  [.append .runStarted 1 [] 0, .restart 10 1 .generating, .subscribe 0]

-- The only row of a run that a restart failed is `run_started`.
theorem not_ending_received :
    ¬∀ (runId : RunId) (bufferSize : Nat) (sub sub' : Subscription) (op : SubscriptionOp)
        (reached : Nat),
      1 ≤ bufferSize
        → Transition.Reaches (step runId) (init bufferSize) sub
        → op.isResume = true
        → sub.step runId op = some sub'
        → sub'.pc = .returned reached
        → sub'.status.isTerminal = true
        → (∀ e, e ∈ sub'.run.store.rows ∨ e ∈ sub'.run.store.events →
            sub'.start < e.sequence → e ∈ sub'.yielded)
          ∧
          ∃ e ∈ sub'.run.store.rows,
            e.event.ending = some sub'.status ∧ (e ∈ sub'.yielded ∨ e.sequence ≤ sub'.start) := by
  intro hclaim
  have hexec :
      (Transition.exec (step "run") (init 10) restartOps).any (fun (sub : Subscription) =>
        (sub.step "run" .resume).any fun sub' =>
          sub'.pc.reached == some 1 && sub'.status.isTerminal
            && sub'.run.store.rows.all fun e => e.event.ending == none) := by
    decide +kernel
  simp only [Option.any_eq_true, Bool.and_eq_true, beq_iff_eq, List.all_eq_true] at hexec
  obtain ⟨sub, hrun, sub', hstep, ⟨hreached, hterminal⟩, hnone⟩ := hexec
  have hreturned := SubscriberPc.eq_returned hreached
  obtain ⟨e, he, hending, _⟩ :=
    (hclaim "run" 10 sub sub' .resume 1 (by omega) (.of_exec hrun) rfl hstep hreturned hterminal).2
  rw [hnone e he] at hending
  contradiction

/--
The heartbeat path returns without another replay. If it does so because the run is terminal, then
the terminal event has come after the last one, and is not yielded.
-/
theorem heartbeat_misses_ending {runId : RunId} {bufferSize : Nat} {sub sub' : Subscription}
    {reached : Nat} (hsize : 1 ≤ bufferSize)
    (hrun : Transition.Reaches (step runId) (init bufferSize) sub)
    (hexpired : sub.pc.isExpired = true) (hstep : sub.step runId .resume = some sub')
    (hreturned : sub'.pc = .returned reached) (hterminal : sub'.status.isTerminal = true) :
    ∃ e ∈ sub'.run.store.rows, e.event.ending = some sub'.status ∧ e ∉ sub'.yielded := by
  have hpc := (reaches_inv hsize hrun).pc
  change sub.resume = some sub' at hstep
  unfold Subscription.resume at hstep
  cases hcursor : sub.pc with
  | expired cursor =>
    rw [hcursor] at hpc hstep
    dsimp only at hstep
    split at hstep
    . cases hstep
      exact hpc.2 hterminal
    . cases hstep
      contradiction
  | _ =>
    rw [hcursor] at hexpired
    contradiction

example :
    (Transition.exec (step "run") (init 10) [
      .append .runStarted 1 [] 0,
      .subscribe 0,
      .resume,
      .timeout,
      .finish .runCompleted 1 [] 0,
      .resume
    ]).map (fun sub => sub.yielded.map RunEvent.event) = some [.runStarted] := by
  decide +kernel

end Subscription

end AgenticPrd
