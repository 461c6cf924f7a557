import AgenticPrd.Backend.EventStore.Subscribe
import AgenticPrd.Lib.Resume

/-!
A client that subscribes to one run again and again (`stream_events` of `main.py`), each time from
the last event that has arrived, over any number of processes.
-/

namespace AgenticPrd

open SQLiteEventStore Suffix Resume

-- The cursor of a request, `none` where the header is refused.
def endpointCursor (afterSequence : Nat) (lastEventId : Option Int) : Option Nat :=
  let headerSequence := lastEventId.getD 0
  if headerSequence < 0 then
    none
  else
    some (max afterSequence headerSequence.toNat)

/--
`cursor` is that of the first request, and `received` what has arrived of the subscriptions that are
over.
-/
structure Listener where
  sub : Subscription
  cursor : Option Nat
  received : List RunEvent
  restarted : Bool

-- `arrived` counts the events that have arrived of the subscription before.
inductive ListenerOp where
  | serve (op : SubscriptionOp)
  | connect (afterSequence : Nat) (lastEventId : Option Int) (arrived : Nat)

namespace SubscriptionOp

def appends : SubscriptionOp → Bool
  | append .. => true
  | finish .. => true
  | _ => false

def isRestart : SubscriptionOp → Bool
  | restart .. => true
  | _ => false

def isSubscribe : SubscriptionOp → Bool
  | subscribe _ => true
  | _ => false

end SubscriptionOp

namespace SubscriberPc

-- What the generator has read and not yielded yet.
def pending : SubscriberPc → List RunEvent
  | yielding _ events => events
  | _ => []

def cursor? : SubscriberPc → Option Nat
  | yielding cursor _ => some cursor
  | waiting cursor _ => some cursor
  | expired cursor => some cursor
  | heartbeat cursor => some cursor
  | _ => none

theorem pending_notify (pc : SubscriberPc) : pc.notify.pending = pc.pending := by
  cases pc <;> rfl

theorem cursor?_notify (pc : SubscriberPc) : pc.notify.cursor? = pc.cursor? := by
  cases pc <;> rfl

end SubscriberPc

namespace Listener

def init (bufferSize : Nat) : Listener :=
  {
    sub := Subscription.init bufferSize
    cursor := none
    received := []
    restarted := false
  }

def arrivals (l : Listener) (arrived : Nat) : List RunEvent :=
  l.received ++ l.sub.yielded.take arrived

-- A new process has no task for a run that it loads, so that nothing is appended to it any more.
def step (runId : RunId) (l : Listener) : ListenerOp → Option Listener
  | .serve op =>
    if op.isSubscribe || l.restarted && op.appends then
      none
    else
      (l.sub.step runId op).map fun sub =>
        { l with sub, restarted := l.restarted || op.isRestart }
  | .connect afterSequence lastEventId arrived =>
    match endpointCursor afterSequence lastEventId with
    | none => none
    | some cursor =>
      let received := l.arrivals arrived
      if ∀ first ∈ l.cursor, cursor = reached RunEvent.sequence first received then
        (l.sub.step runId (.subscribe cursor)).map fun sub =>
          { l with sub, received, cursor := some (l.cursor.getD cursor) }
      else
        none

-- What has been yielded over all subscriptions, of the ones that are over as far as it has arrived.
def yielded (l : Listener) : List RunEvent :=
  l.received ++ l.sub.yielded

end Listener

namespace Subscription

theorem loop_run (sub : Subscription) (cursor : Nat) : (sub.loop cursor).run = sub.run := by
  unfold loop
  split
  . rfl
  . rfl
  . split <;> rfl

theorem resume_run {sub sub' : Subscription} (hresume : sub.resume = some sub') :
    sub'.run = sub.run := by
  unfold resume at hresume
  split at hresume
  . cases hresume
    rfl
  . cases hresume
    exact loop_run _ _
  . cases hresume
    exact loop_run _ _
  . split at hresume
    . cases hresume
      rfl
    . cases hresume
      rfl
  . cases hresume
    exact loop_run _ _
  . contradiction

theorem run_step {runId : RunId} {sub sub' : Subscription} {op : SubscriptionOp}
    (hrun : sub.run.Inv) (hstep : sub.step runId op = some sub') : sub'.run.Inv := by
  cases op with
  | append event iteration payload timestamp =>
    simp only [step] at hstep
    split at hstep
    . contradiction
    . rw [Option.map_eq_some_iff] at hstep
      obtain ⟨run, happend, rfl⟩ := hstep
      exact hrun.step happend
  | finish event iteration payload timestamp =>
    simp only [step] at hstep
    split at hstep
    . contradiction
    . split at hstep
      . contradiction
      . rw [Option.map_eq_some_iff] at hstep
        obtain ⟨run, happend, rfl⟩ := hstep
        exact hrun.step happend
  | wake =>
    cases hstep
    exact hrun
  | subscribe afterSequence =>
    cases hstep
    rw [loop_run]
    exact hrun
  | resume =>
    rw [resume_run hstep]
    exact hrun
  | timeout =>
    simp only [step] at hstep
    split at hstep
    . cases hstep
      exact hrun
    . contradiction
  | shutdown =>
    cases hstep
    exact hrun
  | restart bufferSize initialSequence persisted =>
    simp only [step] at hstep
    split at hstep
    . contradiction
    . rw [Option.map_eq_some_iff] at hstep
      obtain ⟨run, hrestart, rfl⟩ := hstep
      exact hrun.step hrestart

end Subscription

-- A new process holds the rows of the one before.
theorem StoreRun.step_restart {runId : RunId} {run run' : StoreRun}
    {bufferSize initialSequence : Nat}
    (hstep : run.step runId (.restart bufferSize initialSequence) = some run') :
    run'.store.rows = run.store.rows := by
  simp only [StoreRun.step] at hstep
  split at hstep
  . cases hstep
    rfl
  . contradiction

section Listens

variable {before : List RunEvent} {first cursor : Nat} {sub sub' : Subscription} {runId : RunId}

/--
The subscription goes on where `before` ends, so that all that has been read from `first` on covers
the rows.
-/
structure Listens (before : List RunEvent) (first : Nat) (sub : Subscription) : Prop where
  covers :
    Covers RunEvent.sequence RunEvent.isDurable sub.run.store.rows first
      (before ++ sub.yielded ++ sub.pc.pending)
  cursor :
    ∀ cursor ∈ sub.pc.cursor?, cursor = reached RunEvent.sequence first (before ++ sub.yielded)

-- Nothing has been read that the store has not counted.
def Counted (before : List RunEvent) (first : Nat) (sub : Subscription) : Prop :=
  reached RunEvent.sequence first (before ++ sub.yielded ++ sub.pc.pending)
    ≤ max first sub.run.store.sequence

theorem reached_le {start bound : Nat} {events : List RunEvent} (hstart : start ≤ bound)
    (hevents : ∀ e ∈ events, e.sequence ≤ bound) :
    reached RunEvent.sequence start events ≤ bound :=
  Subscription.foldl_sequence_le hstart hevents

theorem Listens.loop (hrun : sub.run.Inv)
    (hcovers : Covers RunEvent.sequence RunEvent.isDurable sub.run.store.rows first
      (before ++ sub.yielded))
    (hcursor : cursor = reached RunEvent.sequence first (before ++ sub.yielded)) :
    Listens before first (sub.loop cursor)
      ∧
    (cursor ≤ max first sub.run.store.sequence → Counted before first (sub.loop cursor)) := by
  have hrows := hrun.valid.rows_increasing
  obtain ⟨events, hreplay, hincreasing, hevents, hdurable, _⟩ := hrun.valid.replay_spec cursor
  have hle : ∀ e ∈ events, e.sequence ≤ sub.run.store.sequence := by
    intro e he
    cases (hevents e he).2 with
    | inl hrow => exact hrun.valid.rows_le e hrow
    | inr hbuffered => exact hrun.valid.events_le e hbuffered
  subst hcursor
  have hread := hcovers.append hrows hincreasing (fun e he => (hevents e he).1) hdurable
  have hcounted : reached RunEvent.sequence first (before ++ sub.yielded) ≤ max first sub.run.store.sequence →
      reached RunEvent.sequence first (before ++ sub.yielded ++ events)
        ≤ max first sub.run.store.sequence := by
    intro hbound
    rw [reached_append]
    apply reached_le hbound
    intro e he
    exact (hle e he).trans (Nat.le_max_right _ _)
  unfold Subscription.loop
  rw [hreplay]
  cases events with
  | cons e pending =>
    dsimp only
    have hsplit : before ++ (sub.yielded ++ [e]) ++ pending = before ++ sub.yielded ++ e :: pending := by
      simp
    refine ⟨⟨?_, ?_⟩, ?_⟩
    . dsimp only [SubscriberPc.pending]
      rw [hsplit]
      exact hread
    . rintro cursor ⟨⟩
      rw [← List.append_assoc, reached_append]
      rfl
    . intro hbound
      unfold Counted
      dsimp only [SubscriberPc.pending]
      rw [hsplit]
      exact hcounted hbound
  | nil =>
    dsimp only
    split
    . refine ⟨⟨hread, nofun⟩, hcounted⟩
    . refine ⟨⟨hread, ?_⟩, hcounted⟩
      rintro cursor ⟨⟩
      rfl

theorem Listens.loop_of_cursor (hrun : sub.run.Inv)
    (hcovers : Covers RunEvent.sequence RunEvent.isDurable sub.run.store.rows first
      (before ++ sub.yielded ++ []))
    (hcursor : cursor = reached RunEvent.sequence first (before ++ sub.yielded)) :
    Listens before first (sub.loop cursor)
      ∧
    (
      reached RunEvent.sequence first (before ++ sub.yielded ++ []) ≤ max first sub.run.store.sequence
        → Counted before first (sub.loop cursor)
    ) := by
  subst hcursor
  rw [List.append_nil] at hcovers ⊢
  exact Listens.loop hrun hcovers rfl

theorem Listens.resume (hrun : sub.run.Inv) (h : Listens before first sub)
    (hresume : sub.resume = some sub') :
    Listens before first sub' ∧ (Counted before first sub → Counted before first sub') := by
  have hcovers := h.covers
  have hcursor := h.cursor
  unfold Counted
  unfold Subscription.resume at hresume
  split at hresume
  . next cursor e pending heq =>
    cases hresume
    rw [heq] at hcovers hcursor ⊢
    have hsplit : before ++ (sub.yielded ++ [e]) ++ pending = before ++ sub.yielded ++ e :: pending := by
      simp
    dsimp only [SubscriberPc.pending] at hcovers ⊢
    refine ⟨⟨?_, ?_⟩, ?_⟩
    . dsimp only [SubscriberPc.pending]
      rw [hsplit]
      exact hcovers
    . rintro cursor ⟨⟩
      rw [← List.append_assoc, reached_append]
      rfl
    . rw [hsplit]
      exact id
  . next cursor heq =>
    cases hresume
    rw [heq] at hcovers hcursor ⊢
    exact Listens.loop_of_cursor hrun hcovers (hcursor cursor rfl)
  . next cursor heq =>
    cases hresume
    rw [heq] at hcovers hcursor ⊢
    exact Listens.loop_of_cursor hrun hcovers (hcursor cursor rfl)
  . next cursor heq =>
    rw [heq] at hcovers hcursor ⊢
    split at hresume
    . cases hresume
      exact ⟨⟨hcovers, nofun⟩, id⟩
    . cases hresume
      exact ⟨⟨hcovers, hcursor⟩, id⟩
  . next cursor heq =>
    cases hresume
    rw [heq] at hcovers hcursor ⊢
    exact Listens.loop_of_cursor hrun hcovers (hcursor cursor rfl)
  . contradiction

-- A new row lies behind all that has been read, as the store has counted all of it.
theorem Listens.pushRow {run : StoreRun} {e : RunEvent} (status : RunStatus)
    (h : Listens before first sub) (hcounted : Counted before first sub)
    (hsequence : e.sequence = sub.run.store.sequence + 1)
    (hstore : run.store = sub.run.store.pushRow e) :
    Listens before first { sub with run, status, pc := sub.pc.notify }
      ∧
    Counted before first { sub with run, status, pc := sub.pc.notify } := by
  unfold Counted at hcounted ⊢
  refine ⟨⟨?_, ?_⟩, ?_⟩
  . dsimp only
    rw [hstore, SubscriberPc.pending_notify]
    unfold SQLiteEventStore.pushRow
    split
    . apply h.covers.push
      omega
    . exact h.covers
  . dsimp only
    rw [SubscriberPc.cursor?_notify]
    exact h.cursor
  . dsimp only
    rw [hstore, SubscriberPc.pending_notify]
    change _ ≤ max first e.sequence
    omega

-- A step that reads nothing, and does not move the cursor.
theorem Listens.of_pc {status : RunStatus} {accepting : Bool} {pc : SubscriberPc}
    (h : Listens before first sub) (hpending : pc.pending = sub.pc.pending)
    (hcursor : pc.cursor? = sub.pc.cursor?) :
    Listens before first { sub with status, accepting, pc }
      ∧
    (Counted before first sub → Counted before first { sub with status, accepting, pc }) := by
  unfold Counted
  refine ⟨⟨?_, ?_⟩, ?_⟩
  . dsimp only
    rw [hpending]
    exact h.covers
  . dsimp only
    rw [hcursor]
    exact h.cursor
  . dsimp only
    rw [hpending]
    exact id

theorem Listens.idle {run : StoreRun} {status : RunStatus} {accepting interrupted : Bool}
    (hrun : sub.run.Inv) (h : Listens before first sub)
    (hrows : run.store.rows = sub.run.store.rows) :
    Listens before first { sub with run, status, accepting, interrupted, pc := .idle } := by
  refine ⟨?_, nofun⟩
  dsimp only [SubscriberPc.pending]
  rw [hrows, List.append_nil]
  exact h.covers.of_prefix hrun.valid.rows_increasing

/--
One step of a process. Nothing is appended once a new process has forgotten what the one before
counted.
-/
theorem Listens.step {op : SubscriptionOp} (hrun : sub.run.Inv) (h : Listens before first sub)
    (hop : op.isSubscribe = false) (hcounted : op.appends = true → Counted before first sub)
    (hstep : sub.step runId op = some sub') :
    Listens before first sub'
      ∧
    (op.isRestart = false → Counted before first sub → Counted before first sub') := by
  cases op with
  | append event iteration payload timestamp =>
    simp only [Subscription.step] at hstep
    split at hstep
    . contradiction
    . rw [Option.map_eq_some_iff] at hstep
      obtain ⟨run, happend, rfl⟩ := hstep
      obtain ⟨e, _, hsequence, _, heq⟩ := StoreRun.step_append happend
      have hstore : run.store = sub.run.store.pushRow e := by rw [heq]
      obtain ⟨hlistens, hall⟩ := h.pushRow sub.status (hcounted rfl) hsequence hstore
      exact ⟨hlistens, fun _ _ => hall⟩
  | finish event iteration payload timestamp =>
    simp only [Subscription.step] at hstep
    split at hstep
    . contradiction
    . next target _ =>
      split at hstep
      . contradiction
      . rw [Option.map_eq_some_iff] at hstep
        obtain ⟨run, happend, rfl⟩ := hstep
        obtain ⟨e, _, hsequence, _, heq⟩ := StoreRun.step_append happend
        have hstore : run.store = sub.run.store.pushRow e := by rw [heq]
        obtain ⟨hlistens, hall⟩ := h.pushRow target (hcounted rfl) hsequence hstore
        exact ⟨hlistens, fun _ _ => hall⟩
  | wake =>
    cases hstep
    obtain ⟨hlistens, hall⟩ :=
      h.of_pc (SubscriberPc.pending_notify sub.pc) (SubscriberPc.cursor?_notify sub.pc)
    exact ⟨hlistens, fun _ => hall⟩
  | subscribe afterSequence => contradiction
  | resume =>
    obtain ⟨hlistens, hall⟩ := h.resume hrun hstep
    exact ⟨hlistens, fun _ => hall⟩
  | timeout =>
    simp only [Subscription.step] at hstep
    split at hstep
    . next cursor notified heq =>
      cases hstep
      have hpending : (SubscriberPc.expired cursor).pending = sub.pc.pending := by
        rw [heq]
        rfl
      have hcursor : (SubscriberPc.expired cursor).cursor? = sub.pc.cursor? := by
        rw [heq]
        rfl
      obtain ⟨hlistens, hall⟩ := h.of_pc hpending hcursor
      exact ⟨hlistens, fun _ => hall⟩
    . contradiction
  | shutdown =>
    cases hstep
    obtain ⟨hlistens, hall⟩ :=
      h.of_pc (SubscriberPc.pending_notify sub.pc) (SubscriberPc.cursor?_notify sub.pc)
    exact ⟨hlistens, fun _ => hall⟩
  | restart bufferSize initialSequence persisted =>
    simp only [Subscription.step] at hstep
    split at hstep
    . contradiction
    . rw [Option.map_eq_some_iff] at hstep
      obtain ⟨run, hrestart, rfl⟩ := hstep
      refine ⟨h.idle hrun (StoreRun.step_restart hrestart), ?_⟩
      intro hnever
      contradiction

end Listens

namespace Listener

-- A client that has requested nothing yet may start anywhere.
def Starts (l : Listener) (first : Nat) : Prop :=
  l.cursor.getD first = first

structure Inv (l : Listener) : Prop where
  run : l.sub.run.Inv
  listens : ∀ first, l.Starts first → Listens l.received first l.sub
  counted : l.restarted = false → ∀ first, l.Starts first → Counted l.received first l.sub

theorem Inv.init {bufferSize : Nat} (hsize : 1 ≤ bufferSize) : (init bufferSize).Inv := by
  refine {
    run := StoreRun.Inv.init hsize
    listens := ?_
    counted := ?_
  }
  . intro first _
    exact ⟨Covers.nil _ _, nofun⟩
  . intro _ first _
    exact Nat.le_max_left _ _

theorem Inv.serve {runId : RunId} {l : Listener} {op : SubscriptionOp} {sub' : Subscription}
    (h : l.Inv) (hop : op.isSubscribe = false) (happends : (l.restarted && op.appends) = false)
    (hstep : l.sub.step runId op = some sub') :
    Inv { l with sub := sub', restarted := l.restarted || op.isRestart } := by
  have hcounted : ∀ first, l.Starts first → op.appends = true → Counted l.received first l.sub := by
    intro first hfirst hop
    apply h.counted _ first hfirst
    rw [hop, Bool.and_true] at happends
    exact happends
  refine {
    run := Subscription.run_step h.run hstep
    listens := ?_
    counted := ?_
  }
  . intro first hfirst
    exact ((h.listens first hfirst).step h.run hop (hcounted first hfirst) hstep).1
  . intro hrestarted first hfirst
    obtain ⟨hbefore, hrestart⟩ := Bool.or_eq_false_iff.mp hrestarted
    have hstep := (h.listens first hfirst).step h.run hop (hcounted first hfirst) hstep
    exact hstep.2 hrestart (h.counted hbefore first hfirst)

theorem Inv.starts {l : Listener} (cursor : Nat) : l.Starts (l.cursor.getD cursor) := by
  unfold Starts
  cases l.cursor <;> rfl

-- What has been read lies behind the first request, and so nothing has been read before that.
theorem Inv.arrivals_eq_nil {l : Listener} (h : l.Inv) (hcursor : l.cursor = none)
    (arrived : Nat) : l.arrivals arrived = [] := by
  rw [List.eq_nil_iff_forall_not_mem]
  intro e he
  have hstarts : l.Starts e.sequence := by
    unfold Starts
    rw [hcursor]
    rfl
  have hmem : e ∈ l.received ++ l.sub.yielded ++ l.sub.pc.pending := by
    unfold arrivals at he
    apply List.mem_append_left
    exact (List.Sublist.append_left (List.take_sublist _ _) _).subset he
  have hlater := (h.listens e.sequence hstarts).covers.later e hmem
  omega

-- The first of a chain of requests is free, the others go on from what has arrived.
theorem Inv.connect {runId : RunId} {l : Listener} {cursor arrived : Nat} {sub' : Subscription}
    (h : l.Inv)
    (hcursor : ∀ first ∈ l.cursor,
      cursor = reached RunEvent.sequence first (l.arrivals arrived))
    (hstep : l.sub.step runId (.subscribe cursor) = some sub') :
    Inv {
      l with
      sub := sub'
      received := l.arrivals arrived
      cursor := some (l.cursor.getD cursor)
    } := by
  have hstarts : l.Starts (l.cursor.getD cursor) := starts cursor
  have hreached : cursor
      = reached RunEvent.sequence (l.cursor.getD cursor) (l.arrivals arrived) := by
    cases hfirst : l.cursor with
    | none =>
      rw [h.arrivals_eq_nil hfirst]
      rfl
    | some first => exact hcursor first hfirst
  have hsplit : l.received ++ l.sub.yielded ++ l.sub.pc.pending
      = l.arrivals arrived ++ (l.sub.yielded.drop arrived ++ l.sub.pc.pending) := by
    unfold arrivals
    rw [List.append_assoc, List.append_assoc, ← List.append_assoc (l.sub.yielded.take arrived),
      List.take_append_drop]
  have hall := (h.listens _ hstarts).covers
  rw [hsplit] at hall
  have hcovers : Covers RunEvent.sequence RunEvent.isDurable l.sub.run.store.rows
      (l.cursor.getD cursor) (l.arrivals arrived ++ (l.sub.opened cursor).yielded) := by
    dsimp only [Subscription.opened]
    rw [List.append_nil]
    exact hall.of_prefix h.run.valid.rows_increasing
  have hopened : cursor = reached RunEvent.sequence (l.cursor.getD cursor)
      (l.arrivals arrived ++ (l.sub.opened cursor).yielded) := by
    dsimp only [Subscription.opened]
    rw [List.append_nil]
    exact hreached
  cases hstep
  have hrun : (l.sub.opened cursor).run.Inv := h.run
  obtain ⟨hlistens, hcounted⟩ := Listens.loop hrun hcovers hopened
  refine {
    run := ?_
    listens := ?_
    counted := ?_
  }
  . dsimp only
    rw [Subscription.loop_run]
    exact hrun
  . intro first hfirst
    change l.cursor.getD cursor = first at hfirst
    subst hfirst
    exact hlistens
  . intro hrestarted first hfirst
    change l.cursor.getD cursor = first at hfirst
    subst hfirst
    apply hcounted
    have hbound := h.counted hrestarted _ hstarts
    unfold Counted at hbound
    rw [hsplit] at hbound
    have hle := hall.reached_le_append
    rw [← hreached] at hle
    exact hle.trans hbound

theorem Inv.step {runId : RunId} {l l' : Listener} {op : ListenerOp} (h : l.Inv)
    (hstep : l.step runId op = some l') : l'.Inv := by
  cases op with
  | serve op =>
    simp only [Listener.step] at hstep
    split at hstep
    . contradiction
    . next hop =>
      rw [Option.map_eq_some_iff] at hstep
      obtain ⟨sub', hserve, rfl⟩ := hstep
      rw [Bool.not_eq_true, Bool.or_eq_false_iff] at hop
      exact h.serve hop.1 hop.2 hserve
  | connect afterSequence lastEventId arrived =>
    simp only [Listener.step] at hstep
    split at hstep
    . contradiction
    . next cursor _ =>
      split at hstep
      . next hcursor =>
        rw [Option.map_eq_some_iff] at hstep
        obtain ⟨sub', hsubscribe, rfl⟩ := hstep
        exact h.connect hcursor hsubscribe
      . contradiction

theorem reaches_inv {runId : RunId} {bufferSize : Nat} {l : Listener} (hsize : 1 ≤ bufferSize)
    (hrun : Transition.Reaches (step runId) (init bufferSize) l) : l.Inv := by
  apply hrun.invariant (Inv.init hsize)
  intro l op l' hinv _ hstep
  exact hinv.step hstep

/--
Over all subscriptions the sequences strictly increase, and the durable events are the next ones of
the run's log behind the cursor of the first request.
-/
theorem delivered_once {runId : RunId} {bufferSize first : Nat} {l : Listener}
    (hsize : 1 ≤ bufferSize)
    (hrun : Transition.Reaches (step runId) (init bufferSize) l) (hfirst : l.cursor = some first) :
    Increasing RunEvent.sequence l.yielded
      ∧
    l.yielded.filter RunEvent.isDurable
      <+:
    (l.sub.run.log.filter RunEvent.isDurable).filter fun e => first < e.sequence := by
  have hinv := reaches_inv hsize hrun
  have hrows := hinv.run.valid.rows_increasing
  have hstarts : l.Starts first := by
    unfold Starts
    rw [hfirst]
    rfl
  have hyielded := (hinv.listens first hstarts).covers.of_prefix hrows
  refine ⟨hyielded.increasing, ?_⟩
  rw [← hinv.run.rows_eq]
  exact hyielded.logged_prefix hrows

-- The delta is lost with the process, and the client goes on from it.
def reconnectOps : List ListenerOp :=
  [
    .serve (.append .runStarted 1 [] 0),
    .connect 0 none 0,
    .serve (.append .prdDelta 1 [] 0),
    .serve .resume,
    .serve (.restart 10 1 .generating),
    .connect 1 (some 2) 2
  ]

theorem delivered_once_reconnect :
    ∃ l,
      Transition.exec (step "run") (init 10) reconnectOps = some l
        ∧
      Increasing RunEvent.sequence l.yielded
        ∧
      l.yielded.filter RunEvent.isDurable
        <+:
      (l.sub.run.log.filter RunEvent.isDurable).filter fun e => 0 < e.sequence := by
  have hexec :
      (Transition.exec (step "run") (init 10) reconnectOps).any (fun l => l.cursor == some 0) := by
    decide +kernel
  simp only [Option.any_eq_true, beq_iff_eq] at hexec
  obtain ⟨l, hrun, hfirst⟩ := hexec
  exact ⟨l, hrun, delivered_once (by omega) (.of_exec hrun) hfirst⟩

end Listener

end AgenticPrd
