import AgenticPrd.Backend.RunManager.Change
import AgenticPrd.Client.Projection
import AgenticPrd.Live.Wire

/-!
What a view makes of the events of a run that are delivered to it: an event that it has had before
makes no difference, and a relation that every change keeps holds wherever the view has come to.
-/

namespace AgenticPrd

namespace Live

open RunManager
open Suffix (Increasing)
open Client (RunViewState runReducer receive Ignores Locked)

section Delivery

variable {send : RunEvent → Client.RunEvent} {view : RunViewState} {cursor : Nat}
  {log delivered : List RunEvent}

-- What of a delivery is later than all that has been delivered before it.
def fresh (cursor : Nat) : List RunEvent → List RunEvent
  | [] => []
  | e :: events =>
    if cursor < e.sequence then e :: fresh e.sequence events else fresh cursor events

-- The events of the log behind the cursor, in their order, and any events of the log again.
structure Redelivers (log : List RunEvent) (cursor : Nat) (delivered : List RunEvent) : Prop where
  mem : ∀ e ∈ delivered, e ∈ log
  fresh_eq : fresh cursor delivered = log.filter fun e => cursor < e.sequence

theorem fresh_of_increasing (h : Increasing RunEvent.sequence log) (cursor : Nat) :
    fresh cursor log = log.filter fun e => cursor < e.sequence := by
  induction log generalizing cursor with
  | nil => rfl
  | cons e log ih =>
    obtain ⟨hlt, hrest⟩ := List.pairwise_cons.mp h
    unfold fresh
    rw [List.filter_cons, ih hrest, ih hrest]
    by_cases hlater : cursor < e.sequence
    . simp only [hlater, decide_true, if_true]
      congr 1
      apply List.filter_congr
      intro e' he'
      have := hlt e' he'
      simp only [decide_eq_decide]
      omega
    . simp [hlater]

theorem Redelivers.whole (h : Increasing RunEvent.sequence log) (cursor : Nat) :
    Redelivers log cursor log :=
  ⟨fun _ he => he, fresh_of_increasing h cursor⟩

-- What is sent of an event keeps its place in the log of its run.
structure Sends (send : RunEvent → Client.RunEvent) : Prop where
  runId : ∀ e, (send e).runId = e.runId
  sequence : ∀ e, (send e).sequence = e.sequence

theorem sends_wire (isoformat : Timestamp → String) : Sends (RunEvent.wire isoformat) :=
  ⟨fun _ => rfl, fun _ => rfl⟩

theorem receive_locked (h : Locked view) (events : List Client.RunEvent) :
    receive view events = view := by
  induction events with
  | nil => rfl
  | cons event events ih =>
    have hignores : Ignores view event := .inr (.inr h)
    have hsame : runReducer view (.eventReceived event) = view := if_pos hignores
    unfold receive at ih ⊢
    rw [List.foldl_cons, hsame]
    exact ih

theorem applyEvent_sent (hsend : Sends send) {e : RunEvent} (hrun : view.runId = some e.runId)
    (hlatest : view.latestSequence = cursor) (hlocked : ¬Locked view) :
    runReducer view (.eventReceived (send e))
      =
    if cursor < e.sequence then Client.applyEvent view (send e) else view := by
  have hignores : Ignores view (send e) ↔ ¬cursor < e.sequence := by
    unfold Ignores
    rw [hsend.runId, hsend.sequence]
    simp only [hrun, hlatest, hlocked, or_false, ne_eq, not_true_eq_false, false_or, Nat.cast_le,
      Nat.not_lt]
  by_cases hlater : cursor < e.sequence
  . rw [if_pos hlater]
    apply if_neg
    rw [hignores, not_not]
    exact hlater
  . rw [if_neg hlater]
    exact if_pos (hignores.mpr hlater)

-- What is delivered again makes no difference.
theorem receive_fresh (hsend : Sends send) {runId : RunId} (hrun : view.runId = some runId)
    (hdelivered : ∀ e ∈ delivered, e.runId = runId)
    (hlatest : Locked view ∨ view.latestSequence = cursor) :
    receive view (delivered.map send)
      =
    receive view ((fresh cursor delivered).map send) := by
  induction delivered generalizing view cursor with
  | nil => rfl
  | cons e delivered ih =>
    by_cases hlocked : Locked view
    . rw [receive_locked hlocked, receive_locked hlocked]
    . have hcursor : view.latestSequence = cursor := hlatest.resolve_left hlocked
      simp only [List.forall_mem_cons] at hdelivered
      have hsame : view.runId = some e.runId := by rw [hrun, hdelivered.1]
      have hstep := applyEvent_sent hsend hsame hcursor hlocked
      unfold fresh
      split
      . next hlater =>
        rw [if_pos hlater] at hstep
        unfold receive at ih ⊢
        rw [List.map_cons, List.foldl_cons, List.map_cons, List.foldl_cons, hstep]
        apply ih _ hdelivered.2
        . right
          rw [Client.applyEvent_latestSequence]
          exact hsend.sequence e
        . rw [Client.applyEvent_runId]
          exact hrun
      . next hlater =>
        rw [if_neg hlater] at hstep
        unfold receive at ih ⊢
        rw [List.map_cons, List.foldl_cons, hstep]
        exact ih hrun hdelivered.2 (.inr hcursor)

end Delivery

section Accompanies

variable {send : RunEvent → Client.RunEvent} {Heard : List Commit → Prop}
  {T : List Commit → RunViewState → RunSnapshot → Prop} {view : RunViewState}
  {old s new start : RunSnapshot} {journal : List Commit}

/--
A relation of views to journals and the snapshots that they lead to. A commit and its event keep it
as long as the run is open, and a commit that the view is not told of does. A view that shows the
status takes nothing any more once the run has ended. `Heard` is what is known of the journals.
-/
structure Accompanies (send : RunEvent → Client.RunEvent) (Heard : List Commit → Prop)
    (T : List Commit → RunViewState → RunSnapshot → Prop) : Prop where
  sends : Sends send
  status : ∀ {journal view s}, T journal view s → view.status = some (.run s.status)
  told :
    ∀ {journal view old s new e}, Heard (journal ++ [{ snapshot := new, event := some e }]) →
      T journal view old → old.status.isTerminal = false →
        Change old (some e.event) e.payload s → Stamped s e.sequence new →
          e.iteration = s.currentIteration →
            T (journal ++ [{ snapshot := new, event := some e }]) (Client.applyEvent view (send e))
              new
  unseen :
    ∀ {journal view old s new event payload sequence}, T journal view old →
      Change old (event.map RunEvent.event) payload s → Stamped s sequence new →
        (event = none ∨ old.status.isTerminal = true) →
          T (journal ++ [{ snapshot := new, event }]) view new

-- The view has come as far as the snapshot.
structure Tracks (T : RunViewState → RunSnapshot → Prop) (view : RunViewState) (s : RunSnapshot) :
    Prop where
  runId : view.runId = some s.runId
  sequence : s.status.isTerminal = false → view.latestSequence = s.latestEventSequence
  related : T view s

theorem Accompanies.locked_iff (hT : Accompanies send Heard T) (h : T journal view s) :
    Locked view ↔ s.status.isTerminal = true := by
  unfold Locked
  rw [hT.status h]
  simp [Client.Status.isTerminal]

theorem Accompanies.unseen_tracks (hT : Accompanies send Heard T) (h : Tracks (T journal) view old)
    {event : Option RunEvent} {payload : Payload} {sequence : Nat}
    (hchange : Change old (event.map RunEvent.event) payload s) (hstamped : Stamped s sequence new)
    (hunseen : event = none ∧ sequence = old.latestEventSequence ∨ old.status.isTerminal = true) :
    Tracks (T (journal ++ [{ snapshot := new, event }])) view new := by
  have hterminal : old.status.isTerminal = true → new.status.isTerminal = true := by
    intro hended
    rw [hstamped.status, hchange.terminal hended]
    exact hended
  exact {
    runId := by
      rw [hstamped.sameRequest.runId, hchange.sameRequest.runId]
      exact h.runId
    sequence := by
      intro hopen
      rcases hunseen with ⟨_, hsame⟩ | hended
      . rw [hstamped.latest, hsame]
        apply h.sequence
        cases hold : old.status.isTerminal with
        | false => rfl
        | true =>
          rw [hterminal hold] at hopen
          contradiction
      . rw [hterminal hended] at hopen
        contradiction
    related := hT.unseen h.related hchange hstamped (hunseen.imp_left And.left)
  }

theorem Accompanies.history (hT : Accompanies send Heard T) (h : Tracks (T []) view start)
    (hhistory : History start journal new) (hheard : ∀ before, before <+: journal → Heard before) :
    Tracks (T journal) (receive view ((events journal).map send)) new := by
  induction hhistory with
  | nil => exact h
  | @silent journal old s new payload hhistory hchange hstamped ih =>
    have hevents : events (journal ++ [{ snapshot := new, event := none }]) = events journal := by
      simp [events]
    rw [hevents]
    have hold := ih fun before hbefore => hheard before (hbefore.trans (List.prefix_append _ _))
    exact hT.unseen_tracks hold hchange hstamped (.inl ⟨rfl, rfl⟩)
  | @event journal old s new e hhistory hchange hstamped hsequence hrun hiteration ih =>
    have hevents : events (journal ++ [{ snapshot := new, event := some e }])
        = events journal ++ [e] := by
      simp [events]
    rw [hevents]
    have hold := ih fun before hbefore => hheard before (hbefore.trans (List.prefix_append _ _))
    unfold receive at hold ⊢
    rw [List.map_append, List.foldl_append, List.map_singleton, List.foldl_cons, List.foldl_nil]
    generalize ((events journal).map send).foldl
      (fun view event => runReducer view (.eventReceived event)) view = current at hold ⊢
    cases hterminal : old.status.isTerminal with
    | true =>
      have hlocked : Locked current := (hT.locked_iff hold.related).mpr hterminal
      have hsame : runReducer current (.eventReceived (send e)) = current := by
        exact receive_locked hlocked [send e]
      rw [hsame]
      exact hT.unseen_tracks hold hchange hstamped (.inr hterminal)
    | false =>
      have hlocked : ¬Locked current := by
        rw [hT.locked_iff hold.related, hterminal]
        exact Bool.false_ne_true
      have hrunId : current.runId = some e.runId := by rw [hold.runId, hrun]
      have hlater : old.latestEventSequence < e.sequence := by omega
      rw [applyEvent_sent hT.sends hrunId (hold.sequence hterminal) hlocked, if_pos hlater]
      exact {
        runId := by
          rw [Client.applyEvent_runId, hold.runId, hstamped.sameRequest.runId,
            hchange.sameRequest.runId]
        sequence := by
          intro _
          rw [Client.applyEvent_latestSequence, hstamped.latest]
          exact hT.sends.sequence e
        related := by
          exact hT.told (hheard _ List.prefix_rfl) hold.related hterminal hchange hstamped hiteration
      }

end Accompanies

section Simulates

variable {send : RunEvent → Client.RunEvent} {Good : RunEvent → Prop}
  {T : RunViewState → RunSnapshot → Prop} {view : RunViewState} {new start : RunSnapshot}
  {journal : List Commit}

-- A relation that does not depend on the journal.
structure Simulates (send : RunEvent → Client.RunEvent) (Good : RunEvent → Prop)
    (T : RunViewState → RunSnapshot → Prop) : Prop where
  sends : Sends send
  status : ∀ {view s}, T view s → view.status = some (.run s.status)
  told :
    ∀ {view old s e}, Good e → T view old → old.status.isTerminal = false →
      Change old (some e.event) e.payload s → e.iteration = s.currentIteration →
        T (Client.applyEvent view (send e)) s
  unseen :
    ∀ {view old s event payload}, T view old → Change old event payload s →
      (event = none ∨ old.status.isTerminal = true) → T view s
  stamped : ∀ {view s sequence new}, T view s → Stamped s sequence new → T view new

theorem Simulates.accompanies (hT : Simulates send Good T) :
    Accompanies send (fun journal => ∀ e ∈ events journal, Good e) fun _ => T :=
  {
    sends := hT.sends
    status := hT.status
    told := by
      intro journal _ _ _ _ e hgood h hopen hchange hstamped hiteration
      have he : Good e := by
        apply hgood e
        rw [events_append]
        simp
      exact hT.stamped (hT.told he h hopen hchange hiteration) hstamped
    unseen := by
      intro _ _ _ _ _ _ _ _ h hchange hstamped hunseen
      exact hT.stamped (hT.unseen h hchange (hunseen.imp_left (congrArg _))) hstamped
  }

theorem Tracks.history (hT : Simulates send Good T) (h : Tracks T view start)
    (hhistory : History start journal new) (hgood : ∀ e ∈ events journal, Good e) :
    Tracks T (receive view ((events journal).map send)) new :=
  hT.accompanies.history h hhistory fun _ hbefore e he =>
    hgood e ((hbefore.sublist.filterMap Commit.event).subset he)

end Simulates

end Live

end AgenticPrd
