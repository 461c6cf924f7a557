import AgenticPrd.Client.Projection
import AgenticPrd.Live.Drafts

/-!
A client that follows the text of a run, through the loss of connections and new snapshots. Whatever
it is not sent, or does not take, is past by the time that the next delta goes into a draft.
-/

namespace AgenticPrd

namespace Live

open RunManager Suffix Transition
open Client (RunViewState RunAction VersionDraft runReducer Ignores)

namespace Link

/--
What is asked of a step. A replay settles what it leaves out. A snapshot of a first attempt that has
begun to stream seeds a draft. A view is not unlocked when it has dropped what is not settled.
-/
def Whole (link : Link) : LinkLabel → Prop
  | .send =>
    ∀ replayed ∈ (link.server.world.eventStore.replay (link.yielded link.sent)).toOption,
      Calibrated link.server.world.eventStore (link.yielded link.sent) replayed
  | .load =>
    ∀ snapshot ∈ link.answer,
      Client.seedsDraft snapshot.wire = true
        ∨ 1 < snapshot.currentPrdAttempt
        ∨ Bridged link.server.world.eventStore.rows 0 snapshot.latestEventSequence
  | .dispatch action =>
    Client.Locked link.view → ¬Client.Locked (runReducer link.view action) →
      Bridged link.server.world.eventStore.rows link.view.latestSequence link.cursor
  | _ => True

instance (link : Link) : (label : LinkLabel) → Decidable (link.Whole label)
  | .send => inferInstanceAs (Decidable (∀ replayed ∈ Except.toOption _, _))
  | .load => inferInstanceAs (Decidable (∀ snapshot ∈ link.answer, _))
  | .dispatch _ => inferInstanceAs (Decidable (_ → _ → _))
  | .serve _ | .connect | .receive | .disconnect | .recover | .fetch => .isTrue trivial

-- Every draft in progress holds what its attempt had streamed at some moment.
def DraftsStreamed (link : Link) : Prop :=
  ∀ version draft, Record.get? link.view.drafts version = some draft → draft.complete = false →
    Genuine link.server.world.journal version draft.attempt draft.content

def Gone (link : Link) (version attempt : ℚ) : Prop :=
  ∃ last, link.Past version attempt link.cursor last

/--
`latest` is what the view has come to. `dropped`: what it has not taken behind that, and is not locked
any more. `leftOut`: what is not among the events on their way.
-/
structure Inv (start : RunSnapshot) (link : Link) (latest : Nat) : Prop where
  server : Workflow.Inv link.server
  history : History start link.server.world.journal link.server.world.snapshot
  runId : link.view.runId = some start.runId
  latest_eq : link.view.latestSequence = latest
  latest_le : latest ≤ link.cursor
  reached : Reached link.log latest ∧ Reached link.log link.cursor
  ordered : Increasing RunEvent.sequence link.sent
  ahead : ∀ e ∈ link.sent, link.cursor < e.sequence ∧ e ∈ link.log
  answer :
    ∀ snapshot ∈ link.answer,
      snapshot.runId = start.runId ∧ ∃ before, Recorded link.server.world.journal before snapshot
  dropped :
    ¬Client.Locked link.view →
      ∀ e ∈ link.log, latest < e.sequence → e.sequence ≤ link.cursor →
        ∀ version attempt, e.IsDelta version attempt → link.Gone version attempt
  leftOut :
    ∀ e ∈ link.log, link.cursor < e.sequence → e.sequence < link.yielded link.sent →
      e ∉ link.sent → ∀ version attempt, e.IsDelta version attempt →
        ∃ last, link.Past version attempt e.sequence last
  drafts :
    ∀ version,
      Kept link.server.world.journal (seen link.log latest) (link.Gone version) version
        (Record.get? link.view.drafts version)

variable {isoformat : Timestamp → String} {env : WorkflowEnv} {start : RunSnapshot}
  {link link' : Link} {latest : Nat}

theorem Inv.init {env : Env} {runId : RunId} {request : CreateRunRequest} {outputLanguage : String}
    {bufferSize : Nat} :
    Inv (init env runId request outputLanguage bufferSize).server.world.snapshot
      (init env runId request outputLanguage bufferSize) 0 :=
  {
    server := Workflow.Inv.init
    history := History.nil
    runId := rfl
    latest_eq := Nat.cast_zero.symm
    latest_le := Nat.le_refl 0
    reached := ⟨.inl rfl, .inl rfl⟩
    ordered := List.Pairwise.nil
    ahead := fun _ he => absurd he List.not_mem_nil
    answer := fun _ hsnapshot => absurd hsnapshot (Option.not_mem_none _)
    dropped := fun _ _ he => absurd he List.not_mem_nil
    leftOut := fun _ he => absurd he List.not_mem_nil
    drafts := by
      intro version
      constructor
      . intro d hd
        contradiction
      . intro attempt _
        right
        rfl
  }

theorem Inv.cursor_le_yielded (h : Inv start link latest) :
    link.cursor ≤ link.yielded link.sent := by
  by_cases hnil : link.sent = []
  . rw [yielded_nil hnil]
  . obtain ⟨e, he, heq⟩ := exists_yielded hnil
    rw [← heq]
    exact (h.ahead e he).1.le

-- A step that changes neither the server nor the cursor, and no draft.
theorem Inv.quiet (h : Inv start link latest) (hserver : link'.server = link.server)
    (hcursor : link'.cursor = link.cursor)
    (hsent : link'.source = link.source ∨ link'.sent = [])
    (hanswer : ∀ snapshot ∈ link'.answer,
      snapshot.runId = start.runId ∧ ∃ before, Recorded link.server.world.journal before snapshot)
    (hview : link'.view.runId = link.view.runId
      ∧ link'.view.latestSequence = link.view.latestSequence
      ∧ link'.view.drafts = link.view.drafts)
    (hlock : ¬Client.Locked link'.view → Client.Locked link.view →
      Bridged link.server.world.eventStore.rows link.view.latestSequence link.cursor) :
    Inv start link' latest := by
  have hlog : link'.log = link.log := by
    unfold log
    rw [hserver]
  have hsubset : ∀ e ∈ link'.sent, e ∈ link.sent := by
    intro e he
    rcases hsent with hsame | hnil
    . unfold Link.sent at he ⊢
      rwa [hsame] at he
    . rw [hnil] at he
      exact absurd he List.not_mem_nil
  have hgone : ∀ version attempt, link.Gone version attempt → link'.Gone version attempt := by
    rintro version attempt ⟨last, hpast⟩
    refine ⟨last, ?_⟩
    rw [hcursor]
    exact hpast.quiet hserver hcursor hsubset
  obtain ⟨hrunId, hlatest, hdrafts⟩ := hview
  constructor
  . rw [hserver]
    exact h.server
  . rw [hserver]
    exact h.history
  . rw [hrunId]
    exact h.runId
  . rw [hlatest]
    exact h.latest_eq
  . rw [hcursor]
    exact h.latest_le
  . rw [hlog, hcursor]
    exact h.reached
  . rcases hsent with hsame | hnil
    . unfold Link.sent
      rw [hsame]
      exact h.ordered
    . rw [hnil]
      exact List.Pairwise.nil
  . intro e he
    rw [hcursor, hlog]
    exact h.ahead e (hsubset e he)
  . rw [hserver]
    exact hanswer
  . rw [hlog, hcursor]
    intro hopen e he hlt hle version attempt hdelta
    apply hgone
    by_cases hlocked : Client.Locked link.view
    . have hbridged := hlock hopen hlocked
      rw [h.latest_eq] at hbridged
      exact past_of_bridged h.server.sound.logged hbridged he (by exact_mod_cast hlt) hle
        (Nat.le_refl _) hdelta
    . exact h.dropped hlocked e he hlt hle version attempt hdelta
  . rw [hlog, hcursor]
    intro e he hlt hle hnot version attempt hdelta
    rcases hsent with hsame | hnil
    . have hsent' : link'.sent = link.sent := by
        unfold Link.sent
        rw [hsame]
      have hyielded : link'.yielded link'.sent = link.yielded link.sent := by
        rw [hsent']
        unfold yielded
        rw [hcursor]
      rw [hyielded] at hle
      rw [hsent'] at hnot
      obtain ⟨last, hpast⟩ := h.leftOut e he hlt hle hnot version attempt hdelta
      exact ⟨last, hpast.quiet hserver hcursor hsubset⟩
    . rw [yielded_nil hnil, hcursor] at hle
      omega
  . intro version
    rw [hserver, hlog, hdrafts]
    exact (h.drafts version).grow List.prefix_rfl (hgone version)

theorem run_view_local {action : RunAction} (h : isLocal action = true) (view : RunViewState) :
    (runReducer view action).runId = view.runId
      ∧ (runReducer view action).latestSequence = view.latestSequence
      ∧ (runReducer view action).drafts = view.drafts := by
  cases action <;> first | contradiction | exact ⟨rfl, rfl, rfl⟩

theorem Inv.serve {label : Workflow.Label} {server : Workflow.Config} (h : Inv start link latest)
    (hstep : Workflow.step env link.server label = some server) :
    Inv start { link with server } latest := by
  have hkeeps := Workflow.Keeps.step h.server hstep
  have hgrown : link.server.world.journal <+: server.world.journal := hkeeps.sound.grown
  have hincreasing := hkeeps.sound.logged.increasing
  have hevents := events_mono hgrown
  have hgone : ∀ version attempt, link.Gone version attempt →
      ({ link with server } : Link).Gone version attempt := by
    rintro version attempt ⟨last, hpast⟩
    exact ⟨last, hpast.serve h.server.sound.logged hkeeps.sound⟩
  exact {
    server := hkeeps.inv
    history := by
      obtain ⟨later, hjournal, hlater⟩ := hkeeps.sound.history
      have hboth := h.history.append hlater
      rw [← hjournal] at hboth
      exact hboth
    runId := h.runId
    latest_eq := h.latest_eq
    latest_le := h.latest_le
    reached := ⟨h.reached.1.mono hevents, h.reached.2.mono hevents⟩
    ordered := h.ordered
    ahead := fun e he => ⟨(h.ahead e he).1, hevents.subset (h.ahead e he).2⟩
    answer := by
      intro snapshot hsnapshot
      obtain ⟨hrunId, before, hrecorded⟩ := h.answer snapshot hsnapshot
      exact ⟨hrunId, before, hrecorded.mono hgrown hincreasing⟩
    dropped := by
      intro hopen e he hlt hle version attempt hdelta
      have hold := h.reached.2.mem_of_grown hevents hincreasing he hle
      exact hgone _ _ (h.dropped hopen e hold hlt hle version attempt hdelta)
    leftOut := by
      intro e he hlt hle hnot version attempt hdelta
      by_cases hnil : link.sent = []
      . have hyielded : link.yielded link.sent = link.cursor := yielded_nil hnil
        have hle' : e.sequence < link.yielded link.sent := hle
        have hlt' : link.cursor < e.sequence := hlt
        omega
      . obtain ⟨last, hlast, heq⟩ := exists_yielded hnil
        have hle' : e.sequence < link.yielded link.sent := hle
        have hold := RunManager.mem_of_grown hevents hincreasing (h.ahead last hlast).2 he
          (by omega)
        obtain ⟨close, hpast⟩ := h.leftOut e hold hlt hle' hnot version attempt hdelta
        exact ⟨close, hpast.serve h.server.sound.logged hkeeps.sound⟩
    drafts := by
      intro version
      have hseen : seen (events server.world.journal) latest = seen link.log latest :=
        seen_grow hincreasing hevents h.reached.1
      have hkept := (h.drafts version).grow hgrown (hgone version)
      rw [← hseen] at hkept
      exact hkept
  }

theorem Inv.send (h : Inv start link latest) (hwhole : link.Whole .send)
    (hstep : link.send = some link') : Inv start link' latest := by
  unfold Link.send at hstep
  split at hstep
  . next sent hsource =>
    split at hstep
    . next replayed hreplay =>
      cases hstep
      have hsent : link.sent = sent := by
        unfold Link.sent
        rw [hsource]
      rw [← hsent] at hreplay ⊢
      have hlogged := h.server.sound.logged
      have hreplayed := hlogged.replay hreplay
      have hcursor := h.cursor_le_yielded
      have hcalibrated := hwhole replayed (by rw [hreplay]; rfl)
      have hsend : ∀ {version attempt : ℚ} {first : Nat} {last : RunEvent},
          first ≤ link.yielded link.sent → (link.sent ≠ [] → first < link.yielded link.sent) →
            link.Past version attempt first last →
              (link.sending replayed).Past version attempt first last := by
        intro version attempt first last hfirst hstrict hpast
        exact hpast.send hlogged hreplay (fun e he => (h.ahead e he).2) hfirst hstrict
      have hstrict : link.sent ≠ [] → link.cursor < link.yielded link.sent := by
        intro hne
        obtain ⟨e, he, heq⟩ := exists_yielded hne
        rw [← heq]
        exact (h.ahead e he).1
      have hgone : ∀ version attempt, link.Gone version attempt →
          (link.sending replayed).Gone version attempt := by
        rintro version attempt ⟨last, hpast⟩
        exact ⟨last, hsend hcursor hstrict hpast⟩
      have hall : (link.sending replayed).sent = link.sent ++ replayed := rfl
      change Inv start (link.sending replayed) latest
      exact {
        server := h.server
        history := h.history
        runId := h.runId
        latest_eq := h.latest_eq
        latest_le := h.latest_le
        reached := h.reached
        ordered := by
          rw [hall]
          apply increasing_append h.ordered hreplayed.1
          intro a ha b hb
          have := le_yielded h.ordered ha
          have := (hreplayed.2 b hb).1
          omega
        ahead := by
          intro e he
          rw [hall, List.mem_append] at he
          rcases he with hold | hnew
          . exact h.ahead e hold
          . have hbehind := hreplayed.2 e hnew
            exact ⟨hcursor.trans_lt hbehind.1, hbehind.2⟩
        answer := h.answer
        dropped := by
          intro hopen e he hlt hle version attempt hdelta
          exact hgone _ _ (h.dropped hopen e he hlt hle version attempt hdelta)
        leftOut := by
          intro e he hlt hle hnot version attempt hdelta
          rw [hall, List.mem_append, not_or] at hnot
          by_cases hearlier : e.sequence ≤ link.yielded link.sent
          . have hne : link.sent ≠ [] := by
              intro hnil
              rw [yielded_nil hnil] at hearlier
              have hlt' : link.cursor < e.sequence := hlt
              omega
            obtain ⟨edge, hedge, heq⟩ := exists_yielded hne
            have hlt' : e.sequence < link.yielded link.sent := by
              apply Nat.lt_of_le_of_ne hearlier
              intro hsame
              have := hlogged.increasing.eq_of_key he (h.ahead edge hedge).2 (hsame.trans heq.symm)
              rw [this] at hnot
              exact hnot.1 hedge
            obtain ⟨last, hpast⟩ := h.leftOut e he hlt hlt' hnot.1 version attempt hdelta
            exact ⟨last, hsend hearlier (fun _ => hlt') hpast⟩
          . have hne : (link.sending replayed).sent ≠ [] := by
              intro hnil
              rw [yielded_nil hnil] at hle
              exact Nat.lt_asymm hle hlt
            obtain ⟨edge, hedge, heq⟩ := exists_yielded hne
            rw [← heq] at hle
            have hedge' : edge ∈ replayed := by
              rw [hall, List.mem_append] at hedge
              apply hedge.resolve_left
              intro hold
              have := le_yielded h.ordered hold
              omega
            exact past_of_calibrated hlogged hreplay hcalibrated h.ordered hcursor he (by omega)
              hedge' hle hnot.2 hdelta
        drafts := fun version => (h.drafts version).grow List.prefix_rfl (hgone version)
      }
    . contradiction
  . contradiction

section Receive

variable {e : RunEvent} {connection : Client.ConnectionStatus}

-- The first event on its way has been received, and the connection may have been closed behind it.
structure Receives (link : Link) (e : RunEvent) (link' : Link) : Prop where
  sent : ∃ sent, link.sent = e :: sent ∧ (link'.sent = sent ∨ link'.sent = [])
  server : link'.server = link.server
  cursor : link'.cursor = e.sequence
  answer : link'.answer = link.answer

theorem Receives.log_eq (h : link.Receives e link') : link'.log = link.log := by
  unfold log
  rw [h.server]

theorem Receives.mem (h : link.Receives e link') : e ∈ link.sent := by
  obtain ⟨sent, hsent, _⟩ := h.sent
  rw [hsent]
  exact List.mem_cons_self

theorem Receives.ordered (h : link.Receives e link')
    (hordered : Increasing RunEvent.sequence link.sent) :
    Increasing RunEvent.sequence link'.sent
      ∧
    ∀ later ∈ link'.sent, later ∈ link.sent ∧ e.sequence < later.sequence := by
  obtain ⟨sent, hsent, hrest⟩ := h.sent
  rw [hsent] at hordered ⊢
  obtain ⟨hlater, hincreasing⟩ := List.pairwise_cons.mp hordered
  rcases hrest with hsame | hnil
  . rw [hsame]
    exact ⟨hincreasing, fun later hmem => ⟨List.mem_cons_of_mem _ hmem, hlater later hmem⟩⟩
  . rw [hnil]
    exact ⟨List.Pairwise.nil, fun later hmem => absurd hmem List.not_mem_nil⟩

theorem Receives.not_mem {left : RunEvent} (h : link.Receives e link') (hne : link'.sent ≠ [])
    (hlt : e.sequence < left.sequence) (hnot : left ∉ link'.sent) : left ∉ link.sent := by
  obtain ⟨sent, hsent, hrest⟩ := h.sent
  rw [hrest.resolve_right hne] at hnot
  rw [hsent, List.mem_cons, not_or]
  refine ⟨?_, hnot⟩
  rintro rfl
  omega

theorem Inv.past_receive {version attempt : ℚ} {first : Nat} {last : RunEvent}
    (h : Inv start link latest) (hreceives : link.Receives e link') (hfirst : first < e.sequence)
    (hpast : link.Past version attempt first last) :
    link'.Gone version attempt ∧ ¬e.IsDelta version attempt := by
  have hmem := (h.ahead e hreceives.mem).2
  obtain ⟨sent, hsent, hrest⟩ := hreceives.sent
  constructor
  . refine ⟨last, ?_⟩
    rw [hreceives.cursor]
    apply hpast.receive hmem hsent hfirst hreceives.server hreceives.cursor
    intro later hlater
    rcases hrest with hsame | hnil
    . rwa [hsame] at hlater
    . rw [hnil] at hlater
      exact absurd hlater List.not_mem_nil
  . exact hpast.not_isDelta h.server h.history hreceives.mem hmem hfirst

theorem Inv.gone_receive {version attempt : ℚ} (h : Inv start link latest)
    (hreceives : link.Receives e link') (hgone : link.Gone version attempt) :
    link'.Gone version attempt ∧ ¬e.IsDelta version attempt := by
  obtain ⟨last, hpast⟩ := hgone
  exact h.past_receive hreceives (h.ahead e hreceives.mem).1 hpast

theorem Inv.leftOut_receive (h : Inv start link latest) (hreceives : link.Receives e link') :
    ∀ left ∈ link'.log, link'.cursor < left.sequence → left.sequence < link'.yielded link'.sent →
      left ∉ link'.sent → ∀ version attempt, left.IsDelta version attempt →
        ∃ last, link'.Past version attempt left.sequence last := by
  intro left hleft hbehind hle hnot version attempt hdelta
  obtain ⟨_, hlater⟩ := hreceives.ordered h.ordered
  have hlt := (h.ahead e hreceives.mem).1
  rw [hreceives.log_eq] at hleft
  rw [hreceives.cursor] at hbehind
  by_cases hnil : link'.sent = []
  . rw [yielded_nil hnil, hreceives.cursor] at hle
    omega
  . obtain ⟨edge, hedge, heq⟩ := exists_yielded hnil
    have hbound := le_yielded h.ordered (hlater edge hedge).1
    obtain ⟨last, hpast⟩ := h.leftOut left hleft (hlt.trans hbehind) (by omega)
      (hreceives.not_mem hnil hbehind hnot) version attempt hdelta
    refine ⟨last, hpast.move hreceives.server (Nat.le_refl _) ?_ ?_⟩
    . intro later hmem
      exact hpast.durable later (hlater later hmem).1
    . rw [hreceives.cursor]
      intro hle'
      omega

-- What the view has not seen before the event.
theorem Inv.past_between {m : RunEvent} {version attempt : ℚ} (h : Inv start link latest)
    (hreceives : link.Receives e link') (hopen : ¬Client.Locked link.view) (hm : m ∈ link.log)
    (hbehind : latest < m.sequence) (hlt : m.sequence < e.sequence)
    (hdelta : m.IsDelta version attempt) : link'.Gone version attempt ∧ ¬e.IsDelta version attempt := by
  by_cases hle : m.sequence ≤ link.cursor
  . exact h.gone_receive hreceives (h.dropped hopen m hm hbehind hle version attempt hdelta)
  . have hbound := le_yielded h.ordered hreceives.mem
    have hnot : m ∉ link.sent := by
      obtain ⟨sent, hsent, _⟩ := hreceives.sent
      have hordered := h.ordered
      rw [hsent] at hordered ⊢
      intro hmem
      have := hordered.head_le hmem
      omega
    obtain ⟨last, hpast⟩ := h.leftOut m hm (by omega) (by omega) hnot version attempt hdelta
    exact h.past_receive hreceives hlt hpast

theorem Inv.receive_locked (h : Inv start link latest) (hreceives : link.Receives e link')
    (hlocked : Client.Locked link.view) (hview : link'.view = { link.view with connection }) :
    Inv start link' latest := by
  obtain ⟨hordered, hlater⟩ := hreceives.ordered h.ordered
  obtain ⟨hlt, hmem⟩ := h.ahead e hreceives.mem
  constructor
  . rw [hreceives.server]
    exact h.server
  . rw [hreceives.server]
    exact h.history
  . rw [hview]
    exact h.runId
  . rw [hview]
    exact h.latest_eq
  . rw [hreceives.cursor]
    exact h.latest_le.trans hlt.le
  . rw [hreceives.log_eq, hreceives.cursor]
    exact ⟨h.reached.1, .inr ⟨e, hmem, rfl⟩⟩
  . exact hordered
  . intro later hmem
    rw [hreceives.log_eq, hreceives.cursor]
    exact ⟨(hlater later hmem).2, (h.ahead later (hlater later hmem).1).2⟩
  . rw [hreceives.server, hreceives.answer]
    exact h.answer
  . rw [hview]
    exact fun hopen => absurd hlocked hopen
  . exact h.leftOut_receive hreceives
  . intro version
    rw [hreceives.server, hreceives.log_eq, hview]
    apply (h.drafts version).grow List.prefix_rfl
    exact fun attempt hgone => (h.gone_receive hreceives hgone).1

theorem Inv.kept_receive (h : Inv start link latest) (hreceives : link.Receives e link')
    (hopen : ¬Client.Locked link.view) (version : ℚ) :
    Kept link.server.world.journal (seen link.log e.sequence) (link'.Gone version) version
      (Record.get? (Client.eventDrafts link.view (e.wire isoformat)) version) := by
  obtain ⟨hlt, hmem⟩ := h.ahead e hreceives.mem
  have hlogged := h.server.sound.logged
  obtain ⟨telling, htold, _⟩ := h.server.sound.told
  obtain ⟨before, snapshot, old, new, hgrown, hbefore, hmoves, hmatches⟩ := htold.at_event hmem
  have hnewTold := hbefore.event hmoves hmatches
  have hevents : events (before ++ [{ snapshot, event := some e }]) = events before ++ [e] := by
    simp [events_append]
  have hseen : seen link.log e.sequence
      = seen link.log latest
        ++ ((link.log.filter fun m => latest < m.sequence ∧ m.sequence < e.sequence) ++ [e]) := by
    rw [← List.append_assoc]
    exact hlogged.increasing.filter_le_eq hmem (h.latest_le.trans_lt hlt)
  have hupTo : seen link.log e.sequence = events before ++ [e] := by
    apply hlogged.increasing.prefix_eq_filter
    rw [← hevents]
    exact events_mono hgrown
  rw [hseen]
  apply kept_received isoformat hmoves _ h.drafts
  . intro version attempt hgone
    exact h.gone_receive hreceives hgone
  . intro m hm version attempt hdelta
    obtain ⟨hm, hrange⟩ := List.mem_filter.mp hm
    obtain ⟨hbehind, hearlier⟩ := of_decide_eq_true hrange
    exact h.past_between hreceives hopen hm hbehind hearlier hdelta
  . intro stream hstream
    constructor
    . have hcommit : { snapshot, event := some e } ∈ link.server.world.journal :=
        hgrown.subset (by simp)
      exact Genuine.of_commit hgrown hnewTold hstream hcommit hmatches
    . rw [← hseen, hupTo, ← hevents]
      exact hnewTold.text stream hstream

theorem Inv.receive_open (h : Inv start link latest) (hreceives : link.Receives e link')
    (hopen : ¬Client.Locked link.view)
    (hview : link'.view = { Client.applyEvent link.view (e.wire isoformat) with connection }) :
    Inv start link' e.sequence := by
  obtain ⟨hordered, hlater⟩ := hreceives.ordered h.ordered
  obtain ⟨hlt, hmem⟩ := h.ahead e hreceives.mem
  constructor
  . rw [hreceives.server]
    exact h.server
  . rw [hreceives.server]
    exact h.history
  . rw [hview]
    exact (Client.applyEvent_runId _ _).trans h.runId
  . rw [hview]
    exact Client.applyEvent_latestSequence _ _
  . exact hreceives.cursor.ge
  . rw [hreceives.log_eq, hreceives.cursor]
    exact ⟨.inr ⟨e, hmem, rfl⟩, .inr ⟨e, hmem, rfl⟩⟩
  . exact hordered
  . intro later hmem
    rw [hreceives.log_eq, hreceives.cursor]
    exact ⟨(hlater later hmem).2, (h.ahead later (hlater later hmem).1).2⟩
  . rw [hreceives.server, hreceives.answer]
    exact h.answer
  . rw [hreceives.cursor]
    intro _ later _ hbehind hle
    omega
  . exact h.leftOut_receive hreceives
  . intro version
    rw [hreceives.server, hreceives.log_eq, hview]
    change Kept _ _ _ _ (Record.get? (Client.applyEvent _ _).drafts version)
    rw [Client.applyEvent_drafts]
    exact h.kept_receive hreceives hopen version

-- The reducer drops what it gets while it is locked, and nothing else of what is on its way.
theorem Inv.ignores_iff (h : Inv start link latest) (hreceives : link.Receives e link') :
    Ignores link.view (e.wire isoformat) ↔ Client.Locked link.view := by
  obtain ⟨hlt, hmem⟩ := h.ahead e hreceives.mem
  constructor
  . rintro (hrun | hold | hlocked)
    . exfalso
      apply hrun
      rw [h.runId]
      exact congrArg some (h.history.spans.runId e hmem)
    . have hold' : (e.sequence : ℚ) ≤ link.view.latestSequence := hold
      rw [h.latest_eq, Nat.cast_le] at hold'
      have := h.latest_le
      omega
    . exact hlocked
  . exact fun hlocked => .inr (.inr hlocked)

theorem Inv.receive (h : Inv start link latest) (hstep : link.receive isoformat = some link') :
    ∃ latest', Inv start link' latest' := by
  unfold Link.receive at hstep
  split at hstep
  . next e sent hsource =>
    cases hstep
    obtain ⟨connection, hrun⟩ := received_run isoformat link.view e
    have hreceives : link.Receives e {
        link.run (received isoformat e) with
        source := if Client.Hook.endsStream e.event then .closed else .streaming sent
        cursor := e.sequence } := by
      refine ⟨⟨sent, ?_, ?_⟩, rfl, rfl, rfl⟩
      . unfold Link.sent
        rw [hsource]
      . by_cases hends : Client.Hook.endsStream e.event = true
        . rw [if_pos hends]
          exact .inr rfl
        . rw [if_neg hends]
          exact .inl rfl
    by_cases hlocked : Client.Locked link.view
    . rw [runReducer, if_pos ((h.ignores_iff hreceives).mpr hlocked)] at hrun
      exact ⟨latest, h.receive_locked hreceives hlocked hrun⟩
    . rw [runReducer, if_neg (mt (h.ignores_iff hreceives).mp hlocked)] at hrun
      exact ⟨e.sequence, h.receive_open hreceives hlocked hrun⟩
  . contradiction

end Receive

-- The view is that of the snapshot, and nothing is on its way.
theorem Inv.load {snapshot : RunSnapshot} {connection : Client.ConnectionStatus}
    (h : Inv start link latest) (hwhole : link.Whole .load) (hanswer : link.answer = some snapshot)
    (hserver : link'.server = link.server) (hcursor : link'.cursor = snapshot.latestEventSequence)
    (hnone : link'.answer = none) (hsent : link'.sent = [])
    (hview : link'.view = { Client.loadSnapshot link.view snapshot.wire with connection }) :
    Inv start link' snapshot.latestEventSequence := by
  obtain ⟨hrunId, before, hrecorded⟩ := h.answer snapshot hanswer
  have hlogged := h.server.sound.logged
  have hgrown := events_mono hrecorded.grown
  have hlog : link'.log = link.log := by
    unfold log
    rw [hserver]
  have hreached : Reached link'.log snapshot.latestEventSequence := by
    rw [hlog]
    exact hrecorded.reached.mono hgrown
  have hbefore : ∀ e ∈ events before, e ∈ link'.log ∧ e.sequence ≤ link'.cursor := by
    rw [← hrecorded.events_eq, hlog, hcursor]
    intro e he
    obtain ⟨hmem, hle⟩ := List.mem_filter.mp he
    exact ⟨hmem, of_decide_eq_true hle⟩
  constructor
  . rw [hserver]
    exact h.server
  . rw [hserver]
    exact h.history
  . rw [hview]
    exact congrArg some hrunId
  . rw [hview]
    rfl
  . exact hcursor.ge
  . rw [hcursor]
    exact ⟨hreached, hreached⟩
  . rw [hsent]
    exact List.Pairwise.nil
  . rw [hsent]
    exact fun e he => absurd he List.not_mem_nil
  . rw [hnone]
    exact fun _ hmem => absurd hmem (Option.not_mem_none _)
  . rw [hcursor]
    intro _ e _ hlt hle
    omega
  . rw [yielded_nil hsent]
    intro e _ hlt hle
    omega
  . intro version
    rw [hserver, hlog, hview]
    change Kept _ (seen (events link.server.world.journal) _) _ _
      (Record.get? (Client.draftsFromSnapshot snapshot.wire) version)
    rw [hrecorded.events_eq]
    have hincreasing : Increasing RunEvent.sequence (events before) := by
      rw [← hrecorded.events_eq]
      exact hlogged.increasing.filter _
    apply hrecorded.kept hincreasing
    . intro e he last hlast hlt hsettles version attempt hdelta
      exact ⟨last, past_of_le (hbefore e he).1 (hbefore last hlast).1 hlt hsettles
        (hbefore last hlast).2 hdelta⟩
    . refine (hwhole snapshot hanswer).imp_right (Or.imp_right ?_)
      intro hbridged e he version attempt hdelta
      rw [← hserver] at hlogged hbridged
      rw [← hcursor] at hbridged
      exact past_of_bridged hlogged hbridged (hbefore e he).1 (by exact_mod_cast e.sequence_pos)
        (hbefore e he).2 (Nat.le_refl _) hdelta

-- The snapshot in memory, of which the client has not yet been told.
theorem Inv.recorded (h : Inv start link latest) :
    Recorded link.server.world.journal link.server.world.journal link.server.world.snapshot := by
  have hsound := h.server.sound
  obtain ⟨telling, htold, hholds⟩ := hsound.told
  exact {
    grown := List.prefix_rfl
    told := ⟨telling, htold, hholds.matches_text, hholds.idle⟩
    events_eq := by
      unfold seen
      rw [hsound.latest, List.filter_eq_self]
      intro e he
      exact decide_eq_true (hsound.logged.le e he)
    reached := by
      rw [hsound.latest]
      exact hsound.logged.reached
  }

theorem Inv.step {label : LinkLabel} (h : Inv start link latest) (hwhole : link.Whole label)
    (hstep : link.step isoformat env label = some link') : ∃ latest', Inv start link' latest' := by
  cases label with
  | serve label =>
    obtain ⟨server, hserver, rfl⟩ := Option.map_eq_some_iff.mp hstep
    exact ⟨latest, h.serve hserver⟩
  | connect =>
    change link.connect = some link' at hstep
    unfold Link.connect at hstep
    split at hstep
    . cases hstep
      refine ⟨latest, h.quiet rfl rfl (.inr rfl) h.answer ⟨rfl, rfl, rfl⟩ ?_⟩
      exact fun hopen hlocked => absurd hlocked hopen
    . contradiction
  | send => exact ⟨latest, h.send hwhole hstep⟩
  | receive => exact h.receive hstep
  | disconnect =>
    change link.disconnect = some link' at hstep
    unfold Link.disconnect at hstep
    split at hstep
    . cases hstep
      refine ⟨latest, h.quiet rfl rfl (.inr rfl) h.answer ⟨rfl, rfl, rfl⟩ ?_⟩
      exact fun hopen hlocked => absurd hlocked hopen
    . contradiction
  | recover =>
    cases hstep
    refine ⟨latest, h.quiet rfl rfl (.inr rfl) ?_ ⟨rfl, rfl, rfl⟩ ?_⟩
    . exact fun _ hmem => absurd hmem (Option.not_mem_none _)
    . exact fun hopen hlocked => absurd hlocked hopen
  | fetch =>
    change link.fetch = some link' at hstep
    unfold Link.fetch at hstep
    split at hstep
    . cases hstep
      refine ⟨latest, h.quiet rfl rfl (.inl rfl) ?_ ⟨rfl, rfl, rfl⟩ ?_⟩
      . rintro snapshot ⟨⟩
        exact ⟨h.history.sameRequest.runId, _, h.recorded⟩
      . exact fun hopen hlocked => absurd hlocked hopen
    . contradiction
  | load =>
    change link.load = some link' at hstep
    unfold Link.load at hstep
    split at hstep
    . next snapshot _ hanswer =>
      cases hstep
      refine ⟨_, h.load hwhole hanswer rfl rfl rfl ?_ rfl⟩
      by_cases hterminal : snapshot.status.isTerminal = true
      . simp only [hterminal, if_true]
        rfl
      . simp only [hterminal]
        rfl
    . contradiction
  | dispatch action =>
    simp only [Link.step] at hstep
    split at hstep
    . next hlocal =>
      cases hstep
      refine ⟨latest, h.quiet rfl rfl (.inl rfl) h.answer (run_view_local hlocal _) ?_⟩
      exact fun hopen hlocked => hwhole hlocked hopen
    . contradiction

theorem reaches_inv {env : WorkflowEnv} {runId : RunId} {request : CreateRunRequest}
    {outputLanguage : String} {bufferSize : Nat} {link : Link}
    (hrun : Steps (step isoformat env) Whole
      (init env.toEnv runId request outputLanguage bufferSize) link) :
    ∃ start latest, Inv start link latest := by
  apply hrun.invariant ⟨_, 0, Inv.init⟩
  rintro c label c' ⟨start, latest, hc⟩ hwhole hstep
  exact ⟨start, hc.step hwhole hstep⟩

/--
In every run of server and client whose replays settle what they leave out, whose snapshots seed the
draft in progress and in which no dropped delta is waited for again, every draft in progress is a
prefix of what its attempt has streamed.
-/
theorem drafts_streamed {env : WorkflowEnv} {runId : RunId} {request : CreateRunRequest}
    {outputLanguage : String} {bufferSize : Nat} {link : Link}
    (hrun : Steps (step isoformat env) Whole
      (init env.toEnv runId request outputLanguage bufferSize) link) : link.DraftsStreamed := by
  intro version draft hdraft hcomplete
  obtain ⟨start, latest, hinv⟩ := reaches_inv hrun
  exact (hinv.drafts version).genuine draft hdraft hcomplete

-- The mock provider under a clock that lets every chunk be committed as a delta of its own.
def tickingWorkflow : WorkflowEnv :=
  { Workflow.mockWorkflow with clock := fun ticks => ticks / 10 }

def tickingInit : Link :=
  init tickingWorkflow.toEnv "run" mockRequest "English" 10

def blank (_ : Timestamp) : String :=
  ""

def chunk (delta : String) : LinkLabel :=
  .serve (.generatorWake (.returned (some { delta, usage := none, finishReason := none })))

def watchedAttempt : List LinkLabel :=
  [.serve .begin, .serve .enterGenerator, .fetch, .load, .connect, chunk "a", .send, .receive]

theorem drafts_streamed_watched :
    ∃ link,
      exec (step blank tickingWorkflow) tickingInit watchedAttempt = some link
        ∧ link.DraftsStreamed
        ∧ (Record.get? link.view.drafts 1).map VersionDraft.content = some "a" := by
  have hsome :
      (exec (step blank tickingWorkflow) tickingInit watchedAttempt).any
        (fun link => (Record.get? link.view.drafts 1).map VersionDraft.content = some "a")
        = true := by decide +kernel
  obtain ⟨link, hexec, hcontent⟩ := (Option.any_eq_true _ _).mp hsome
  refine ⟨link, hexec, ?_, by simpa using hcontent⟩
  apply drafts_streamed
  exact Steps.of_exec (by decide +kernel) hexec

/--
The client is away while the second delta and a pause request are committed, and comes back when
the hot buffer has dropped both. It is sent the pause request alone, and next the deltas after it.
-/
def evictedDelta : List LinkLabel :=
  watchedAttempt ++ [.disconnect, chunk "b", .serve .requestPause] ++ List.replicate 10 (chunk "c")
    ++ [.connect, .send, .receive, .send, .receive]

-- The draft of the first version holds a text that `current_prd` never was.
def invented (link : Link) : Bool :=
  (Record.get? link.view.drafts 1).any fun draft =>
    !draft.complete
      && link.server.world.journal.all fun commit => commit.snapshot.currentPrd ≠ draft.content

theorem not_drafts_streamed :
    ¬∀ link, Reaches (step blank tickingWorkflow) tickingInit link → link.DraftsStreamed := by
  intro hclaim
  have hinvented :
      (exec (step blank tickingWorkflow) tickingInit evictedDelta).any invented = true := by
    decide +kernel
  obtain ⟨link, hexec, hlink⟩ := (Option.any_eq_true _ _).mp hinvented
  unfold invented at hlink
  obtain ⟨draft, hdraft, hlacks⟩ := (Option.any_eq_true _ _).mp hlink
  simp only [Bool.and_eq_true, Bool.not_eq_true', List.all_eq_true, decide_eq_true_eq] at hlacks
  obtain ⟨⟨commit, hcommit, _, _, hprd, _⟩, _⟩ :=
    hclaim link (Reaches.of_exec hexec) 1 draft hdraft hlacks.1
  exact hlacks.2 commit hcommit hprd

end Link

end Live

end AgenticPrd
